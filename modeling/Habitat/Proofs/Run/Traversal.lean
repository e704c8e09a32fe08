import Habitat.Proofs.Run.Leaves

/-!
# Everything that runs keeps a discipline

One lemma for each construct: given that the sequences inside keep a discipline, the construct
does. With fuel, the sequences inside are the same interpreter with less of it, so that
everything keeps it.

All lemmas compare two ways `run` and `run'` to run the sequences inside, which agree from the
states that are admitted.

* `Active.at_statementWith_of_bodies`: one layer of statements, case by case, given what moves and
  calls do.
* `Mobile.at_moves`: moves, for disciplines that allow all of them.
* `Active.safe_sequenceWith`, `Sound.safe_sequenceWith`, `Sound.safe_statementWith`: sequences and
  statements of any depth.
-/
namespace Habitat

open Exec

/-- How a statement that moves agents works out which. -/
def Statement.plan? : Statement → Option (Exec Relocation)
  | .capture target species _ _ => some (planCapture target species)
  | .release target species host _ _ => some (planRelease target species host)
  | .migrate source target _ _ => some (planMigrate source target)
  | _ => none

/-- The sequences inside a statement. -/
def Statement.bodies : Statement → List Sequence
  | .branch _ yes no => yes :: no.toList
  | .attempt body rescue => body :: rescue.toList
  | .block body | .loop _ _ body | .ask _ _ body | .create _ body | .capture _ _ _ body
  | .release _ _ _ _ body | .migrate _ _ _ body => [body]
  | _ => []

namespace Discipline

/-- A discipline that allows everything a statement does itself, moves apart. -/
structure Active (D : Discipline) : Prop extends Living D where
  signal : ∀ s f, D.admits s → D.keeps s { s with scope := { s.scope with flow := f } }
  record : ∀ s v, D.admits s → D.keeps s { s with scope := { s.scope with lastValue := v } }

/-- A discipline that allows everything a statement does itself. -/
structure Sound (D : Discipline) : Prop extends Open D where
  signal : ∀ s f, D.admits s → D.keeps s { s with scope := { s.scope with flow := f } }
  record : ∀ s v, D.admits s → D.keeps s { s with scope := { s.scope with lastValue := v } }

theorem Sound.active {D : Discipline} (S : Sound D) : Active D :=
  ⟨S.toOpen.living, S.signal, S.record⟩

variable {D : Discipline} {run run' : Sequence → Exec Value}

theorem Lawful.safe_plan (L : Lawful D) {st : Statement} {plan : Exec Relocation}
    (hst : st.plan? = some plan) : D.Safe plan := by
  cases st with
  | capture target species returns body =>
    cases hst
    exact L.safe_planCapture target species
  | release target species host returns body =>
    cases hst
    exact L.safe_planRelease target species host
  | migrate source target returns body =>
    cases hst
    exact L.safe_planMigrate source target
  | _ => cases hst

/-- Whoever a statement is to move, and where to, is in the world. -/
theorem fits_of_plan {st : Statement} {plan : Exec Relocation} (hst : st.plan? = some plan)
    {s t : State} {r : Relocation} (hr : plan s = .ok r t) :
    r.Fits t.machine.world := by
  cases st with
  | capture target species returns body =>
    cases hst
    exact planCapture_fits hr
  | release target species host returns body =>
    cases hst
    exact planRelease_fits hr
  | migrate source target returns body =>
    cases hst
    exact planMigrate_fits hr
  | _ => cases hst

/-- Finding out where an agent goes keeps the discipline, whatever the statement. -/
theorem Mobile.safe_destination (O : Mobile D) {st : Statement} {plan : Exec Relocation}
    (hst : st.plan? = some plan) {s t : State} {r : Relocation} (hr : plan s = .ok r t)
    (a : AgentRef) : D.Safe (r.destination a) := by
  cases st with
  | capture target species returns body =>
    cases hst
    obtain ⟨m, fixed, -, -, -, hdest, -⟩ := planCapture_eq_ok hr
    rw [hdest]
    exact O.safe_captureInto m fixed a
  | release target species host returns body =>
    cases hst
    obtain ⟨x, -, -, hdest, -, -⟩ := planRelease_eq_ok hr
    rw [hdest]
    exact O.safe_releaseTo x r.into species a
  | migrate source target returns body =>
    cases hst
    obtain ⟨x, p, -, -, -, hdest, -, -⟩ := planMigrate_eq_ok hr
    rw [hdest]
    exact O.safe_pure (some p)
  | _ => cases hst

/-- Moves keep the discipline, whatever the statement. -/
theorem Mobile.at_moves (O : Mobile D) {st : Statement} {plan : Exec Relocation}
    (hst : st.plan? = some plan) {s t : State} {r : Relocation} (hs : D.admits s)
    (hr : plan s = .ok r t) :
    D.At (moveAll r.destination r.candidates) (moveAll r.destination r.candidates)
      (t.holding r.holdings) := by
  have L := O.toLawful
  have hadm := L.admits_holding r.holdings ((L.safe_plan hst s hs).admitted L hs hr)
  have hd : ∀ a, (D.grown t.machine.world).Safe (r.destination a) := fun a =>
    (O.grown _).safe_destination hst hr a
  exact At.of_grown hadm (O.safe_moveAll (fits_of_plan hst hr) hd r.candidates fun _ h => h)

namespace Active

variable (A : Active D)

include A

theorem lawful : Lawful D := A.toLiving.toLawful

theorem safe_setFlow (f : Flow) : D.Safe (setFlow f) := fun s hs => At.ok rfl (A.signal s f hs)

theorem safe_takeFlow (owned : Flow) : D.Safe (takeFlow owned) := fun s hs =>
  At.ok rfl (A.signal s (s.scope.flow.clear owned) hs)

theorem safe_recordValue (v : Value) : D.Safe (recordValue v) := fun s hs =>
  At.ok rfl (A.record s v hs)

/-! ## Dispatch -/

theorem rel_runEach {remote remote' : AgentRef → Exec RemoteResult}
    (h : ∀ a, D.Rel (remote a) (remote' a)) (stop : Bool) (targets : List AgentRef) :
    D.Rel (runEach remote stop targets) (runEach remote' stop targets) := by
  have L := A.lawful
  induction targets with
  | nil => exact L.safe_pure []
  | cons a rest ih =>
    refine L.safe_interrupted.bind L fun i => Rel.ite (fun _ => L.safe_pure []) fun _ => ?_
    refine (h a).bind L fun r => (A.safe_takeFlow .leave).bind L fun f => ?_
    refine Rel.ite (fun _ => L.safe_pure [r]) fun _ => ?_
    exact (Rel.withHeld L _ ih).bind L fun rs => L.safe_pure (r :: rs)

theorem rel_runForked {remote remote' : AgentRef → Exec RemoteResult}
    (h : ∀ a, D.Rel (remote a) (remote' a)) (targets : List AgentRef) :
    D.Rel (runForked remote targets) (runForked remote' targets) := by
  have L := A.lawful
  induction targets with
  | nil => exact L.safe_pure []
  | cons a rest ih =>
    refine L.safe_scope.bind L fun s => (Rel.forked L _ (h a)).bind L fun r => ?_
    exact (Rel.withHeld L _ ih).bind L fun rs => L.safe_pure (r :: rs)

/-- Only errors that the discipline allows come back from the copies. -/
theorem runForked_raises {remote remote' : AgentRef → Exec RemoteResult}
    (h : ∀ a, D.Rel (remote a) (remote' a)) (targets : List AgentRef) {s t : State}
    {rs : List (Except ExecError RemoteResult)} (hs : D.admits s)
    (hrs : runForked remote targets s = .ok rs t) :
    ∀ e, .error e ∈ rs → D.raises (.error e) := by
  have L := A.lawful
  induction targets generalizing s t rs with
  | nil => cases hrs; intro e he; cases he
  | cons a rest ih =>
    unfold runForked at hrs
    rw [scope_bind_apply] at hrs
    obtain ⟨r, s₁, hr, h₁⟩ := bind_eq_ok hrs
    obtain ⟨rs', s₂, hrest, h₂⟩ := bind_eq_ok h₁
    cases h₂
    have hs₁ := (Rel.forked L _ (h a) s hs).admitted L hs hr
    intro e he
    rcases List.mem_cons.mp he with rfl | he
    · exact Rel.forked_raises L (h a) hs hr
    · obtain ⟨u, hu, -⟩ := bracket_eq_ok hrest
      exact ih (L.admitted s₁ _ hs₁ (L.keeps_held _ hs₁)) hu e he

omit A in
theorem firstError_raises {rs : List (Except ExecError RemoteResult)}
    (h : ∀ e, .error e ∈ rs → D.raises (.error e)) :
    ∀ e, firstError rs = .error e → D.raises (.error e) := by
  induction rs with
  | nil => nofun
  | cons r rest ih =>
    intro e he
    cases r with
    | error e' =>
      cases he
      exact h e List.mem_cons_self
    | ok r =>
      cases hrest : firstError rest with
      | ok rs => rw [firstError, hrest] at he; cases he
      | error e' =>
        rw [firstError, hrest] at he
        cases he
        exact ih (fun e he => h e (List.mem_cons_of_mem _ he)) e hrest

section
variable {body : Sequence} (hrun : D.Rel (run body) (run' body))
include hrun

theorem rel_runRemote (owner : String) (a : AgentRef) :
    D.Rel (runRemote run owner body a) (runRemote run' owner body a) := by
  have L := A.lawful
  refine L.safe_interrupted.bind L fun i => L.safe_machine.bind L fun m => ?_
  refine Rel.ite (fun _ => L.safe_pure _) fun _ => L.safe_scope.bind L fun s => ?_
  refine Rel.withAgent L a (Rel.attempt_bind L (Rel.withFrame L owner s.agent hrun) ?_)
  intro r hr
  cases r with
  | ok v => exact L.safe_pure _
  | error e =>
    have hreport : D.Safe (do report .error e.message; return RemoteResult.failed) :=
      (L.safe_report _ _).bind L fun _ => L.safe_pure _
    refine L.safe_scope.bind L fun s => Rel.ite (fun _ => ?_) fun _ => hreport
    exact (L.safe_fail_of_raises (hr e rfl)).bind L fun _ => hreport

theorem rel_fanOut (owner : String) (targets : List AgentRef) (hint : Value) (stop : Bool) :
    D.Rel (fanOut run owner body targets hint stop) (fanOut run' owner body targets hint stop) := by
  have L := A.lawful
  have hremote := A.rel_runRemote hrun owner
  refine Rel.ite (fun _ => L.safe_pure _) fun _ => Rel.withHeld L _ (L.safe_machine.bind L fun m => ?_)
  refine Rel.ite (fun _ => ?_) fun _ => A.rel_runEach hremote stop targets
  intro s hs
  refine At.bind L (A.rel_runForked hremote targets s hs) fun rs t hrs => ?_
  refine L.safe_lift (firstError_raises ?_) t ((A.rel_runForked hremote targets s hs).admitted L hs hrs)
  exact A.runForked_raises hremote targets hs hrs

theorem rel_runAsk (target : Expr) (parallel : Option Expr) :
    D.Rel (runAsk run target parallel body) (runAsk run' target parallel body) := by
  have L := A.lawful
  refine (L.safe_eval target).bind L fun v => L.safe_get.bind L fun s => ?_
  have hall : ∀ targets, D.Rel
      (do
        let hint ← evalOrNil parallel
        let _ ← withHeld [v] (fanOut run "ask" body targets hint false)
        return Value.nil)
      (do
        let hint ← evalOrNil parallel
        let _ ← withHeld [v] (fanOut run' "ask" body targets hint false)
        return Value.nil) := fun targets =>
    (L.safe_evalOrNil parallel).bind L fun hint =>
      (Rel.withHeld L _ (A.rel_fanOut hrun "ask" targets hint false)).bind L fun _ =>
        L.safe_pure _
  dsimp only
  split
  · exact (A.rel_runRemote hrun "ask" _).bind L fun r => L.safe_pure _
  · exact hall _
  · exact L.safe_fail fun _ => nofun
  · refine Rel.ite (fun _ => hall _) fun _ => ?_
    exact (L.safe_text _).bind L fun t => L.safe_fail fun _ => nofun

theorem rel_runCreate (f : CreateFacets) :
    D.Rel (runCreate run f body) (runCreate run' f body) := by
  have L := A.lawful
  refine (A.safe_createAgents f).bind L fun r => ?_
  have hend : D.Safe (do
      let created ← agentList r.2
      store f.returns created
      return created) :=
    (L.safe_agentList r.2).bind L fun created => (L.safe_store f.returns created).bind L fun _ =>
      L.safe_pure created
  refine Rel.ite (fun _ => ?_) fun _ => hend
  refine Rel.bind L (Rel.withHeld L _ ?_) fun _ => hend
  refine (L.safe_evalOrNil f.parallel).bind L fun hint => ?_
  exact (A.rel_fanOut hrun "create" r.2 hint false).bind L fun _ => L.safe_pure _

/-- A relocation, given that its moves keep the discipline. -/
theorem at_relocate {r : Relocation} {s : State} (hs : D.admits s)
    (hmoves : D.At (moveAll r.destination r.candidates) (moveAll r.destination r.candidates)
      (s.holding r.holdings)) (returns : Option String) :
    D.At (relocate run r returns body) (relocate run' r returns body) s := by
  have L := A.lawful
  refine At.withHeld L _ hs (At.bind L hmoves fun m t ht => ?_)
  have hadm := hmoves.admitted L (L.admits_holding r.holdings hs) ht
  refine Rel.bind L (L.safe_reportRejected _ _ _) (fun _ => ?_) t hadm
  refine (A.rel_fanOut hrun r.verb m.1 .nil true).bind L fun _ => ?_
  exact (L.safe_agentList m.1).bind L fun result => (L.safe_store returns result).bind L fun _ =>
    L.safe_pure result

/-- A statement that works out a relocation and then carries it out. -/
theorem at_relocation {plan : Exec Relocation} (hplan : D.Safe plan) {s : State}
    (hs : D.admits s)
    (hmoves : ∀ r t, plan s = .ok r t →
      D.At (moveAll r.destination r.candidates) (moveAll r.destination r.candidates)
        (t.holding r.holdings)) (returns : Option String) :
    D.At (plan >>= fun r => relocate run r returns body)
      (plan >>= fun r => relocate run' r returns body) s := by
  refine At.bind A.lawful (hplan s hs) fun r t hr => ?_
  exact A.at_relocate hrun ((hplan s hs).admitted A.lawful hs hr) (hmoves r t hr) returns

/-! ## Loops -/

theorem rel_iterate (var : Option String) (v : Value) :
    D.Rel (iterate run var body v) (iterate run' var body v) := by
  have L := A.lawful
  refine Rel.withFrame L "loop" none ((L.safe_store var v).bind L fun _ => ?_)
  refine hrun.bind L fun last => (A.safe_takeFlow .skip).bind L fun f => ?_
  exact L.safe_machine.bind L fun m => L.safe_pure _

end

/-! ## Actions -/

theorem rel_invokeWith {handlers : Handlers}
    (hh : ∀ native args, D.Safe (asForeign (handlers native args))) (action : Action)
    (hrun : ∀ body, action.body = .statements body → D.Rel (run body) (run' body))
    (args : BoundArguments) (caller : Option AgentRef) :
    D.Rel (invokeWith handlers run action args caller)
      (invokeWith handlers run' action args caller) := by
  have L := A.lawful
  refine Rel.withHeld L _ (Rel.withFrame L _ caller ?_)
  refine (L.safe_declareAll args).bind L fun _ => Rel.attempt_bind L ?_ fun r hr => ?_
  · cases hbody : action.body with
    | statements body => exact hrun body hbody
    | native handler => exact hh handler args
  · exact (A.safe_takeFlow .yield).bind L fun _ => L.safe_lift hr

theorem rel_runCall (hrun : ∀ body, D.Rel (run body) (run' body)) {handlers : Handlers}
    (hh : ∀ native args, D.Safe (asForeign (handlers native args))) (c : ActionCall) :
    D.Rel (runCall handlers run c) (runCall handlers run' c) := by
  have L := A.lawful
  refine (L.safe_callee c.target).bind L fun r => L.safe_machine.bind L fun m => ?_
  refine Rel.ite (fun _ => L.safe_pure _) fun _ => ?_
  dsimp only
  split
  · exact L.safe_fail fun _ => nofun
  · rename_i action _
    refine (L.safe_bind c.args _).bind L fun args => ?_
    have hinvoke := A.rel_invokeWith hh action (fun body _ => hrun body) args r.2
    refine (Rel.withAgent L r.1 hinvoke).bind L fun v => ?_
    exact (L.safe_store c.returns v).bind L fun _ => L.safe_pure v

/-! ## Kinds of loops -/

section
variable {α : Type} {visit visit' : α → Exec (Value × Bool)}
  (hvisit : ∀ x, D.Rel (visit x) (visit' x))
include hvisit

theorem rel_repeatTimes (x : α) (n : Nat) (last : Value) :
    D.Rel (repeatTimes (visit x) n last) (repeatTimes (visit' x) n last) := by
  have L := A.lawful
  induction n generalizing last with
  | zero => exact L.safe_pure last
  | succ n ih =>
    refine (Rel.withHeld L _ (hvisit x)).bind L fun r => ?_
    exact Rel.ite (fun _ => ih r.1) fun _ => L.safe_pure r.1

theorem rel_repeatWhile {condition : Exec Bool} (hc : D.Safe condition) (x : α) (n : Nat)
    (last : Value) :
    D.Rel (repeatWhile condition (visit x) n last) (repeatWhile condition (visit' x) n last) := by
  have L := A.lawful
  induction n generalizing last with
  | zero => exact L.safe_throw_outOfFuel
  | succ n ih =>
    refine hc.bind L fun c => Rel.ite (fun _ => ?_) fun _ => L.safe_pure last
    refine (Rel.withHeld L _ (hvisit x)).bind L fun r => ?_
    exact Rel.ite (fun _ => ih r.1) fun _ => L.safe_pure r.1

theorem rel_repeatFrom (inRange : α → Bool) (next : α → Option α) (n : Nat) (x : α)
    (last : Value) :
    D.Rel (repeatFrom inRange next visit n x last) (repeatFrom inRange next visit' n x last) := by
  have L := A.lawful
  induction n generalizing x last with
  | zero => exact L.safe_throw_outOfFuel
  | succ n ih =>
    refine Rel.ite (fun _ => ?_) fun _ => L.safe_pure last
    refine (Rel.withHeld L _ (hvisit x)).bind L fun r => ?_
    refine Rel.ite (fun _ => ?_) fun _ => L.safe_pure r.1
    cases next x with
    | some y => exact ih y r.1
    | none => exact L.safe_pure r.1

end

section
variable {visit visit' : Value → Exec (Value × Bool)} (hvisit : ∀ v, D.Rel (visit v) (visit' v))
include hvisit

theorem rel_repeatOver (vs : List Value) (last : Value) :
    D.Rel (repeatOver visit vs last) (repeatOver visit' vs last) := by
  have L := A.lawful
  induction vs generalizing last with
  | nil => exact L.safe_pure last
  | cons v rest ih =>
    refine (Rel.withHeld L _ (hvisit v)).bind L fun r => ?_
    exact Rel.ite (fun _ => ih r.1) fun _ => L.safe_pure r.1

theorem rel_countInts (r : Range Int64) : D.Rel (countInts visit r) (countInts visit' r) := by
  have L := A.lawful
  refine Rel.ite (fun _ => L.safe_fail fun _ => nofun) fun _ => ?_
  refine Rel.ite (fun _ => (hvisit _).bind L fun r => L.safe_pure r.1) fun _ => ?_
  refine Rel.ite (fun _ => L.safe_pure _) fun _ => ?_
  exact A.rel_repeatFrom (fun x => hvisit (.int x)) _ _ _ r.start .nil

theorem rel_countFloats (fuel : Nat) (r : Range Float) :
    D.Rel (countFloats fuel visit r) (countFloats fuel visit' r) := by
  have L := A.lawful
  refine Rel.ite (fun _ => L.safe_fail fun _ => nofun) fun _ => ?_
  refine Rel.ite (fun _ => (hvisit _).bind L fun r => L.safe_pure r.1) fun _ => ?_
  refine Rel.ite (fun _ => L.safe_pure _) fun _ => ?_
  exact A.rel_repeatFrom (fun x => hvisit (.float x)) _ _ fuel r.start .nil

theorem rel_countAny (fuel : Nat) (r : Range Value) :
    D.Rel (countAny fuel visit r) (countAny fuel visit' r) := by
  have L := A.lawful
  unfold countAny
  cases intRange? r with
  | some r => exact A.rel_countInts hvisit r
  | none =>
    have hrest : ∀ step : Option Float, D.Rel
        (do
          let start ← number r.start
          let stop ← number r.stop
          countFloats fuel visit ⟨start, stop, step⟩)
        (do
          let start ← number r.start
          let stop ← number r.stop
          countFloats fuel visit' ⟨start, stop, step⟩) := fun step =>
      (L.safe_number r.start).bind L fun start => (L.safe_number r.stop).bind L fun stop =>
        A.rel_countFloats hvisit fuel ⟨start, stop, step⟩
    dsimp only
    cases r.step with
    | none => exact (L.safe_pure none).bind L hrest
    | some v => exact (L.safe_number v).bind L fun x => (L.safe_pure (some x)).bind L hrest

theorem rel_runKind (fuel : Nat) (kind : LoopKind) :
    D.Rel (runKind fuel visit kind) (runKind fuel visit' kind) := by
  have L := A.lawful
  cases kind with
  | times count =>
    exact (L.safe_resolve intBound? count).bind L fun n => A.rel_repeatTimes hvisit .nil _ .nil
  | loopWhile condition =>
    have hc : D.Safe (do return (← eval condition).truthy) :=
      (L.safe_eval condition).bind L fun v => L.safe_pure v.truthy
    exact A.rel_repeatWhile hvisit hc .nil fuel .nil
  | each source =>
    refine (L.safe_eval source).bind L fun v => L.safe_machine.bind L fun m => ?_
    exact Rel.withHeld L _ (A.rel_repeatOver hvisit _ .nil)
  | intRange r =>
    exact (L.safe_resolveRange intBound? r).bind L fun r => A.rel_countInts hvisit r
  | floatRange r =>
    exact (L.safe_resolveRange Value.asFloat r).bind L fun r => A.rel_countFloats hvisit fuel r
  | anyRange r =>
    refine (L.safe_eval r.start).bind L fun start => (L.safe_eval r.stop).bind L fun stop => ?_
    exact (L.safe_evalOption r.step).bind L fun step => A.rel_countAny hvisit fuel ⟨start, stop, step⟩

end

/-! ## Statements -/

theorem rel_steps_of_mem {step step' : Statement → Exec Value} {body : Sequence}
    (h : ∀ st ∈ body, D.Rel (step st) (step' st)) (last : Value) :
    D.Rel (steps step body last) (steps step' body last) := by
  have L := A.lawful
  induction body generalizing last with
  | nil => exact L.safe_pure last
  | cons st rest ih =>
    refine L.safe_interrupted.bind L fun i => Rel.ite (fun _ => L.safe_pure last) fun _ => ?_
    refine (L.safe_traceStatement st).bind L fun _ => ?_
    refine (Rel.withHeld L _ (h st List.mem_cons_self)).bind L fun v => ?_
    refine (A.safe_recordValue v).bind L fun _ => ih (fun st hst => ?_) v
    exact h st (List.mem_cons_of_mem _ hst)

theorem rel_steps {step step' : Statement → Exec Value} (h : ∀ st, D.Rel (step st) (step' st))
    (body : Sequence) (last : Value) : D.Rel (steps step body last) (steps step' body last) :=
  A.rel_steps_of_mem (fun st _ => h st) last

theorem rel_runLoop {body : Sequence} (hrun : D.Rel (run body) (run' body)) (fuel : Nat)
    (var : Option String) (kind : LoopKind) :
    D.Rel (runLoop fuel run var kind body) (runLoop fuel run' var kind body) := by
  have L := A.lawful
  refine Rel.attempt_bind L (A.rel_runKind (A.rel_iterate hrun var) fuel kind) fun r hr => ?_
  exact (A.safe_takeFlow .leave).bind L fun _ => L.safe_lift hr

theorem rel_runAttempt {body : Sequence} {rescue : Option Sequence}
    (hrun : D.Rel (run body) (run' body))
    (hrescue : ∀ body ∈ rescue, D.Rel (run body) (run' body)) :
    D.Rel (runAttempt run body rescue) (runAttempt run' body rescue) := by
  have L := A.lawful
  refine (A.safe_recordValue .nil).bind L fun _ => ?_
  refine Rel.attempt_bind L (Rel.withTry L (Rel.withFrame L "try" none hrun)) fun r hr => ?_
  cases r with
  | ok v => exact L.safe_pure v
  | error e =>
    have hcaught : D.Safe (modifyScope fun s => { s with currentError := some e }) := fun s hs =>
      At.ok rfl (A.caught s e hs)
    refine hcaught.bind L fun _ => ?_
    cases rescue with
    | none => exact L.safe_scope.bind L fun s => L.safe_pure s.lastValue
    | some rescue =>
      refine Rel.withFrame L "catch" none ((L.safe_declare _ _).bind L fun _ => ?_)
      exact hrescue rescue rfl

/-- One layer of statements, given that the moves and calls of this one keep the discipline. -/
theorem at_statementWith_of_bodies {handlers : Handlers} (fuel : Nat) {st : Statement}
    (hrun : ∀ body ∈ st.bodies, D.Rel (run body) (run' body))
    (hcall : ∀ c, st = .call c → D.Rel (runCall handlers run c) (runCall handlers run' c))
    {s : State} (hs : D.admits s)
    (hmoves : ∀ plan, st.plan? = some plan → ∀ r t, plan s = .ok r t →
      D.At (moveAll r.destination r.candidates) (moveAll r.destination r.candidates)
        (t.holding r.holdings)) :
    D.At (statementWith handlers fuel run st) (statementWith handlers fuel run' st) s := by
  have L := A.lawful
  cases st with
  | declare name value =>
    refine Rel.bind L (L.safe_evalOrNil value) (fun v => ?_) s hs
    exact (L.safe_declare name v).bind L fun _ => L.safe_pure v
  | assign target name value =>
    refine Rel.bind L (L.safe_eval value) (fun v => ?_) s hs
    cases target with
    | none => exact (A.safe_assignName name v).bind L fun _ => L.safe_pure v
    | some e =>
      refine (L.safe_eval e).bind L fun t => ?_
      exact (A.safe_assignTo t name v).bind L fun _ => L.safe_pure v
  | branch condition yes no =>
    refine Rel.bind L (L.safe_eval condition) (fun v => ?_) s hs
    dsimp only
    split
    · rename_i body hbody
      refine Rel.withFrame L "if" none (hrun body ?_)
      rw [Statement.bodies, List.mem_cons, Option.mem_toList]
      split at hbody
      · exact .inl (Option.some.inj hbody).symm
      · exact .inr hbody
    · exact L.safe_pure _
  | block body => exact Rel.withFrame L "block" none (hrun body List.mem_cons_self) s hs
  | loop var kind body => exact A.rel_runLoop (hrun body List.mem_cons_self) fuel var kind s hs
  | ask target parallel body =>
    exact A.rel_runAsk (hrun body List.mem_cons_self) target parallel s hs
  | create f body => exact A.rel_runCreate (hrun body List.mem_cons_self) f s hs
  | capture target species returns body =>
    exact A.at_relocation (hrun body List.mem_cons_self) (L.safe_planCapture target species) hs
      (hmoves _ rfl) returns
  | release target species host returns body =>
    exact A.at_relocation (hrun body List.mem_cons_self) (L.safe_planRelease target species host)
      hs (hmoves _ rfl) returns
  | migrate source target returns body =>
    exact A.at_relocation (hrun body List.mem_cons_self) (L.safe_planMigrate source target) hs
      (hmoves _ rfl) returns
  | call c => exact hcall c rfl s hs
  | edit kind f warnings => exact L.safe_runEdit kind f s hs
  | attempt body rescue =>
    refine A.rel_runAttempt (hrun body List.mem_cons_self) (fun b hb => hrun b ?_) s hs
    exact List.mem_cons_of_mem _ (Option.mem_toList.mpr hb)
  | leave => exact Rel.bind L (A.safe_setFlow .leave) (fun _ => L.safe_pure _) s hs
  | skip => exact Rel.bind L (A.safe_setFlow .skip) (fun _ => L.safe_pure _) s hs
  | yield value =>
    refine Rel.bind L (L.safe_evalOrNil value) (fun v => ?_) s hs
    exact (A.safe_setFlow .yield).bind L fun _ => L.safe_pure v
  | die =>
    refine Rel.bind L (L.safe_currentAgent "die") (fun a => ?_) s hs
    exact (A.safe_kill a).bind L fun _ => (A.safe_setFlow .die).bind L fun _ => L.safe_pure _
  | write message =>
    refine Rel.bind L (L.safe_eval message) (fun v => (L.safe_text v).bind L fun t => ?_) s hs
    refine L.safe_scope.bind L fun s => Rel.bind L ?_ fun _ => L.safe_pure v
    exact L.safe_modifyMachine fun _ => rfl
  | warn message =>
    refine Rel.bind L (L.safe_eval message) (fun v => (L.safe_text v).bind L fun t => ?_) s hs
    exact (L.safe_warn t).bind L fun _ => L.safe_pure v
  | raise message =>
    refine Rel.bind L (L.safe_eval message) (fun v => (L.safe_text v).bind L fun t => ?_) s hs
    exact L.safe_fail fun _ => nofun

/-- One layer of statements, whatever runs inside. -/
theorem at_statementWith (hrun : ∀ body, D.Rel (run body) (run' body)) {handlers : Handlers}
    (hh : ∀ native args, D.Safe (asForeign (handlers native args))) (fuel : Nat)
    (st : Statement) {s : State} (hs : D.admits s)
    (hmoves : ∀ plan, st.plan? = some plan → ∀ r t, plan s = .ok r t →
      D.At (moveAll r.destination r.candidates) (moveAll r.destination r.candidates)
        (t.holding r.holdings)) :
    D.At (statementWith handlers fuel run st) (statementWith handlers fuel run' st) s :=
  A.at_statementWith_of_bodies fuel (fun body _ => hrun body)
    (fun c _ => A.rel_runCall hrun hh c) hs hmoves

/-! ## Runs in which everybody may move -/

section
variable (O : Mobile D) {handlers : Handlers}
  (hh : ∀ native args, D.Safe (asForeign (handlers native args)))
include O hh

/-- One layer of statements, moves and all. -/
theorem rel_statementWith (hrun : ∀ body, D.Rel (run body) (run' body)) (fuel : Nat)
    (st : Statement) :
    D.Rel (statementWith handlers fuel run st) (statementWith handlers fuel run' st) := fun _ hs =>
  A.at_statementWith hrun hh fuel st hs fun _ hplan _ _ hr => O.at_moves hplan hs hr

/-- Sequences of any depth. -/
theorem safe_sequenceWith (n : Nat) (body : Sequence) : D.Safe (sequenceWith handlers n body) := by
  induction n generalizing body with
  | zero => exact A.lawful.safe_throw_outOfFuel
  | succ n ih => exact A.rel_steps (A.rel_statementWith O hh ih n) body .nil

end
end Active

namespace Sound

variable (S : Sound D)

include S

theorem lawful : Lawful D := S.toOpen.toLawful

/-- One layer of statements, given how the sequences inside run and what calls do. -/
theorem rel_statementWith_of_bodies {handlers : Handlers} (fuel : Nat) {st : Statement}
    (hrun : ∀ body ∈ st.bodies, D.Rel (run body) (run' body))
    (hcall : ∀ c, st = .call c → D.Rel (runCall handlers run c) (runCall handlers run' c)) :
    D.Rel (statementWith handlers fuel run st) (statementWith handlers fuel run' st) :=
  fun _ hs => S.active.at_statementWith_of_bodies fuel hrun hcall hs
    fun _ hplan _ _ hr => S.toOpen.mobile.at_moves hplan hs hr

/-- One layer of statements. -/
theorem rel_statementWith (hrun : ∀ body, D.Rel (run body) (run' body)) {handlers : Handlers}
    (hh : ∀ native args, D.Safe (asForeign (handlers native args))) (fuel : Nat)
    (st : Statement) :
    D.Rel (statementWith handlers fuel run st) (statementWith handlers fuel run' st) :=
  S.active.rel_statementWith S.toOpen.mobile hh hrun fuel st

/-! ## Runs -/

section
variable {handlers : Handlers} (hh : ∀ native args, D.Safe (asForeign (handlers native args)))
include hh

/-- Sequences of any depth. -/
theorem safe_sequenceWith (n : Nat) (body : Sequence) : D.Safe (sequenceWith handlers n body) :=
  S.active.safe_sequenceWith S.toOpen.mobile hh n body

/-- Statements of any depth. -/
theorem safe_statementWith (n : Nat) (st : Statement) :
    D.Safe (statementWith handlers n (sequenceWith handlers n) st) :=
  S.rel_statementWith (S.safe_sequenceWith hh n) hh n st

end
end Sound
end Discipline
end Habitat
