import Habitat.Proofs.Run.Signal
import Habitat.Proofs.Run.Vigil

/-!
# The dead do nothing

The death of an agent is a signal that ends where the agent was made the executing one. An agent
may be made the executing one again while it waits: it asks another one, and is asked back. Its
death then ends at the inner place, and at the outer one it goes on. Without such a death, and
without copies of the scope, every statement starts for a live agent.

* `Statement.strays`: the statements with which that can go wrong.
* `vigil_runAsk`, `vigil_runCall`, `vigil_runLoop` and their neighbours: one lemma for each
  construct.
* `dead_do_nothing`: what holds for every run.
-/
namespace Habitat

open Exec Discipline

/-! ## Statements to look out for -/

/-- Whether the executing agent is one of those that wait. -/
def Scope.awaitsItself (s : Scope) : Bool :=
  match s.agents with
  | a :: rest => rest.any fun b => b.id == a.id
  | [] => false

/-- Whom a body may run for in parallel, and the hint whether it does. -/
def Statement.parallel? : Statement → Option (Exec (List AgentRef × Value))
  | .ask target parallel _ => some do
    let v ← eval target
    let targets := (← get).asked v
    let hint ← evalOrNil parallel
    return (targets, hint)
  | .create f _ => some do
    let (host, as) ← createAgents f
    let hint ← withHeld ((host.map Value.agent).toList) (evalOrNil f.parallel)
    return (as, hint)
  | _ => none

/-- Whether the body of a statement would run in copies of the scope. -/
def Statement.forks (st : Statement) (s : State) : Bool :=
  match st.parallel? with
  | none => false
  | some find =>
    match find s with
    | .ok (targets, hint) t =>
      runsInParallel (parallelThreshold hint t.machine.config) targets.length
    | .error _ _ => false

/-- Whether a statement would run its body in copies of the scope, or kill an agent that waits. -/
def Statement.strays (st : Statement) (s : State) : Bool :=
  match st with
  | .die => s.scope.awaitsItself
  | st => st.forks s

/-- Whether the executing agent is dead. -/
def State.deadActs (s : State) : Bool := s.scope.agent.any s.machine.world.isDead

namespace Exec

/-- Does `alarm` in place of a statement that `bad` holds of. -/
def heeding (bad : Statement → State → Bool) (alarm : Exec Value) (st : Statement)
    (x : Exec Value) : Exec Value := fun s => if bad st s then alarm s else x s

/-- Runs a sequence that does `alarm` in place of every statement that `bad` holds of when it is
about to start, in the sequence itself and inside its statements. -/
def heedSequence (bad : Statement → State → Bool) (alarm : Exec Value) : Nat → Sequence → Exec Value
  | 0, _ => throw .outOfFuel
  | n + 1, body =>
    steps (fun st => heeding bad alarm st (statement n (heedSequence bad alarm n) st)) body .nil

/-- Stops, and leaves a mark. -/
def halt (b : Bool) : Exec Value := do
  modifyMachine fun m => { m with cancelled := b }
  throw .outOfFuel

end Exec

/-! ## Dispatch -/

variable {b : Bool}

/-- Gathering the results leaves alive who lives. -/
theorem vigil_gather (as : List AgentRef) (returns : Option String) {s : State} (hs : s.Alert) :
    Vigil b
      (do
        let result ← agentList as
        store returns result
        return result)
      (do
        let result ← agentList as
        store returns result
        return result) s fun _ _ => True := by
  let t := after (agentList as) s
  have halike : State.Alike s t := ⟨rfl, rfl, rfl, rfl⟩
  refine Vigil.bind_ok (x := agentList as) (t := t) rfl halike.agents ?_
  exact (Vigil.store (halike.alert hs) returns _).bind fun _ u _ hu _ => .pure hu trivial

/-- How sequences run inside a construct: from every state where all live. -/
def Vigilant (b : Bool) (run run' : Sequence → Exec Value) : Prop :=
  ∀ body s, s.Lively → Vigil b (run body) (run' body) s fun _ _ => True

section
variable {run run' : Sequence → Exec Value} (V : Vigilant b run run')
include V

theorem vigil_runRemote (owner : String) (body : Sequence) (a : AgentRef) {s : State}
    (hs : s.Lively) :
    Vigil b (runRemote run owner body a) (runRemote run' owner body a) s fun _ _ => True := by
  have L := peaceful_lawful
  refine Vigil.bind_ok (t := s) rfl rfl (Vigil.bind_ok (t := s) rfl rfl ?_)
  refine Vigil.ite (fun _ => .pure hs.alert trivial) fun hlive => ?_
  have ha : s.machine.world.isDead a = false := by
    rw [Bool.or_eq_true, not_or] at hlive
    simpa using hlive.2
  refine Vigil.bind_ok (t := s) rfl rfl (Vigil.withAgent (Q := fun _ _ => True) hs ha ?_)
  intro u hu
  have hbody := V body _ ((u.alike_pushFrame owner s.scope.agent).lively hu)
  refine Vigil.attempt_bind (Vigil.withFrame hbody) (fun v t ht _ => .pure ht trivial) ?_
  intro e t ht
  have hreport : Vigil b (do report .error e.message; return RemoteResult.failed)
      (do report .error e.message; return RemoteResult.failed) t fun _ _ => True :=
    Vigil.peaceful_bind (L.safe_report _ _ t ht.flow) ht fun _ u _ hu _ => .pure hu.alert trivial
  refine Vigil.bind_ok (t := t) rfl rfl (Vigil.ite (fun _ => ?_) fun _ => hreport)
  exact (Vigil.fail (Q := fun _ _ => False) ht).bind fun _ _ _ _ hf => hf.elim

theorem vigil_runEach (owner : String) (body : Sequence) (stop : Bool) (targets : List AgentRef)
    {s : State} (hs : s.Alert) :
    Vigil b (runEach (runRemote run owner body) stop targets)
      (runEach (runRemote run' owner body) stop targets) s fun _ _ => True := by
  induction targets generalizing s with
  | nil => exact .pure hs trivial
  | cons a rest ih =>
    refine Vigil.bind_ok (t := s) rfl rfl (Vigil.ite (fun _ => .pure hs trivial) fun hint => ?_)
    have hnormal : s.scope.flow = .normal :=
      Flow.normal_of_not_interrupting fun hf => hint (by simp [hf])
    refine (vigil_runRemote V owner body a (hs.lively hnormal)).bind fun r t _ ht _ => ?_
    refine Vigil.bind_ok (x := takeFlow .leave) rfl rfl ?_
    have hcleared := ht.clear (show Flow.leave ≠ .die from nofun)
    refine Vigil.ite (fun _ => .pure hcleared trivial) fun _ => ?_
    refine (Vigil.withHeld (ih ?_)).bind fun rs u _ hu _ => .pure hu trivial
    exact (State.alike_holding _ _).alert hcleared

/-- One after another, a body runs only for live agents. -/
theorem vigil_fanOut (owner : String) (body : Sequence) (targets : List AgentRef) (hint : Value)
    (stop : Bool) {s : State} (hs : s.Lively)
    (hseq : runsInParallel (parallelThreshold hint s.machine.config) targets.length = false) :
    Vigil b (fanOut run owner body targets hint stop) (fanOut run' owner body targets hint stop) s
      fun _ _ => True := by
  refine Vigil.ite (fun _ => .pure hs.alert trivial) fun _ => Vigil.withHeld ?_
  refine Vigil.bind_ok (x := machine) rfl rfl (Vigil.ite (fun hpar => ?_) fun _ => ?_)
  · exact absurd (hseq.symm.trans hpar) nofun
  · exact vigil_runEach V owner body stop targets ((s.alike_holding _).alert hs.alert)

theorem vigil_askAll (v : Value) (parallel : Option Expr) (body : Sequence)
    (targets : List AgentRef) {s : State} (hs : s.Lively)
    (hseq : ∀ hint t, evalOrNil parallel s = .ok hint t →
      runsInParallel (parallelThreshold hint t.machine.config) targets.length = false) :
    Vigil b
      (do
        let hint ← evalOrNil parallel
        let _ ← withHeld [v] (fanOut run "ask" body targets hint false)
        return Value.nil)
      (do
        let hint ← evalOrNil parallel
        let _ ← withHeld [v] (fanOut run' "ask" body targets hint false)
        return Value.nil) s fun _ _ => True := by
  refine Vigil.peaceful_bind (peaceful_lawful.safe_evalOrNil parallel s hs.flow) hs ?_
  intro hint t hhint ht _
  have hall := vigil_fanOut V "ask" body targets hint false ((t.alike_holding [v]).lively ht)
    (hseq hint t hhint)
  exact (Vigil.withHeld hall).bind fun _ u _ hu _ => .pure hu trivial

theorem vigil_runAsk (target : Expr) (parallel : Option Expr) (body : Sequence) {s : State}
    (hs : s.Lively) (hseq : (Statement.ask target parallel body).forks s = false) :
    Vigil b (runAsk run target parallel body) (runAsk run' target parallel body) s
      fun _ _ => True := by
  have L := peaceful_lawful
  refine Vigil.peaceful_bind (L.safe_eval target s hs.flow) hs fun v t hv ht _ => ?_
  refine Vigil.bind_ok (t := t) rfl rfl ?_
  have hasked : ∀ hint u, evalOrNil parallel t = .ok hint u →
      runsInParallel (parallelThreshold hint u.machine.config) (t.asked v).length = false := by
    intro hint u hu
    rw [Statement.forks, Statement.parallel?] at hseq
    dsimp only at hseq
    rwa [bind_ok hv, get_bind_apply, bind_ok hu] at hseq
  dsimp only
  split
  case h_1 a =>
    exact (vigil_runRemote V "ask" body a ht).bind fun r u _ hu _ => .pure hu trivial
  case h_2 name => exact vigil_askAll V _ parallel body _ ht hasked
  case h_3 => exact .fail ht
  case h_4 hagent hspecies _ =>
    refine Vigil.ite (fun _ => vigil_askAll V _ parallel body _ ht ?_) fun _ => ?_
    · intro hint u hu
      have h := hasked hint u hu
      unfold State.asked at h
      split at h
      case h_1 => exact absurd rfl (hagent _)
      case h_2 => exact absurd rfl (hspecies _)
      case h_3 => exact h
    · exact Vigil.peaceful_bind (L.safe_text _ t ht.flow) ht fun x u _ hu _ => .fail hu

theorem vigil_runCreate (f : CreateFacets) (body : Sequence) {s : State} (hs : s.Lively)
    (hseq : (Statement.create f body).forks s = false) :
    Vigil b (runCreate run f body) (runCreate run' f body) s fun _ _ => True := by
  have L := peaceful_lawful
  refine Vigil.peaceful_bind (peaceful_mobile.safe_createAgents f s hs.flow) hs ?_
  intro r t hr ht _
  refine Vigil.ite (fun _ => ?_) fun _ => vigil_gather r.2 f.returns ht.alert
  refine Vigil.bind (Q := fun _ _ => True) (Vigil.withHeld ?_) fun _ u _ hu _ =>
    vigil_gather r.2 f.returns hu
  have hheld := (t.alike_holding ((r.1.map Value.agent).toList)).lively ht
  refine Vigil.peaceful_bind (L.safe_evalOrNil f.parallel _ hheld.flow) hheld ?_
  intro hint u hhint hu _
  refine (vigil_fanOut V "create" body r.2 hint false hu ?_).bind fun _ w _ hw _ => .pure hw trivial
  rw [Statement.forks, Statement.parallel?] at hseq
  dsimp only at hseq
  have hfound : withHeld ((r.1.map Value.agent).toList) (evalOrNil f.parallel) t = .ok hint _ :=
    bracket_ok hhint
  rwa [bind_ok hr, bind_ok hfound] at hseq

theorem vigil_relocation {st : Statement} {plan : Exec Relocation} (hst : st.plan? = some plan)
    (returns : Option String) (body : Sequence) {s : State} (hs : s.Lively) :
    Vigil b (plan >>= fun r => relocate run r returns body)
      (plan >>= fun r => relocate run' r returns body) s fun _ _ => True := by
  have L := peaceful_lawful
  refine Vigil.peaceful_bind (L.safe_plan hst s hs.flow) hs fun r t hr ht _ => Vigil.withHeld ?_
  have hheld := (t.alike_holding r.holdings).lively ht
  refine Vigil.peaceful_bind (peaceful_mobile.at_moves hst hs.flow hr) hheld ?_
  intro m u _ hu _
  refine Vigil.peaceful_bind (L.safe_reportRejected r.verb m.2 r.reason u hu.flow) hu ?_
  intro _ w _ hw _
  refine (vigil_fanOut V r.verb body m.1 .nil true hw rfl).bind fun _ v _ hv _ => ?_
  exact vigil_gather m.1 returns hv

/-! ## Actions -/

omit V in
/-- What the program around a model does kills nobody. -/
theorem vigil_native (native : Native) (args : BoundArguments) {s : State} (hs : s.Lively) :
    Vigil b (asForeign (runNative native args)) (asForeign (runNative native args)) s
      fun _ _ => True := by
  have hsignal : ∀ f, f ≠ .die → State.Alert { s with scope := { s.scope with flow := f } } :=
    fun f _ => ⟨hs.alert.waiting, fun _ => hs.alert.acting (by simp [hs.flow])⟩
  have hmachine : ∀ m : Machine, m.world = s.machine.world → State.Alert ⟨s.scope, m⟩ := by
    intro m hm
    refine ⟨?_, ?_⟩
    · rw [hm]
      exact hs.alert.waiting
    · rw [hm]
      exact hs.alert.acting
  cases native with
  | echo => exact .of_ok rfl (hmachine _ rfl) rfl trivial
  | whoami => exact .of_ok rfl hs.alert rfl trivial
  | finish => exact .of_ok rfl (hsignal .yield nofun) rfl trivial
  | dispose => exact .of_ok rfl (hsignal .dispose nofun) rfl trivial
  | cancel => exact .of_ok rfl (hmachine _ rfl) rfl trivial
  | fail message => exact .of_error rfl hs rfl
  | refuse => exact .of_error rfl hs rfl

theorem vigil_invoke (action : Action) (args : BoundArguments) (caller : Option AgentRef)
    {s : State} (hs : s.Lively) :
    Vigil b (invokeWith runNative run action args caller)
      (invokeWith runNative run' action args caller) s fun _ _ => True := by
  have L := peaceful_lawful
  refine Vigil.withHeld (Vigil.withFrame ?_)
  have hframe := (State.alike_pushFrame ("action " ++ action.name) caller _).lively
    ((s.alike_holding (args.map (·.2))).lively hs)
  refine Vigil.peaceful_bind (L.safe_declareAll args _ hframe.flow) hframe fun _ t _ ht _ => ?_
  refine Vigil.owned (Q := fun _ _ => True) ?_ nofun
  cases action.body with
  | statements body => exact V body t ht
  | native handler => exact vigil_native handler args ht

theorem vigil_runCall (c : ActionCall) {s : State} (hs : s.Lively) :
    Vigil b (runCall runNative run c) (runCall runNative run' c) s fun _ _ => True := by
  have L := peaceful_lawful
  refine Vigil.peaceful_bind (L.safe_callee c.target s hs.flow) hs fun r t _ ht _ => ?_
  refine Vigil.bind_ok (x := machine) (t := t) rfl rfl ?_
  refine Vigil.ite (fun _ => .pure ht.alert trivial) fun hlive => ?_
  dsimp only
  split
  · exact .fail ht
  · refine Vigil.peaceful_bind (L.safe_bind c.args _ t ht.flow) ht fun args u _ hu hkept => ?_
    have halive := hkept.2 r.1 (by simpa using hlive)
    refine (Vigil.withAgent hu halive fun w hw => vigil_invoke V _ args r.2 hw).bind ?_
    intro v w _ hw _
    exact (Vigil.store hw c.returns v).bind fun _ y _ hy _ => .pure hy trivial

/-! ## Loops -/

/-- Iterations start while all live, and go on only where no signal is pending. -/
def VigilantSteps {α : Type} (b : Bool) (visit visit' : α → Exec (Value × Bool)) : Prop :=
  ∀ x s, s.Lively → Vigil b (visit x) (visit' x) s fun r f => r.2 = true → f = .normal

theorem vigil_iterate (var : Option String) (body : Sequence) :
    VigilantSteps b (iterate run var body) (iterate run' var body) := by
  intro v s hs
  have hframe := (s.alike_pushFrame "loop" none).lively hs
  refine Vigil.withFrame ((Vigil.store hframe.alert var v).bind fun _ t _ ht hflow => ?_)
  refine (V body t (ht.lively (hflow.trans hframe.flow))).bind fun last u _ hu _ => ?_
  refine Vigil.bind_ok (x := takeFlow .skip) rfl rfl ?_
  refine Vigil.bind_ok (x := machine) rfl rfl (.pure (hu.clear nofun) ?_)
  change (!u.scope.flow.terminatesLoop && !u.machine.cancelled) = true →
    u.scope.flow.clear .skip = .normal
  cases u.scope.flow <;> simp [Flow.terminatesLoop, Flow.clear]

end

section
variable {α : Type} {visit visit' : α → Exec (Value × Bool)} (hvisit : VigilantSteps b visit visit')
include hvisit

/-- One iteration while values are held, and then the rest if the loop goes on. -/
theorem vigil_visit (vs : List Value) (x : α) {s : State} (hs : s.Lively)
    {rest rest' : Value → Exec Value}
    (hrest : ∀ v t, t.Lively → Vigil b (rest v) (rest' v) t fun _ _ => True) :
    Vigil b (do let r ← withHeld vs (visit x); if r.2 then rest r.1 else return r.1)
      (do let r ← withHeld vs (visit' x); if r.2 then rest' r.1 else return r.1) s
      fun _ _ => True := by
  refine (Vigil.withHeld (hvisit x _ ((s.alike_holding vs).lively hs))).bind
    fun r t _ ht hmore => ?_
  exact Vigil.ite (fun hr => hrest r.1 t (ht.lively (hmore hr))) fun _ => .pure ht trivial

theorem vigil_repeatTimes (x : α) (n : Nat) (last : Value) {s : State} (hs : s.Lively) :
    Vigil b (repeatTimes (visit x) n last) (repeatTimes (visit' x) n last) s fun _ _ => True := by
  induction n generalizing s last with
  | zero => exact .pure hs.alert trivial
  | succ n ih => exact vigil_visit hvisit [last] x hs fun v _ ht => ih v ht

theorem vigil_repeatWhile {condition : Exec Bool} (hc : peaceful.Safe condition) (x : α) (n : Nat)
    (last : Value) {s : State} (hs : s.Lively) :
    Vigil b (repeatWhile condition (visit x) n last) (repeatWhile condition (visit' x) n last) s
      fun _ _ => True := by
  induction n generalizing s last with
  | zero => exact .throw_outOfFuel
  | succ n ih =>
    refine Vigil.peaceful_bind (hc s hs.flow) hs fun c t _ ht _ => ?_
    refine Vigil.ite (fun _ => ?_) fun _ => .pure ht.alert trivial
    exact vigil_visit hvisit [last] x ht fun v _ hu => ih v hu

theorem vigil_repeatFrom (inRange : α → Bool) (next : α → Option α) (n : Nat) (x : α)
    (last : Value) {s : State} (hs : s.Lively) :
    Vigil b (repeatFrom inRange next visit n x last) (repeatFrom inRange next visit' n x last) s
      fun _ _ => True := by
  induction n generalizing s x last with
  | zero => exact .throw_outOfFuel
  | succ n ih =>
    refine Vigil.ite (fun _ => ?_) fun _ => .pure hs.alert trivial
    cases next x with
    | some y => exact vigil_visit hvisit [last] x hs fun v _ ht => ih y v ht
    | none => exact vigil_visit hvisit [last] x hs fun v _ ht => .pure ht.alert trivial

end

section
variable {visit visit' : Value → Exec (Value × Bool)} (hvisit : VigilantSteps b visit visit')
include hvisit

theorem vigil_repeatOver (vs : List Value) (last : Value) {s : State} (hs : s.Lively) :
    Vigil b (repeatOver visit vs last) (repeatOver visit' vs last) s fun _ _ => True := by
  induction vs generalizing s last with
  | nil => exact .pure hs.alert trivial
  | cons v rest ih => exact vigil_visit hvisit (last :: rest) v hs fun w _ ht => ih w ht

theorem vigil_visitOnce (v : Value) {s : State} (hs : s.Lively) :
    Vigil b (do return (← visit v).1) (do return (← visit' v).1) s fun _ _ => True :=
  (hvisit v s hs).bind fun _ _ _ ht _ => .pure ht trivial

theorem vigil_countInts (r : Range Int64) {s : State} (hs : s.Lively) :
    Vigil b (countInts visit r) (countInts visit' r) s fun _ _ => True := by
  refine Vigil.ite (fun _ => .fail hs) fun _ => ?_
  refine Vigil.ite (fun _ => vigil_visitOnce hvisit _ hs) fun _ => ?_
  refine Vigil.ite (fun _ => .pure hs.alert trivial) fun _ => ?_
  exact vigil_repeatFrom (fun x => hvisit (.int x)) _ _ _ r.start .nil hs

theorem vigil_countFloats (fuel : Nat) (r : Range Float) {s : State} (hs : s.Lively) :
    Vigil b (countFloats fuel visit r) (countFloats fuel visit' r) s fun _ _ => True := by
  refine Vigil.ite (fun _ => .fail hs) fun _ => ?_
  refine Vigil.ite (fun _ => vigil_visitOnce hvisit _ hs) fun _ => ?_
  refine Vigil.ite (fun _ => .pure hs.alert trivial) fun _ => ?_
  exact vigil_repeatFrom (fun x => hvisit (.float x)) _ _ fuel r.start .nil hs

theorem vigil_countAny (fuel : Nat) (r : Range Value) {s : State} (hs : s.Lively) :
    Vigil b (countAny fuel visit r) (countAny fuel visit' r) s fun _ _ => True := by
  have L := peaceful_lawful
  unfold countAny
  cases intRange? r with
  | some r => exact vigil_countInts hvisit r hs
  | none =>
    have hrest : ∀ (step : Option Float) (t : State), t.Lively → Vigil b
        (do
          let start ← number r.start
          let stop ← number r.stop
          countFloats fuel visit ⟨start, stop, step⟩)
        (do
          let start ← number r.start
          let stop ← number r.stop
          countFloats fuel visit' ⟨start, stop, step⟩) t fun _ _ => True := by
      intro step t ht
      refine Vigil.peaceful_bind (L.safe_number r.start t ht.flow) ht fun start u _ hu _ => ?_
      refine Vigil.peaceful_bind (L.safe_number r.stop u hu.flow) hu fun stop w _ hw _ => ?_
      exact vigil_countFloats hvisit fuel ⟨start, stop, step⟩ hw
    dsimp only
    cases r.step with
    | none => exact Vigil.bind_ok (t := s) rfl rfl (hrest none s hs)
    | some v =>
      refine Vigil.peaceful_bind (L.safe_number v s hs.flow) hs fun x t _ ht _ => ?_
      exact Vigil.bind_ok (t := t) rfl rfl (hrest (some x) t ht)

theorem vigil_runKind (fuel : Nat) (kind : LoopKind) {s : State} (hs : s.Lively) :
    Vigil b (runKind fuel visit kind) (runKind fuel visit' kind) s fun _ _ => True := by
  have L := peaceful_lawful
  cases kind with
  | times count =>
    refine Vigil.peaceful_bind (L.safe_resolve intBound? count s hs.flow) hs fun n t _ ht _ => ?_
    exact vigil_repeatTimes hvisit .nil _ .nil ht
  | loopWhile condition =>
    have hc : peaceful.Safe (do return (← eval condition).truthy) :=
      (L.safe_eval condition).bind L fun v => L.safe_pure v.truthy
    exact vigil_repeatWhile hvisit hc .nil fuel .nil hs
  | each source =>
    refine Vigil.peaceful_bind (L.safe_eval source s hs.flow) hs fun v t _ ht _ => ?_
    refine Vigil.bind_ok (x := machine) (t := t) rfl rfl (Vigil.withHeld ?_)
    exact vigil_repeatOver hvisit _ .nil ((t.alike_holding [v]).lively ht)
  | intRange r =>
    refine Vigil.peaceful_bind (L.safe_resolveRange intBound? r s hs.flow) hs fun r t _ ht _ => ?_
    exact vigil_countInts hvisit r ht
  | floatRange r =>
    refine Vigil.peaceful_bind (L.safe_resolveRange Value.asFloat r s hs.flow) hs ?_
    exact fun r t _ ht _ => vigil_countFloats hvisit fuel r ht
  | anyRange r =>
    refine Vigil.peaceful_bind (L.safe_eval r.start s hs.flow) hs fun start t _ ht _ => ?_
    refine Vigil.peaceful_bind (L.safe_eval r.stop t ht.flow) ht fun stop u _ hu _ => ?_
    refine Vigil.peaceful_bind (L.safe_evalOption r.step u hu.flow) hu fun step w _ hw _ => ?_
    exact vigil_countAny hvisit fuel ⟨start, stop, step⟩ hw

end

/-! ## Statements -/

section
variable {run run' : Sequence → Exec Value} (V : Vigilant b run run')
include V

theorem vigil_runLoop (fuel : Nat) (var : Option String) (kind : LoopKind) (body : Sequence)
    {s : State} (hs : s.Lively) :
    Vigil b (runLoop fuel run var kind body) (runLoop fuel run' var kind body) s fun _ _ => True :=
  (vigil_runKind (vigil_iterate V var body) fuel kind hs).owned nofun

theorem vigil_runAttempt (body : Sequence) (rescue : Option Sequence) {s : State}
    (hs : s.Lively) :
    Vigil b (runAttempt run body rescue) (runAttempt run' body rescue) s fun _ _ => True := by
  have L := peaceful_lawful
  refine Vigil.bind_ok (x := recordValue .nil) rfl rfl ?_
  have hinner : State.Alike s
      { s with scope := { s.scope with lastValue := .nil, tryDepth := s.scope.tryDepth + 1 } } :=
    ⟨rfl, rfl, rfl, rfl⟩
  have hbody := V body _ ((State.alike_pushFrame "try" none _).lively (hinner.lively hs))
  refine Vigil.attempt_bind (Vigil.withTry (Vigil.withFrame hbody))
    (fun v u hu _ => .pure hu trivial) ?_
  intro e u hu
  have hcaught : State.Alike u { u with scope := { u.scope with currentError := some e } } :=
    ⟨rfl, rfl, rfl, rfl⟩
  refine Vigil.bind_ok (x := modifyScope _) rfl rfl ?_
  cases rescue with
  | none =>
    exact Vigil.bind_ok (x := scope) rfl rfl (.pure (hcaught.alert hu.alert) trivial)
  | some rescue =>
    have hframe := (State.alike_pushFrame "catch" none _).lively (hcaught.lively hu)
    refine Vigil.withFrame (Vigil.peaceful_bind (L.safe_declare _ _ _ hframe.flow) hframe ?_)
    exact fun _ w _ hw _ => V rescue w hw

omit V in
/-- What a death changes. -/
theorem statement_die (fuel : Nat) (s : State) :
    statement fuel run .die s =
      match s.scope.agent with
      | some a => .ok .nil
          ⟨{ s.scope with flow := .die }, { s.machine with world := s.machine.world.kill a }⟩
      | none => .error (.error (.noAgent "die")) s := by
  have hcurrent : currentAgent "die" s =
      match s.scope.agent with
      | some a => .ok a s
      | none => .error (.error (.noAgent "die")) s := by
    unfold currentAgent
    rw [scope_bind_apply]
    cases s.scope.agent <;> rfl
  cases hagent : s.scope.agent with
  | none =>
    rw [hagent] at hcurrent
    exact bind_error hcurrent
  | some a =>
    rw [hagent] at hcurrent
    exact bind_ok hcurrent

omit V in
/-- A death leaves all that wait alive exactly if the agent is not one of them. -/
theorem alert_die_iff {s : State} (hs : s.Lively) (fuel : Nat) :
    (after (statement fuel run .die) s).Alert ↔ s.scope.awaitsItself = false := by
  rw [after, statement_die, Scope.agent, Scope.awaitsItself]
  cases hagents : s.scope.agents with
  | nil => exact ⟨fun _ => rfl, fun _ => hs.alert⟩
  | cons a rest =>
    simp only [List.head?_cons]
    have hrest : State.Alert
        ⟨{ s.scope with flow := .die }, { s.machine with world := s.machine.world.kill a }⟩ ↔
        ∀ c ∈ rest, (s.machine.world.kill a).isDead c = false := by
      refine ⟨fun h c hc => h.waiting c ?_,
        fun h => ⟨fun c hc => h c ?_, fun hdie => absurd rfl hdie⟩⟩
      · simpa [hagents] using hc
      · simpa [hagents] using hc
    have halive : ∀ c ∈ rest, s.machine.world.isDead c = false := fun c hc =>
      hs.alive c (by rw [hagents]; exact List.mem_cons_of_mem a hc)
    rw [hrest, List.any_eq_false]
    refine forall₂_congr fun c hc => ?_
    rw [World.isDead_kill, and_iff_right (halive c hc)]
    simp

/-- One layer of statements: one that does not stray leaves all that wait alive. -/
theorem vigil_statement (fuel : Nat) (st : Statement) {s : State} (hs : s.Lively)
    (hst : st.strays s = false) :
    Vigil b (statement fuel run st) (statement fuel run' st) s fun _ _ => True := by
  have L := peaceful_lawful
  have P := peaceful_mobile.toPeopled
  have hsignal : ∀ (f : Flow) (t : State), t.Lively →
      State.Alert { t with scope := { t.scope with flow := f } } := fun f t ht =>
    ⟨ht.alert.waiting, fun _ => ht.alert.acting (by simp [ht.flow])⟩
  cases st with
  | declare name value =>
    refine Vigil.peaceful_bind (L.safe_evalOrNil value s hs.flow) hs fun v t _ ht _ => ?_
    refine Vigil.peaceful_bind (L.safe_declare name v t ht.flow) ht fun _ u _ hu _ => ?_
    exact .pure hu.alert trivial
  | assign target name value =>
    refine Vigil.peaceful_bind (L.safe_eval value s hs.flow) hs fun v t _ ht _ => ?_
    cases target with
    | none =>
      refine Vigil.peaceful_bind (P.safe_assignName name v t ht.flow) ht fun _ u _ hu _ => ?_
      exact .pure hu.alert trivial
    | some e =>
      refine Vigil.peaceful_bind (L.safe_eval e t ht.flow) ht fun w u _ hu _ => ?_
      refine Vigil.peaceful_bind (P.safe_assignTo w name v u hu.flow) hu fun _ y _ hy _ => ?_
      exact .pure hy.alert trivial
  | branch condition yes no =>
    refine Vigil.peaceful_bind (L.safe_eval condition s hs.flow) hs fun v t _ ht _ => ?_
    dsimp only
    split
    · exact Vigil.withFrame (V _ _ ((t.alike_pushFrame "if" none).lively ht))
    · exact .pure ht.alert trivial
  | block body => exact Vigil.withFrame (V body _ ((s.alike_pushFrame "block" none).lively hs))
  | loop var kind body => exact vigil_runLoop V fuel var kind body hs
  | ask target parallel body => exact vigil_runAsk V target parallel body hs hst
  | create f body => exact vigil_runCreate V f body hs hst
  | capture target species returns body =>
    have hplan : (Statement.capture target species returns body).plan? =
        some (planCapture target species) := rfl
    exact vigil_relocation V hplan returns body hs
  | release target species host returns body =>
    have hplan : (Statement.release target species host returns body).plan? =
        some (planRelease target species host) := rfl
    exact vigil_relocation V hplan returns body hs
  | migrate source target returns body =>
    have hplan : (Statement.migrate source target returns body).plan? =
        some (planMigrate source target) := rfl
    exact vigil_relocation V hplan returns body hs
  | call c => exact vigil_runCall V c hs
  | edit kind f warnings =>
    exact (Vigil.of_at (L.safe_runEdit kind f s hs.flow) hs).mono fun _ _ _ => trivial
  | attempt body rescue => exact vigil_runAttempt V body rescue hs
  | leave => exact .of_ok (a := .nil) rfl (hsignal .leave s hs) rfl trivial
  | skip => exact .of_ok (a := .nil) rfl (hsignal .skip s hs) rfl trivial
  | yield value =>
    refine Vigil.peaceful_bind (L.safe_evalOrNil value s hs.flow) hs fun v t _ ht _ => ?_
    exact .of_ok (a := v) rfl (hsignal .yield t ht) rfl trivial
  | die =>
    have halert : (after (statement fuel run .die) s).Alert := (alert_die_iff hs fuel).mpr hst
    have hend : statement fuel run .die s = _ := statement_die fuel s
    cases hagent : s.scope.agent with
    | none =>
      rw [hagent] at hend
      exact .of_eq (.of_error hend hs rfl) rfl rfl
    | some a =>
      rw [hagent] at hend
      rw [after_ok hend] at halert
      exact .of_eq (.of_ok hend halert rfl trivial) rfl rfl
  | write message =>
    refine Vigil.peaceful_bind (L.safe_eval message s hs.flow) hs fun v t _ ht _ => ?_
    refine Vigil.peaceful_bind (L.safe_text v t ht.flow) ht fun x u _ hu _ => ?_
    refine Vigil.bind_ok (x := scope) rfl rfl (Vigil.bind_ok (x := modifyMachine _) rfl rfl ?_)
    exact .pure ⟨hu.alert.waiting, hu.alert.acting⟩ trivial
  | warn message =>
    refine Vigil.peaceful_bind (L.safe_eval message s hs.flow) hs fun v t _ ht _ => ?_
    refine Vigil.peaceful_bind (L.safe_text v t ht.flow) ht fun x u _ hu _ => ?_
    refine Vigil.peaceful_bind (L.safe_warn x u hu.flow) hu fun _ w _ hw _ => ?_
    exact .pure hw.alert trivial
  | raise message =>
    refine Vigil.peaceful_bind (L.safe_eval message s hs.flow) hs fun v t _ ht _ => ?_
    exact Vigil.peaceful_bind (L.safe_text v t ht.flow) ht fun x u _ hu _ => .fail hu

end

/-! ## Runs -/

/-- A sequence starts its next statement only while all live. -/
theorem vigil_steps {step step' : Statement → Exec Value}
    (h : ∀ st s, s.Lively → Vigil b (step st) (step' st) s fun _ _ => True) (body : Sequence)
    (last : Value) {s : State} (hs : s.Alert) :
    Vigil b (steps step body last) (steps step' body last) s fun _ _ => True := by
  induction body generalizing s last with
  | nil => exact .pure hs trivial
  | cons st rest ih =>
    refine Vigil.bind_ok (t := s) rfl rfl (Vigil.ite (fun _ => .pure hs trivial) fun hint => ?_)
    have hlively := hs.lively (Flow.normal_of_not_interrupting fun hf => hint (by simp [hf]))
    refine Vigil.peaceful_bind (peaceful_lawful.safe_traceStatement st s hlively.flow) hlively ?_
    intro _ t _ ht _
    refine (Vigil.withHeld (h st _ ((t.alike_holding [last]).lively ht))).bind fun v u _ hu _ => ?_
    exact Vigil.bind_ok (x := recordValue v) rfl rfl (ih v ⟨hu.waiting, hu.acting⟩)

/-- A run that halts where a statement strays starts no statement for a dead agent before. -/
theorem vigilant_heedSequence (b : Bool) (watch : Exec Value) (n : Nat) :
    Vigilant b (heedSequence Statement.strays (halt b) n)
      (heedSequence (fun _ s => s.deadActs) watch n) := by
  induction n with
  | zero => exact fun _ _ _ => .throw_outOfFuel
  | succ n ih =>
    intro body s hs
    refine vigil_steps (fun st t ht => ?_) body .nil hs.alert
    by_cases hst : st.strays t = true
    · refine .inl ⟨{ t with machine := { t.machine with cancelled := b } }, ?_, rfl⟩
      simp only [heeding, hst, if_true]
      rfl
    · have hact : t.deadActs = false := by
        cases hagent : t.scope.agent with
        | none => rw [State.deadActs, hagent]; rfl
        | some a => rw [State.deadActs, hagent]; exact ht.alert.acting (by simp [ht.flow]) a hagent
      refine (vigil_statement ih n st ht (by simpa using hst)).of_eq ?_ ?_
      · simp only [heeding, hst, if_false, Bool.false_eq_true]
      · simp only [heeding, hact, if_false, Bool.false_eq_true]

/-- In a run for a live agent in which no statement runs its body in copies of the scope and
nobody dies while it waits, every statement starts for a live agent. A death leaves all that wait
alive exactly if the agent is not one of them. -/
theorem dead_do_nothing {m : Machine} {a : AgentRef} (ha : m.world.isDead a = false) (n : Nat)
    (body : Sequence) :
    let s : State := ⟨.start a a.name, m⟩
    ((∀ alarm, heedSequence Statement.strays alarm n body s = sequence n body s) →
      ∀ alarm, heedSequence (fun _ s => s.deadActs) alarm n body s = sequence n body s) ∧
    ∀ t : State, t.Lively → ((after (statement n (sequence n) .die) t).Alert ↔
      Statement.strays .die t = false) := by
  intro s
  refine ⟨fun hsame alarm => ?_, fun t ht => alert_die_iff ht n⟩
  have hs : s.Lively := ⟨rfl, by simpa [s, Scope.start] using ha⟩
  rcases vigilant_heedSequence true alarm n body s hs with ⟨t, ht, hmark⟩ | hw
  · rcases vigilant_heedSequence false alarm n body s hs with ⟨u, hu, hmark'⟩ | hw
    · -- the run cannot have halted with both marks
      rw [hsame] at ht hu
      rw [ht] at hu
      cases hu
      exact absurd (hmark.symm.trans hmark') nofun
    · rw [hw.same, hsame]
  · rw [hw.same, hsame]

/-- The root holds one sheep. -/
def sheepfold : Machine :=
  let sheep : Species := ⟨"sheep", none, [], false, [], []⟩
  let w := (World.start ⟨"world", none, ["sheep"], false, [], []⟩).register sheep
  .start .standard (w.populate .empty ⟨⟨0, "world"⟩, sheep⟩ [.empty]).2.1 .empty

/-- After its death the root writes nothing. But when it asks the sheep, which asks it back, and
dies then, it goes on to write. -/
theorem dead_do_nothing_sheepfold :
    let s : State := ⟨.start ⟨0, "world"⟩ "world", sheepfold⟩
    let dies : Sequence := [.block [.die], .write (.str "still here")]
    let diesWaiting : Sequence :=
      [.ask (.species "sheep") none [.ask .myself none [.die]], .write (.str "still here")]
    (∀ alarm, heedSequence (fun _ s => s.deadActs) alarm 3 dies s = sequence 3 dies s) ∧
      ∃ alarm, heedSequence (fun _ s => s.deadActs) alarm 3 diesWaiting s ≠
        sequence 3 diesWaiting s := by
  intro s dies diesWaiting
  have ha : sheepfold.world.isDead ⟨0, "world"⟩ = false := by decide +kernel
  refine ⟨(dead_do_nothing ha 3 dies).1 fun alarm => ?_, fail .zeroStep, fun h => ?_⟩
  · have hany : ∀ w, heedSequence Statement.strays alarm 3 dies
          ⟨.start ⟨0, "world"⟩ "world", .start .standard w .empty⟩ =
        sequence 3 dies ⟨.start ⟨0, "world"⟩ "world", .start .standard w .empty⟩ := fun _ => rfl
    exact hany sheepfold.world
  · have hfails : fails (heedSequence (fun _ s => s.deadActs) (fail .zeroStep) 3 diesWaiting s) =
        true := by decide +kernel
    have hgoes : fails (sequence 3 diesWaiting s) = false := by decide +kernel
    rw [h, hgoes] at hfails
    cases hfails

end Habitat
