import Habitat.Proofs.Run.Settling

/-!
# Signals and their owners

Each signal ends with the construct that owns it: a `break` and a `continue` with the loop, a
`return` with the action, and the death of an agent where it was made the executing one. What is
not its own a construct lets pass.

There is one lemma for each construct. It says which signals cannot be pending when the construct
has ended well; when it has failed, none is.

* `settles_runLoop`, `settles_runCall`, `settles_fanOut`: the owners.
* `settles_runAsk`, `settles_runCreate`, `settles_relocation`: dispatches and the death of others.
* `clean_statementWith`, `tidy_sequenceWith`: statements, and sequences of any depth.
* `signals_end_with_owners`: what holds for every run from a scope without a pending signal.
-/
namespace Habitat

open Exec Discipline

/-! ## Dispatch -/

theorem settles_forked {α : Type} (name : String) (x : Exec α) (s : State) :
    Settles (forked name x) s fun _ f => f = s.scope.flow := by
  cases hx : withHeld s.scope.holdings x ⟨s.scope.fork name, s.machine⟩ with
  | ok a t =>
    refine .of_ok (a := .ok a) (t := ⟨s.scope, t.machine⟩) ?_ rfl
    simp only [forked, attempt_ok hx]
  | error e t =>
    cases e with
    | error e =>
      refine .of_ok (a := .error e) (t := ⟨s.scope, t.machine⟩) ?_ rfl
      simp only [forked, attempt_error hx]
    | outOfFuel =>
      refine .of_outOfFuel (t := ⟨s.scope, t.machine⟩) ?_
      simp only [forked, attempt_outOfFuel hx]

/-- Copies of a scope keep their signals to themselves. -/
theorem settles_runForked (remote : AgentRef → Exec RemoteResult) (targets : List AgentRef)
    (s : State) : Settles (runForked remote targets) s fun _ f => f = s.scope.flow := by
  induction targets generalizing s with
  | nil => exact .pure rfl
  | cons a rest ih =>
    refine Settles.bind_ok (t := s) rfl ?_
    refine (settles_forked _ (remote a) s).bind fun r t _ ht => ?_
    refine (Settles.withHeld (ih _)).bind fun rs u _ hu => .pure ?_
    exact hu.trans ht

/-- Gathering the results changes no signal. -/
theorem settles_gather (as : List AgentRef) (returns : Option String) (s : State) :
    Settles (do
      let result ← agentList as
      store returns result
      return result) s fun _ f => f = s.scope.flow := by
  refine Settles.bind_ok (x := agentList as) rfl ?_
  exact (Settles.store returns _).bind fun _ t _ ht => .pure ht

section
variable {run : Sequence → Exec Value} (T : Tidy run)
include T

/-- The death of another agent ends where it was made the executing one. -/
theorem settles_runRemote (owner : String) (body : Sequence) (a : AgentRef) {s : State}
    (hs : s.scope.flow = .normal) :
    Settles (runRemote run owner body a) s fun _ f => s.scope.isNewAgent a = true → f ≠ .die := by
  have L := calm_lawful
  refine Settles.bind_ok (t := s) rfl (Settles.bind_ok (t := s) rfl ?_)
  refine Settles.ite (fun _ => .pure fun _ => by simp [hs]) fun _ => ?_
  refine Settles.bind_ok (t := s) rfl ?_
  refine Settles.withAgent (Q := fun _ _ => True) ?_ ?_ ?_
  · intro u hu
    have hbody := T.clean body (pushFrame owner s.scope.agent u) (hu.trans hs)
    refine Settles.attempt_bind (Settles.withFrame hbody) (fun v t _ => .pure trivial) ?_
    intro e t ht
    have hreport : Settles (do report .error e.message; return RemoteResult.failed) t
        fun _ _ => True :=
      Settles.calm_bind (L.safe_report _ _ t ht) fun _ u _ _ => .pure trivial
    refine Settles.bind_ok (t := t) rfl (Settles.ite (fun _ => ?_) fun _ => hreport)
    exact .of_error (bind_error rfl) ht
  · intro v f _ _ _
    exact f.clear_ne_owned .die nofun
  · intro v f _ hsame hnew
    exact absurd hnew hsame

theorem settles_runEach (owner : String) (body : Sequence) (stop : Bool)
    (targets : List AgentRef) {s : State} (hs : s.scope.flow ≠ .leave) :
    Settles (runEach (runRemote run owner body) stop targets) s fun _ f => f ≠ .leave ∧
      ((∀ a ∈ targets, s.scope.isNewAgent a = true) → s.scope.flow ≠ .die → f ≠ .die) := by
  induction targets generalizing s with
  | nil => exact .pure ⟨hs, fun _ h => h⟩
  | cons a rest ih =>
    refine Settles.bind_ok (t := s) rfl (Settles.ite (fun _ => .pure ⟨hs, fun _ h => h⟩) ?_)
    intro hint
    have hnormal : s.scope.flow = .normal :=
      Flow.normal_of_not_interrupting fun hf => hint (by simp [hf])
    refine (settles_runRemote T owner body a hnormal).bind fun r t hr ht => ?_
    -- the agents are the same for the next target
    have hagents : t.scope.agents = s.scope.agents := by
      have hkept := (crew_sound.active.rel_runRemote (T.agents body) owner a s trivial).kept
      rwa [after_ok hr] at hkept
    refine Settles.bind_ok (x := takeFlow .leave) rfl ?_
    have hleave := t.scope.flow.clear_ne_owned .leave nofun
    have hdie : s.scope.isNewAgent a = true → t.scope.flow.clear .leave ≠ .die := fun hnew =>
      Flow.clear_ne (ht hnew) nofun
    refine Settles.ite (fun _ => .pure ⟨hleave, fun hall _ => hdie (hall a List.mem_cons_self)⟩) ?_
    intro _
    refine (Settles.withHeld (ih ?_)).bind fun rs u _ hrest => .pure ⟨hrest.1, ?_⟩
    · exact hleave
    · intro hall _
      refine hrest.2 ?_ (hdie (hall a List.mem_cons_self))
      intro b hb
      have hb := hall b (List.mem_cons_of_mem a hb)
      rw [← Scope.isNewAgent_congr hagents] at hb
      exact hb

theorem settles_fanOut (owner : String) (body : Sequence) (targets : List AgentRef)
    (hint : Value) (stop : Bool) {s : State} (hs : s.scope.flow = .normal) :
    Settles (fanOut run owner body targets hint stop) s fun _ f => f ≠ .leave ∧
      ((∀ a ∈ targets, s.scope.isNewAgent a = true) → f ≠ .die) := by
  refine Settles.ite (fun _ => .pure (by simp [hs])) fun _ => ?_
  refine Settles.withHeld (Settles.bind_ok (x := machine) rfl ?_)
  refine Settles.ite (fun _ => ?_) fun _ => ?_
  · refine (settles_runForked _ targets _).bind fun rs t _ ht => ?_
    have hnormal : t.scope.flow = .normal := ht.trans hs
    cases firstError rs with
    | error e => exact .fail hnormal
    | ok rs => exact .pure (by simp [hnormal])
  · refine (settles_runEach T owner body stop targets ?_).mono fun rs f hf => ⟨hf.1, ?_⟩
    · simp [State.holding, hs]
    · intro hall
      exact hf.2 hall (by simp [State.holding, hs])

end

/-! ## Targets -/

/-- Whom a value means in an `ask`. -/
def State.asked (s : State) : Value → List AgentRef
  | .agent a => [a]
  | .species name => s.machine.world.reachable (holds s) s.scope.agent name
  | v => s.machine.store.agents v

/-- Whom the body of an `ask` runs for. -/
def Exec.askTargets (target : Expr) : Exec (List AgentRef) := do
  let v ← eval target
  return (← get).asked v

/-- The agents that a statement creates. -/
def Exec.createdBy (f : CreateFacets) : Exec (List AgentRef) := return (← createAgents f).2

/-- The agent whose action is called. -/
def Exec.calledBy (c : ActionCall) : Exec (List AgentRef) := return [(← callee c.target).1]

/-- The agents that a plan moves. -/
def Exec.movedBy (plan : Exec Relocation) : Exec (List AgentRef) := do
  let r ← plan
  let moved ← withHeld r.holdings (moveAll r.destination r.candidates)
  return moved.1

/-- Whom a dispatch runs something for. -/
def Statement.targets? : Statement → Option (Exec (List AgentRef))
  | .ask target _ _ => some (askTargets target)
  | .create f _ => some (createdBy f)
  | .call c => some (calledBy c)
  | st => st.plan?.map movedBy

/-- Nobody that is found is the executing agent. -/
def Others (find : Exec (List AgentRef)) (s : State) : Prop :=
  ∀ as t, find s = .ok as t → ∀ a ∈ as, s.scope.isNewAgent a = true

section
variable {run : Sequence → Exec Value} (T : Tidy run)
include T

theorem settles_askAll (v : Value) (parallel : Option Expr) (body : Sequence)
    (targets : List AgentRef) {s : State} (hs : s.scope.flow = .normal) :
    Settles (do
      let hint ← evalOrNil parallel
      let _ ← withHeld [v] (fanOut run "ask" body targets hint false)
      return Value.nil) s fun _ f => (∀ a ∈ targets, s.scope.isNewAgent a = true) → f ≠ .die := by
  refine Settles.calm_bind (calm_lawful.safe_evalOrNil parallel s hs) fun hint t _ ht => ?_
  refine (Settles.withHeld (settles_fanOut T "ask" body targets hint false ht.1)).bind
    fun _ u _ hu => .pure fun hall => hu.2 fun a ha => ?_
  have hnew := hall a ha
  rw [← Scope.isNewAgent_congr ht.2] at hnew
  exact hnew

theorem settles_runAsk (target : Expr) (parallel : Option Expr) (body : Sequence) {s : State}
    (hs : s.scope.flow = .normal) :
    Settles (runAsk run target parallel body) s fun _ f => Others (askTargets target) s →
      f ≠ .die := by
  have L := calm_lawful
  refine Settles.calm_bind (L.safe_eval target s hs) fun v t hv ht => ?_
  refine Settles.bind_ok (t := t) rfl ?_
  have hfind : askTargets target s = .ok (t.asked v) t := bind_ok hv
  have hasked : Others (askTargets target) s → ∀ a ∈ t.asked v, t.scope.isNewAgent a = true := by
    intro hothers a ha
    rw [Scope.isNewAgent_congr ht.2]
    exact hothers _ t hfind a ha
  dsimp only
  split
  case h_1 a =>
    refine (settles_runRemote T "ask" body a ht.1).bind fun r u _ hu => .pure fun hothers => ?_
    exact hu (hasked hothers a List.mem_cons_self)
  case h_2 name =>
    exact (settles_askAll T _ parallel body _ ht.1).mono fun _ f hf hothers => hf (hasked hothers)
  case h_3 => exact .fail ht.1
  case h_4 hagent hspecies _ =>
    refine Settles.ite (fun _ => ?_) fun _ => ?_
    · refine (settles_askAll T _ parallel body _ ht.1).mono fun _ f hf hothers => hf ?_
      intro a ha
      refine hasked hothers a ?_
      unfold State.asked
      split
      case h_1 => exact absurd rfl (hagent _)
      case h_2 => exact absurd rfl (hspecies _)
      case h_3 => exact ha
    · exact Settles.calm_bind (L.safe_text _ t ht.1) fun x u _ hu => .fail hu.1

theorem settles_runCreate (f : CreateFacets) (body : Sequence) {s : State}
    (hs : s.scope.flow = .normal) :
    Settles (runCreate run f body) s fun _ g => Others (createdBy f) s → g ≠ .die := by
  have L := calm_lawful
  refine Settles.calm_bind (calm_open.living.safe_createAgents f s hs) fun r t hr ht => ?_
  have hnew : Others (createdBy f) s → ∀ a ∈ r.2, t.scope.isNewAgent a = true := by
    intro hothers a ha
    rw [Scope.isNewAgent_congr ht.2]
    exact hothers r.2 t (bind_ok hr) a ha
  have hend : ∀ u : State, (Others (createdBy f) s → u.scope.flow ≠ .die) →
      Settles (do
        let created ← agentList r.2
        store f.returns created
        return created) u fun _ g => Others (createdBy f) s → g ≠ .die := by
    intro u hu
    refine (settles_gather r.2 f.returns u).mono fun _ g hg => ?_
    rw [hg]
    exact hu
  refine Settles.ite (fun _ => ?_) fun _ => hend t fun _ => by simp [ht.1]
  refine Settles.bind (Q := fun _ g => Others (createdBy f) s → g ≠ .die)
    (Settles.withHeld ?_) fun _ u _ hu => hend u hu
  refine Settles.calm_bind (L.safe_evalOrNil f.parallel _ ?_) fun hint u _ hu => ?_
  · exact ht.1
  refine (settles_fanOut T "create" body r.2 hint false hu.1).bind fun _ w _ hw =>
    .pure fun hothers => hw.2 fun a ha => ?_
  rw [Scope.isNewAgent_congr hu.2]
  exact hnew hothers a ha

theorem settles_relocation {st : Statement} {plan : Exec Relocation} (hst : st.plan? = some plan)
    (returns : Option String) (body : Sequence) {s : State} (hs : s.scope.flow = .normal) :
    Settles (plan >>= fun r => relocate run r returns body) s fun _ g =>
      Others (movedBy plan) s → g ≠ .die := by
  have L := calm_lawful
  refine Settles.calm_bind (L.safe_plan hst s hs) fun r t hr ht => Settles.withHeld ?_
  have hmoves := calm_open.mobile.at_moves hst hs hr
  refine Settles.calm_bind hmoves fun m u hm hu => ?_
  refine Settles.calm_bind (L.safe_reportRejected r.verb m.2 r.reason u hu.1) fun _ w _ hw => ?_
  refine (settles_fanOut T r.verb body m.1 .nil true hw.1).bind fun _ v _ hv => ?_
  refine (settles_gather m.1 returns v).mono fun _ g hg hothers => ?_
  rw [hg]
  refine hv.2 fun a ha => ?_
  have hfind : ∃ y, movedBy plan s = .ok m.1 y :=
    ⟨_, (bind_ok hr).trans ((bind_ok (bracket_ok hm)).trans rfl)⟩
  obtain ⟨y, hy⟩ := hfind
  have hnew := hothers m.1 y hy a ha
  rw [← Scope.isNewAgent_congr (hw.2.trans (hu.2.trans ht.2))] at hnew
  exact hnew

end

/-! ## Actions -/

/-- Native actions leave no signal when they fail, and leave the executing agents alone. -/
structure Exec.Handlers.Tame (handlers : Handlers) : Prop where
  clean : ∀ native args, Clean (handlers native args)
  agents : ∀ native args s, (after (handlers native args) s).scope.agents = s.scope.agents

theorem Clean.asForeign {x : Exec Value} (hx : Clean x) : Clean (asForeign x) := by
  intro s hs
  cases h : x s with
  | ok v t => exact .of_ok (a := v) (t := t) (by simp only [Exec.asForeign, h]) trivial
  | error e t =>
    cases e with
    | error e =>
      refine .of_error (e := .foreign e.message) (t := t) ?_ ((hx s hs).2 e t h)
      simp only [Exec.asForeign, h]
    | outOfFuel => exact .of_outOfFuel (t := t) (by simp only [Exec.asForeign, h])

section
variable {run : Sequence → Exec Value} (T : Tidy run) {handlers : Handlers} (hh : handlers.Tame)
include T hh

/-- A `return` ends with the action. -/
theorem settles_invokeWith (action : Action) (args : BoundArguments) (caller : Option AgentRef)
    {s : State} (hs : s.scope.flow = .normal) :
    Settles (invokeWith handlers run action args caller) s fun _ f => f ≠ .yield := by
  have L := calm_lawful
  refine Settles.withHeld (Settles.withFrame ?_)
  refine Settles.calm_bind (L.safe_declareAll args _ hs) fun _ t _ ht => ?_
  refine (Settles.owned (Q := fun _ _ => True) ?_ .yield).mono ?_
  · cases action.body with
    | statements body => exact T.clean body t ht.1
    | native handler => exact (hh.clean handler args).asForeign t ht.1
  · intro v f ⟨g, _, hg⟩
    rw [hg]
    exact g.clear_ne_owned .yield nofun

theorem settles_runCall (c : ActionCall) {s : State} (hs : s.scope.flow = .normal) :
    Settles (runCall handlers run c) s fun _ f =>
      f ≠ .yield ∧ (Others (calledBy c) s → f ≠ .die) := by
  have L := calm_lawful
  refine Settles.calm_bind (L.safe_callee c.target s hs) fun r t hr ht => ?_
  refine Settles.bind_ok (x := machine) (t := t) rfl ?_
  refine Settles.ite (fun _ => .pure (by simp [ht.1])) fun _ => ?_
  dsimp only
  split
  · exact .fail ht.1
  · refine Settles.calm_bind (L.safe_bind c.args _ t ht.1) fun args u _ hu => ?_
    have hnew : Others (calledBy c) s → u.scope.isNewAgent r.1 = true := by
      intro hothers
      rw [Scope.isNewAgent_congr (hu.2.trans ht.2)]
      exact hothers _ t (bind_ok hr) r.1 List.mem_cons_self
    refine Settles.bind (Q := fun _ f => f ≠ .yield ∧ (Others (calledBy c) s → f ≠ .die)) ?_ ?_
    · refine Settles.withAgent (fun w hw => settles_invokeWith T hh _ args r.2 (hw.trans hu.1)) ?_ ?_
      · intro v f hf _
        exact ⟨Flow.clear_ne hf nofun, fun _ => f.clear_ne_owned .die nofun⟩
      · intro v f hf hsame
        exact ⟨hf, fun hothers => absurd (hnew hothers) hsame⟩
    · intro v w _ hw
      refine (Settles.store c.returns v).bind fun _ y _ hy => .pure ?_
      rw [hy]
      exact hw

end

/-! ## Loops -/

/-- Iterations clear a `continue`, and go on only where no signal is pending. -/
def Steps {α : Type} (visit : α → Exec (Value × Bool)) : Prop :=
  ∀ x s, s.scope.flow = .normal →
    Settles (visit x) s fun r f => (r.2 = true → f = .normal) ∧ f ≠ .skip

theorem settles_iterate {run : Sequence → Exec Value} (T : Tidy run) (var : Option String)
    (body : Sequence) : Steps (iterate run var body) := by
  intro v s hs
  refine Settles.withFrame ((Settles.store var v).bind fun _ t _ ht => ?_)
  refine (T.clean body t (ht.trans hs)).bind fun last u _ _ => ?_
  refine (Settles.takeFlow .skip).bind fun f w _ hf => ?_
  refine Settles.bind_ok (x := machine) (t := w) rfl (.pure ?_)
  rw [hf.1, hf.2]
  refine ⟨?_, u.scope.flow.clear_ne_owned .skip nofun⟩
  cases u.scope.flow <;> simp [Flow.terminatesLoop, Flow.clear]

section
variable {α : Type} {visit : α → Exec (Value × Bool)} (hvisit : Steps visit)
include hvisit

theorem settles_repeatTimes (x : α) (n : Nat) (last : Value) {s : State}
    (hs : s.scope.flow = .normal) :
    Settles (repeatTimes (visit x) n last) s fun _ f => f ≠ .skip := by
  induction n generalizing s last with
  | zero => exact .pure (by simp [hs])
  | succ n ih =>
    refine (Settles.withHeld (hvisit x _ hs)).bind fun r t _ ht => ?_
    exact Settles.ite (fun hmore => ih r.1 (ht.1 hmore)) fun _ => .pure ht.2

theorem settles_repeatWhile {condition : Exec Bool} (hc : calm.Safe condition) (x : α) (n : Nat)
    (last : Value) {s : State} (hs : s.scope.flow = .normal) :
    Settles (repeatWhile condition (visit x) n last) s fun _ f => f ≠ .skip := by
  induction n generalizing s last with
  | zero => exact .throw_outOfFuel
  | succ n ih =>
    refine Settles.calm_bind (hc s hs) fun c t _ ht => ?_
    refine Settles.ite (fun _ => ?_) fun _ => .pure (by simp [ht.1])
    refine (Settles.withHeld (hvisit x _ ht.1)).bind fun r u _ hu => ?_
    exact Settles.ite (fun hmore => ih r.1 (hu.1 hmore)) fun _ => .pure hu.2

theorem settles_repeatFrom (inRange : α → Bool) (next : α → Option α) (n : Nat) (x : α)
    (last : Value) {s : State} (hs : s.scope.flow = .normal) :
    Settles (repeatFrom inRange next visit n x last) s fun _ f => f ≠ .skip := by
  induction n generalizing s x last with
  | zero => exact .throw_outOfFuel
  | succ n ih =>
    refine Settles.ite (fun _ => ?_) fun _ => .pure (by simp [hs])
    refine (Settles.withHeld (hvisit x _ hs)).bind fun r t _ ht => ?_
    refine Settles.ite (fun hmore => ?_) fun _ => .pure ht.2
    cases next x with
    | some y => exact ih y r.1 (ht.1 hmore)
    | none => exact .pure ht.2

end

section
variable {visit : Value → Exec (Value × Bool)} (hvisit : Steps visit)
include hvisit

theorem settles_repeatOver (vs : List Value) (last : Value) {s : State}
    (hs : s.scope.flow = .normal) :
    Settles (repeatOver visit vs last) s fun _ f => f ≠ .skip := by
  induction vs generalizing s last with
  | nil => exact .pure (by simp [hs])
  | cons v rest ih =>
    refine (Settles.withHeld (hvisit v _ hs)).bind fun r t _ ht => ?_
    exact Settles.ite (fun hmore => ih r.1 (ht.1 hmore)) fun _ => .pure ht.2

theorem settles_countInts (r : Range Int64) {s : State} (hs : s.scope.flow = .normal) :
    Settles (countInts visit r) s fun _ f => f ≠ .skip := by
  refine Settles.ite (fun _ => .fail hs) fun _ => ?_
  refine Settles.ite (fun _ => (hvisit _ s hs).bind fun r t _ ht => .pure ht.2) fun _ => ?_
  refine Settles.ite (fun _ => .pure (by simp [hs])) fun _ => ?_
  exact settles_repeatFrom (fun x => hvisit (.int x)) _ _ _ r.start .nil hs

theorem settles_countFloats (fuel : Nat) (r : Range Float) {s : State}
    (hs : s.scope.flow = .normal) :
    Settles (countFloats fuel visit r) s fun _ f => f ≠ .skip := by
  refine Settles.ite (fun _ => .fail hs) fun _ => ?_
  refine Settles.ite (fun _ => (hvisit _ s hs).bind fun r t _ ht => .pure ht.2) fun _ => ?_
  refine Settles.ite (fun _ => .pure (by simp [hs])) fun _ => ?_
  exact settles_repeatFrom (fun x => hvisit (.float x)) _ _ fuel r.start .nil hs

theorem settles_countAny (fuel : Nat) (r : Range Value) {s : State} (hs : s.scope.flow = .normal) :
    Settles (countAny fuel visit r) s fun _ f => f ≠ .skip := by
  have L := calm_lawful
  unfold countAny
  cases intRange? r with
  | some r => exact settles_countInts hvisit r hs
  | none =>
    have hrest : ∀ (step : Option Float) (t : State), t.scope.flow = .normal → Settles
        (do
          let start ← number r.start
          let stop ← number r.stop
          countFloats fuel visit ⟨start, stop, step⟩) t fun _ f => f ≠ .skip := by
      intro step t ht
      refine Settles.calm_bind (L.safe_number r.start t ht) fun start u _ hu => ?_
      refine Settles.calm_bind (L.safe_number r.stop u hu.1) fun stop w _ hw => ?_
      exact settles_countFloats hvisit fuel ⟨start, stop, step⟩ hw.1
    dsimp only
    cases r.step with
    | none => exact Settles.bind_ok (t := s) rfl (hrest none s hs)
    | some v =>
      refine Settles.calm_bind (L.safe_number v s hs) fun x t _ ht => ?_
      exact Settles.bind_ok (t := t) rfl (hrest (some x) t ht.1)

theorem settles_runKind (fuel : Nat) (kind : LoopKind) {s : State} (hs : s.scope.flow = .normal) :
    Settles (runKind fuel visit kind) s fun _ f => f ≠ .skip := by
  have L := calm_lawful
  cases kind with
  | times count =>
    refine Settles.calm_bind (L.safe_resolve intBound? count s hs) fun n t _ ht => ?_
    exact settles_repeatTimes hvisit .nil _ .nil ht.1
  | loopWhile condition =>
    have hc : calm.Safe (do return (← eval condition).truthy) :=
      (L.safe_eval condition).bind L fun v => L.safe_pure v.truthy
    exact settles_repeatWhile hvisit hc .nil fuel .nil hs
  | each source =>
    refine Settles.calm_bind (L.safe_eval source s hs) fun v t _ ht => ?_
    refine Settles.bind_ok (x := machine) (t := t) rfl (Settles.withHeld ?_)
    exact settles_repeatOver hvisit _ .nil ht.1
  | intRange r =>
    refine Settles.calm_bind (L.safe_resolveRange intBound? r s hs) fun r t _ ht => ?_
    exact settles_countInts hvisit r ht.1
  | floatRange r =>
    refine Settles.calm_bind (L.safe_resolveRange Value.asFloat r s hs) fun r t _ ht => ?_
    exact settles_countFloats hvisit fuel r ht.1
  | anyRange r =>
    refine Settles.calm_bind (L.safe_eval r.start s hs) fun start t _ ht => ?_
    refine Settles.calm_bind (L.safe_eval r.stop t ht.1) fun stop u _ hu => ?_
    refine Settles.calm_bind (L.safe_evalOption r.step u hu.1) fun step w _ hw => ?_
    exact settles_countAny hvisit fuel ⟨start, stop, step⟩ hw.1

end

/-- A `break` and a `continue` end with the loop. -/
theorem settles_runLoop {run : Sequence → Exec Value} (T : Tidy run) (fuel : Nat)
    (var : Option String) (kind : LoopKind) (body : Sequence) {s : State}
    (hs : s.scope.flow = .normal) :
    Settles (runLoop fuel run var kind body) s fun _ f => f ≠ .leave ∧ f ≠ .skip := by
  have hkind := settles_runKind (settles_iterate T var body) fuel kind hs
  refine (hkind.owned .leave).mono ?_
  intro v f ⟨g, hskip, hg⟩
  rw [hg]
  exact ⟨g.clear_ne_owned .leave nofun, Flow.clear_ne hskip nofun⟩

/-! ## Statements -/

/-- A sequence runs its next statement only where no signal is pending. -/
theorem settles_steps {step : Statement → Exec Value} (h : ∀ st, Clean (step st))
    (body : Sequence) (last : Value) (s : State) :
    Settles (steps step body last) s fun _ _ => True := by
  induction body generalizing s last with
  | nil => exact .pure trivial
  | cons st rest ih =>
    refine Settles.bind_ok (t := s) rfl (Settles.ite (fun _ => .pure trivial) fun hint => ?_)
    have hs : s.scope.flow = .normal := Flow.normal_of_not_interrupting fun hf => hint (by simp [hf])
    refine Settles.calm_bind (calm_lawful.safe_traceStatement st s hs) fun _ t _ ht => ?_
    refine (Settles.withHeld (h st _ ht.1)).bind fun v u _ _ => ?_
    exact Settles.bind_ok (x := recordValue v) rfl (ih v _)

section
variable {run : Sequence → Exec Value} (T : Tidy run) {handlers : Handlers} (hh : handlers.Tame)
include T

theorem clean_runAttempt (body : Sequence) (rescue : Option Sequence) :
    Clean (runAttempt run body rescue) := by
  intro s hs
  have L := calm_lawful
  refine Settles.bind_ok (x := recordValue .nil) rfl ?_
  have hbody := T.clean body (pushFrame "try" none
    { s with scope := { s.scope with lastValue := .nil, tryDepth := s.scope.tryDepth + 1 } }) hs
  refine Settles.attempt_bind (Settles.withTry (Settles.withFrame hbody)) ?_ ?_
  · intro v u _
    exact .pure trivial
  · intro e u hu
    refine Settles.bind_ok (x := modifyScope _) rfl ?_
    cases rescue with
    | none => exact Settles.bind_ok (x := scope) rfl (.pure trivial)
    | some rescue =>
      refine Settles.withFrame (Settles.calm_bind (L.safe_declare _ _ _ hu) fun _ w _ hw => ?_)
      exact T.clean rescue w hw.1

include hh

/-- Dispatches to others end without a death. -/
theorem settles_dispatch {st : Statement} {find : Exec (List AgentRef)}
    (hst : st.targets? = some find) (fuel : Nat) {s : State} (hs : s.scope.flow = .normal) :
    Settles (statementWith handlers fuel run st) s fun _ f => Others find s → f ≠ .die := by
  cases st with
  | ask target parallel body =>
    cases hst
    exact settles_runAsk T target parallel body hs
  | create f body =>
    cases hst
    exact settles_runCreate T f body hs
  | call c =>
    cases hst
    exact (settles_runCall T hh c hs).mono fun _ _ hf => hf.2
  | capture target species returns body =>
    cases hst
    have hplan : (Statement.capture target species returns body).plan? =
        some (planCapture target species) := rfl
    exact settles_relocation T hplan returns body hs
  | release target species host returns body =>
    cases hst
    have hplan : (Statement.release target species host returns body).plan? =
        some (planRelease target species host) := rfl
    exact settles_relocation T hplan returns body hs
  | migrate source target returns body =>
    cases hst
    have hplan : (Statement.migrate source target returns body).plan? =
        some (planMigrate source target) := rfl
    exact settles_relocation T hplan returns body hs
  | _ => cases hst

/-- One layer of statements. -/
theorem clean_statementWith (fuel : Nat) (st : Statement) :
    Clean (statementWith handlers fuel run st) := by
  intro s hs
  have L := calm_lawful
  cases hst : st.targets? with
  | some find => exact (settles_dispatch T hh hst fuel hs).mono fun _ _ _ => trivial
  | none =>
    cases st with
    | declare name value =>
      refine Settles.calm_bind (L.safe_evalOrNil value s hs) fun v t _ ht => ?_
      exact Settles.calm_bind (L.safe_declare name v t ht.1) fun _ u _ _ => .pure trivial
    | assign target name value =>
      refine Settles.calm_bind (L.safe_eval value s hs) fun v t _ ht => ?_
      cases target with
      | none =>
        refine Settles.calm_bind (calm_open.living.safe_assignName name v t ht.1) fun _ u _ _ => ?_
        exact .pure trivial
      | some e =>
        refine Settles.calm_bind (L.safe_eval e t ht.1) fun w u _ hu => ?_
        refine Settles.calm_bind (calm_open.living.safe_assignTo w name v u hu.1) fun _ y _ _ => ?_
        exact .pure trivial
    | branch condition yes no =>
      refine Settles.calm_bind (L.safe_eval condition s hs) fun v t _ ht => ?_
      dsimp only
      split
      · exact Settles.withFrame (T.clean _ _ ht.1)
      · exact .pure trivial
    | block body => exact Settles.withFrame (T.clean body _ hs)
    | loop var kind body => exact (settles_runLoop T fuel var kind body hs).mono fun _ _ _ => trivial
    | edit kind f warnings =>
      exact (Settles.of_at (L.safe_runEdit kind f s hs)).mono fun _ _ _ => trivial
    | attempt body rescue => exact clean_runAttempt T body rescue s hs
    | leave => exact .of_ok (a := .nil) rfl trivial
    | skip => exact .of_ok (a := .nil) rfl trivial
    | yield value =>
      refine Settles.calm_bind (L.safe_evalOrNil value s hs) fun v t _ _ => ?_
      exact .of_ok (a := v) rfl trivial
    | die =>
      refine Settles.calm_bind (L.safe_currentAgent "die" s hs) fun a t _ _ => ?_
      exact .of_ok (a := .nil) rfl trivial
    | write message =>
      refine Settles.calm_bind (L.safe_eval message s hs) fun v t _ ht => ?_
      refine Settles.calm_bind (L.safe_text v t ht.1) fun x u _ _ => ?_
      exact .of_ok (a := v) rfl trivial
    | warn message =>
      refine Settles.calm_bind (L.safe_eval message s hs) fun v t _ ht => ?_
      refine Settles.calm_bind (L.safe_text v t ht.1) fun x u _ hu => ?_
      exact Settles.calm_bind (L.safe_warn x u hu.1) fun _ w _ _ => .pure trivial
    | raise message =>
      refine Settles.calm_bind (L.safe_eval message s hs) fun v t _ ht => ?_
      exact Settles.calm_bind (L.safe_text v t ht.1) fun x u _ hu => .fail hu.1
    | _ => cases hst

end

/-! ## Runs -/

section
variable {handlers : Handlers} (hh : handlers.Tame)
include hh

theorem Exec.Handlers.Tame.safe (native : Native) (args : BoundArguments) :
    crew.Safe (asForeign (handlers native args)) :=
  crew_sound.safe_asForeign fun s _ => hh.agents native args s

/-- Sequences of any depth. -/
theorem tidy_sequenceWith (n : Nat) : Tidy (sequenceWith handlers n) := by
  refine ⟨?_, crew_sound.safe_sequenceWith hh.safe n⟩
  induction n with
  | zero => exact fun _ _ _ => .throw_outOfFuel
  | succ n ih =>
    have T : Tidy (sequenceWith handlers n) := ⟨ih, crew_sound.safe_sequenceWith hh.safe n⟩
    exact fun body s _ => settles_steps (clean_statementWith T hh n) body .nil s

end

/-- The signal that is pending when a step has ended, well or with an error. -/
def Exec.pending? {α : Type} (x : Exec α) (s : State) : Option Flow :=
  match x s with
  | .ok _ t => some t.scope.flow
  | .error (.error _) t => some t.scope.flow
  | .error .outOfFuel _ => none

/-- What cannot be pending when a step ends well is not pending when it ends. -/
theorem Settles.pending?_ne {α : Type} {x : Exec α} {s : State} {Q : α → Flow → Prop}
    (h : Settles x s Q) {f : Flow} (hf : f ≠ .normal) (hQ : ∀ a, ¬Q a f) :
    pending? x s ≠ some f := by
  intro hp
  unfold pending? at hp
  split at hp
  case h_1 a t hx =>
    obtain rfl := Option.some.inj hp
    exact hQ a (h.1 a t hx)
  case h_2 e t hx =>
    obtain rfl := Option.some.inj hp
    exact hf (h.2 e t hx)
  case h_3 => cases hp

/-- The native actions that the interpreter knows are tame. -/
theorem runNative_tame : Handlers.Tame runNative := by
  refine ⟨?_, ?_⟩
  · intro native args s hs
    cases native with
    | fail message => exact .fail hs
    | refuse => exact .fail hs
    | _ => exact .of_ok rfl trivial
  · intro native args s
    cases native <;> rfl

/-- From a scope without a pending signal: after a loop neither a `break` nor a `continue` is
pending, after the call of an action no `return`, after a body has run for all targets no
`break`, and after a dispatch to others no death, whether these end well or with an error. -/
theorem signals_end_with_owners (n : Nat) {s : State} (hs : s.scope.flow = .normal) :
    (∀ var kind body,
      pending? (statement n (sequence n) (.loop var kind body)) s ≠ some .leave ∧
      pending? (statement n (sequence n) (.loop var kind body)) s ≠ some .skip) ∧
    (∀ c, pending? (statement n (sequence n) (.call c)) s ≠ some .yield) ∧
    (∀ owner body targets hint stop,
      pending? (fanOut (sequence n) owner body targets hint stop) s ≠ some .leave) ∧
    ∀ (st : Statement) find, st.targets? = some find → Others find s →
      pending? (statement n (sequence n) st) s ≠ some .die := by
  have T : Tidy (sequence n) := tidy_sequenceWith runNative_tame n
  refine ⟨?_, ?_, ?_, ?_⟩
  · intro var kind body
    have h := settles_runLoop T n var kind body hs
    exact ⟨h.pending?_ne nofun fun _ hf => hf.1 rfl, h.pending?_ne nofun fun _ hf => hf.2 rfl⟩
  · intro c
    exact (settles_runCall T runNative_tame c hs).pending?_ne nofun fun _ hf => hf.1 rfl
  · intro owner body targets hint stop
    have h := settles_fanOut T owner body targets hint stop hs
    exact h.pending?_ne nofun fun _ hf => hf.1 rfl
  · intro st find hst hothers
    have h := settles_dispatch T runNative_tame hst n hs
    exact h.pending?_ne nofun fun _ hf => hf hothers rfl

/-- The root breaks out of a loop, and creates a sheep that dies at once. -/
theorem signals_end_with_owners_sheep :
    let w := (World.start ⟨"world", none, ["sheep"], false, [], []⟩).register
      ⟨"sheep", none, [], false, [], []⟩
    let s : State := ⟨.start ⟨0, "world"⟩ "main", .start .standard w .empty⟩
    let born : CreateFacets := ⟨some (.species "sheep"), some (.int 1), none, [], none, none⟩
    pending? (statement 2 (sequence 2) (.loop none (.times (.constant 2)) [.leave])) s ≠
        some .leave ∧
      Others (createdBy born) s ∧
      pending? (statement 2 (sequence 2) (.create born [.die])) s ≠ some .die := by
  intro w s born
  have hothers : Others (createdBy born) s := by
    intro as t h
    have hall : (match createdBy born s with
        | .ok as _ => as.all s.scope.isNewAgent
        | .error _ _ => true) = true := by decide +kernel
    rw [h] at hall
    exact List.all_eq_true.mp hall
  obtain ⟨hloop, -, -, hdispatch⟩ := signals_end_with_owners 2 (s := s) rfl
  exact ⟨(hloop _ _ _).1, hothers, hdispatch (.create born [.die]) _ rfl hothers⟩

end Habitat
