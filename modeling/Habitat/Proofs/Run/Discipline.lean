import Habitat.Run.Arguments
import Habitat.Proofs.Expr.Errors

/-!
# What every step of a run keeps

Many facts about runs have one shape: from every state that is admitted, a step ends in a state
that keeps something of the first one, on every way out, and fails only with certain errors. A
`Discipline` is such a fact. Its laws (`Lawful`) are about single changes of the state; what they
give for `Exec` is proved here, and for everything that runs in `Habitat.Proofs.Run.Traversal`.

`Discipline.Rel x y` also says that `y` does the same as `x` from every admitted state. With a `y`
that runs sequences differently where the state is not admitted, this says that nothing inside a
statement starts from such a state.

* `Rel.bind`, `Rel.attempt`, `Rel.withFrame`, `Rel.withAgent`, `Rel.withTry`, `Rel.withHeld`,
  `Rel.forked`: the combinators.
* `Lawful.safe_eval` and its neighbours: the primitive steps.
-/
namespace Habitat

/-- The root of a new world, about to run its first statement. -/
def State.fresh (root : Species) : State :=
  ⟨.start ⟨0, root.name⟩ "main", .start .standard (.start root) .empty⟩

/-- The state while values are held outside the scope. -/
def State.holding (s : State) (vs : List Value) : State :=
  { s with machine := { s.machine with held := vs :: s.machine.held } }

/-- Whether a run ended with an error. -/
def fails (r : EStateM.Result Fault State Value) : Bool :=
  match r with
  | .ok _ _ => false
  | .error _ _ => true

namespace Exec

variable {α β : Type}

/-- The state in which a step ends, on every way out. -/
def after (x : Exec α) (s : State) : State :=
  match x s with
  | .ok _ t => t
  | .error _ t => t

theorem after_ok {x : Exec α} {s t : State} {a : α} (h : x s = .ok a t) : after x s = t := by
  simp [after, h]

theorem after_error {x : Exec α} {s t : State} {e : Fault} (h : x s = .error e t) :
    after x s = t := by
  simp [after, h]

/-- The value of a step that ends well. -/
def value? (x : Exec α) (s : State) : Option α :=
  match x s with
  | .ok v _ => some v
  | .error .. => none

theorem value?_ok {x : Exec α} {s t : State} {v : α} (h : x s = .ok v t) :
    value? x s = some v := by
  simp only [value?, h]

theorem eq_ok_of_value? {x : Exec α} {s : State} {v : α} (h : value? x s = some v) :
    ∃ t, x s = .ok v t := by
  cases hx : x s with
  | ok w t =>
    rw [value?_ok hx] at h
    exact ⟨t, by rw [Option.some.inj h]⟩
  | error e t =>
    simp only [value?, hx] at h
    cases h

/-- The error that a step ends with, unless it runs out of fuel. -/
def error? (x : Exec α) (s : State) : Option ExecError :=
  match x s with
  | .ok .. => none
  | .error (.error e) _ => some e
  | .error .outOfFuel _ => none

theorem eq_error_of_error? {x : Exec α} {s : State} {e : ExecError} (h : error? x s = some e) :
    ∃ t, x s = .error (.error e) t := by
  unfold error? at h
  split at h
  case h_2 e' t hx =>
    cases h
    exact ⟨t, hx⟩
  all_goals cases h

theorem bind_ok {x : Exec α} {f : α → Exec β} {s t : State} {a : α} (h : x s = .ok a t) :
    (x >>= f) s = f a t := by
  simp only [bind, EStateM.bind, h]

theorem bind_error {x : Exec α} {f : α → Exec β} {s t : State} {e : Fault}
    (h : x s = .error e t) : (x >>= f) s = .error e t := by
  simp only [bind, EStateM.bind, h]

/-- A step that ends well is its first part, and then the rest. -/
theorem bind_eq_ok {x : Exec α} {f : α → Exec β} {s u : State} {b : β}
    (h : (x >>= f) s = .ok b u) : ∃ a t, x s = .ok a t ∧ f a t = .ok b u := by
  cases hx : x s with
  | ok a t => exact ⟨a, t, rfl, by rwa [bind_ok hx] at h⟩
  | error e t => rw [bind_error hx] at h; cases h

theorem after_bind {x : Exec α} {f : α → Exec β} {s t : State} {a : α}
    (h : x s = .ok a t) : after (x >>= f) s = after (f a) t := by
  simp only [after, bind_ok h]

theorem after_bind_pure (x : Exec α) (g : α → β) (s : State) :
    after (x >>= fun a => pure (g a)) s = after x s := by
  cases h : x s with
  | ok a t =>
    rw [after_bind h, after_ok h]
    rfl
  | error e t => rw [after_error (bind_error h), after_error h]

/-! Looking at the state changes nothing. -/

theorem get_bind_apply (f : State → Exec β) (s : State) : (get >>= f) s = f s s := rfl

theorem scope_bind_apply (f : Scope → Exec β) (s : State) : (scope >>= f) s = f s.scope s := rfl

theorem machine_bind_apply (f : Machine → Exec β) (s : State) :
    (machine >>= f) s = f s.machine s := rfl

theorem currentAgent_of_agent {s : State} {a : AgentRef} (h : s.scope.agent = some a)
    (statement : String) : currentAgent statement s = .ok a s := by
  unfold currentAgent
  rw [scope_bind_apply, h]
  rfl

/-- Expressions change nothing but the containers. -/
theorem eval_keeps {e : Expr} {s t : State} {v : Value} (h : eval e s = .ok v t) :
    t.scope = s.scope ∧ t.machine = { s.machine with store := t.machine.store } := by
  unfold eval compute at h
  dsimp only at h
  split at h
  · cases h
    exact ⟨rfl, rfl⟩
  · cases h

theorem bracket_ok {enter leave : State → State} {x : Exec α} {s t : State} {a : α}
    (h : x (enter s) = .ok a t) : bracket enter leave x s = .ok a (leave t) := by
  simp only [bracket, h]

theorem bracket_error {enter leave : State → State} {x : Exec α} {s t : State} {e : Fault}
    (h : x (enter s) = .error e t) : bracket enter leave x s = .error e (leave t) := by
  simp only [bracket, h]

theorem bracket_eq_ok {enter leave : State → State} {x : Exec α} {s u : State} {a : α}
    (h : bracket enter leave x s = .ok a u) : ∃ t, x (enter s) = .ok a t ∧ u = leave t := by
  unfold bracket at h
  split at h
  · cases h; exact ⟨_, ‹_›, rfl⟩
  · cases h

theorem after_bracket (enter leave : State → State) (x : Exec α) (s : State) :
    after (bracket enter leave x) s = leave (after x (enter s)) := by
  cases h : x (enter s) with
  | ok a t => rw [after_ok h, after_ok (bracket_ok h)]
  | error e t => rw [after_error h, after_error (bracket_error h)]

theorem attempt_ok {x : Exec α} {s t : State} {a : α} (h : x s = .ok a t) :
    attempt x s = .ok (.ok a) t := by
  simp only [attempt, h]

theorem attempt_error {x : Exec α} {s t : State} {e : ExecError}
    (h : x s = .error (.error e) t) : attempt x s = .ok (.error e) t := by
  simp only [attempt, h]

theorem attempt_outOfFuel {x : Exec α} {s t : State} (h : x s = .error .outOfFuel t) :
    attempt x s = .error .outOfFuel t := by
  simp only [attempt, h]

/-- An error that is caught was raised. -/
theorem attempt_eq_error {x : Exec α} {s t : State} {e : ExecError}
    (h : attempt x s = .ok (.error e) t) : x s = .error (.error e) t := by
  unfold attempt at h
  split at h
  · cases h
  · cases h; assumption
  · cases h

theorem after_attempt (x : Exec α) (s : State) : after (attempt x) s = after x s := by
  cases h : x s with
  | ok a t => rw [after_ok h, after_ok (attempt_ok h)]
  | error e t =>
    cases e with
    | error e => rw [after_error h, after_ok (attempt_error h)]
    | outOfFuel => rw [after_error h, after_error (attempt_outOfFuel h)]

/-- For an agent that is not executing yet, it is pushed and popped. -/
theorem withAgent_new {x : Exec α} {s : State} {a : AgentRef}
    (h : s.scope.isNewAgent a = true) :
    withAgent a x s = bracket (fun s => { s with scope := s.scope.pushAgent a })
      (fun s => { s with scope := s.scope.popAgent }) x s := by
  simp only [withAgent, h, if_true]

theorem withAgent_same {x : Exec α} {s : State} {a : AgentRef}
    (h : ¬s.scope.isNewAgent a = true) : withAgent a x s = x s := by
  simp only [withAgent, h, if_false, Bool.false_eq_true]

end Exec

/-- From which states a step may start, what it keeps of them, and how it may fail. -/
structure Discipline where
  admits : State → Prop
  keeps : State → State → Prop
  raises : Fault → Prop

namespace Discipline

open Exec

variable {α β : Type} {D : Discipline}

/-- From one state, `x` keeps the discipline and `y` does the same as `x`. -/
structure At (D : Discipline) (x y : Exec α) (s : State) : Prop where
  same : y s = x s
  kept : D.keeps s (after x s)
  fault : ∀ e t, x s = .error e t → D.raises e

/-- From every admitted state, `x` keeps the discipline and `y` does the same as `x`. -/
def Rel (D : Discipline) (x y : Exec α) : Prop := ∀ s, D.admits s → D.At x y s

/-- A step that keeps the discipline. -/
abbrev Safe (D : Discipline) (x : Exec α) : Prop := D.Rel x x

/-- What single changes of the state must satisfy. Signals, changes of the world and the value of
the last statement are left out. -/
structure Lawful (D : Discipline) : Prop where
  refl : ∀ s, D.admits s → D.keeps s s
  trans : ∀ s t u, D.keeps s t → D.keeps t u → D.keeps s u
  admitted : ∀ s t, D.admits s → D.keeps s t → D.admits t
  declare : ∀ s name v, D.admits s → D.keeps s { s with scope := s.scope.declare name v }
  assign : ∀ s name v scope, D.admits s → s.scope.setVar name v = some scope →
    D.keeps s { s with scope := scope }
  caught : ∀ s e, D.admits s →
    D.keeps s { s with scope := { s.scope with currentError := some e } }
  machine : ∀ s m, D.admits s → m.world = s.machine.world → D.keeps s ⟨s.scope, m⟩
  frame_in : ∀ s owner caller, D.admits s → D.admits (pushFrame owner caller s)
  frame_out : ∀ s owner caller t, D.admits s → D.keeps (pushFrame owner caller s) t →
    D.keeps s { t with scope := t.scope.pop }
  agent_in : ∀ s a, D.admits s → s.scope.isNewAgent a = true →
    D.admits { s with scope := s.scope.pushAgent a }
  agent_out : ∀ s a t, D.admits s → s.scope.isNewAgent a = true →
    D.keeps { s with scope := s.scope.pushAgent a } t →
    D.keeps s { t with scope := t.scope.popAgent }
  try_in : ∀ s, D.admits s →
    D.admits { s with scope := { s.scope with tryDepth := s.scope.tryDepth + 1 } }
  try_out : ∀ s t, D.admits s →
    D.keeps { s with scope := { s.scope with tryDepth := s.scope.tryDepth + 1 } } t →
    D.keeps s { t with scope := { t.scope with tryDepth := t.scope.tryDepth - 1 } }
  fork_in : ∀ s name, D.admits s → D.admits ⟨s.scope.fork name, s.machine⟩
  fork_out : ∀ s name t, D.admits s → D.keeps ⟨s.scope.fork name, s.machine⟩ t →
    D.keeps s ⟨s.scope, t.machine⟩
  error : ∀ e, (∀ statement, e ≠ .noAgent statement) → D.raises (.error e)
  noAgent : ∀ s statement, D.admits s → s.scope.agent = none →
    D.raises (.error (.noAgent statement))
  outOfFuel : D.raises .outOfFuel

/-! ## Combinators -/

theorem At.ok {x : Exec α} {s t : State} {a : α} (h : x s = .ok a t) (hk : D.keeps s t) :
    D.At x x s := by
  refine ⟨rfl, ?_, ?_⟩
  · rwa [after_ok h]
  · intro e u hu
    rw [h] at hu; cases hu

theorem At.error {x : Exec α} {s t : State} {e : Fault} (h : x s = .error e t)
    (hk : D.keeps s t) (he : D.raises e) : D.At x x s := by
  refine ⟨rfl, ?_, ?_⟩
  · rwa [after_error h]
  · intro e' u hu
    rw [h] at hu; cases hu
    exact he

/-- Where a step ends well, the next one may start. -/
theorem At.admitted (L : Lawful D) {x y : Exec α} {s t : State} {a : α} (h : D.At x y s)
    (hs : D.admits s) (hx : x s = .ok a t) : D.admits t := by
  have hk := h.kept
  rw [after_ok hx] at hk
  exact L.admitted s t hs hk

/-- From one state: the rest may rely on where the first part ended. -/
theorem At.bind (L : Lawful D) {x y : Exec α} {f g : α → Exec β} {s : State}
    (hx : D.At x y s) (hf : ∀ a t, x s = .ok a t → D.At (f a) (g a) t) :
    D.At (x >>= f) (y >>= g) s := by
  obtain ⟨hsame, hkept, hfault⟩ := hx
  cases h : x s with
  | ok a t =>
    rw [h] at hsame
    rw [after_ok h] at hkept
    obtain ⟨hsame', hkept', hfault'⟩ := hf a t h
    refine ⟨?_, ?_, ?_⟩
    · rw [bind_ok h, bind_ok hsame, hsame']
    · have : after (x >>= f) s = after (f a) t := by simp only [after, bind_ok h]
      rw [this]
      exact L.trans s t _ hkept hkept'
    · intro e u hu
      rw [bind_ok h] at hu
      exact hfault' e u hu
  | error e t =>
    rw [h] at hsame
    rw [after_error h] at hkept
    refine ⟨?_, ?_, ?_⟩
    · rw [bind_error h, bind_error hsame]
    · rwa [after_error (bind_error h)]
    · intro e' u hu
      rw [bind_error h] at hu; cases hu
      exact hfault e t h

theorem Rel.bind (L : Lawful D) {x y : Exec α} {f g : α → Exec β} (hx : D.Rel x y)
    (hf : ∀ a, D.Rel (f a) (g a)) : D.Rel (x >>= f) (y >>= g) := by
  intro s hs
  exact At.bind L (hx s hs) fun a t h => hf a t ((hx s hs).admitted L hs h)

theorem Rel.ite {c : Prop} [Decidable c] {x y x' y' : Exec α} (h : c → D.Rel x y)
    (h' : ¬c → D.Rel x' y') : D.Rel (if c then x else x') (if c then y else y') := by
  split
  · exact h ‹_›
  · exact h' ‹_›

/-- Two steps that end alike in one state keep a discipline alike. -/
theorem At.of_eq {x y x' y' : Exec α} {s : State} (h : D.At x y s) (hx : x' s = x s)
    (hy : y' s = y s) : D.At x' y' s := by
  refine ⟨by rw [hx, hy, h.same], ?_, ?_⟩
  · have := h.kept
    simpa only [after, hx] using this
  · intro e t he
    exact h.fault e t (hx ▸ he)

/-- A step that runs another one between two changes of the state. -/
theorem At.bracket {enter leave : State → State} {x y : Exec α} {s : State}
    (hx : D.At x y (enter s)) (hk : ∀ t, D.keeps (enter s) t → D.keeps s (leave t)) :
    D.At (bracket enter leave x) (bracket enter leave y) s := by
  obtain ⟨hsame, hkept, hfault⟩ := hx
  cases h : x (enter s) with
  | ok a t =>
    rw [after_ok h] at hkept
    have hb : Exec.bracket enter leave x s = .ok a (leave t) := bracket_ok h
    refine At.of_eq (At.ok hb (hk t hkept)) rfl ?_
    rw [bracket_ok (hsame.trans h), hb]
  | error e t =>
    rw [after_error h] at hkept
    have hb : Exec.bracket enter leave x s = .error e (leave t) := bracket_error h
    refine At.of_eq (At.error hb (hk t hkept) (hfault e t h)) rfl ?_
    rw [bracket_error (hsame.trans h), hb]

theorem Rel.withFrame (L : Lawful D) {x y : Exec α} (owner : String) (caller : Option AgentRef)
    (h : D.Rel x y) : D.Rel (withFrame owner caller x) (withFrame owner caller y) := fun s hs =>
  At.bracket (h _ (L.frame_in s owner caller hs)) fun t => L.frame_out s owner caller t hs

theorem Rel.withTry (L : Lawful D) {x y : Exec α} (h : D.Rel x y) :
    D.Rel (withTry x) (withTry y) := fun s hs =>
  At.bracket (h _ (L.try_in s hs)) fun t => L.try_out s t hs

theorem Rel.withAgent (L : Lawful D) {x y : Exec α} (a : AgentRef) (h : D.Rel x y) :
    D.Rel (withAgent a x) (withAgent a y) := by
  intro s hs
  by_cases ha : s.scope.isNewAgent a = true
  · refine At.of_eq ?_ (withAgent_new ha) (withAgent_new ha)
    exact At.bracket (h _ (L.agent_in s a hs ha)) fun t => L.agent_out s a t hs ha
  · exact (h s hs).of_eq (withAgent_same ha) (withAgent_same ha)

theorem Lawful.keeps_held (L : Lawful D) {s : State} (held : List (List Value))
    (hs : D.admits s) : D.keeps s { s with machine := { s.machine with held := held } } :=
  L.machine s { s.machine with held := held } hs rfl

theorem At.withHeld (L : Lawful D) {x y : Exec α} {s : State} (vs : List Value)
    (hs : D.admits s) (h : D.At x y (s.holding vs)) : D.At (withHeld vs x) (withHeld vs y) s := by
  refine At.bracket h fun t ht => ?_
  have hk := L.trans _ _ _ (L.keeps_held (vs :: s.machine.held) hs) ht
  exact L.trans _ _ _ hk (L.keeps_held t.machine.held.tail (L.admitted _ _ hs hk))

theorem Lawful.admits_holding (L : Lawful D) {s : State} (vs : List Value) (hs : D.admits s) :
    D.admits (s.holding vs) := L.admitted s _ hs (L.keeps_held (vs :: s.machine.held) hs)

theorem Rel.withHeld (L : Lawful D) {x y : Exec α} (vs : List Value) (h : D.Rel x y) :
    D.Rel (withHeld vs x) (withHeld vs y) := fun _ hs =>
  At.withHeld L vs hs (h _ (L.admits_holding vs hs))

theorem Rel.attempt {x y : Exec α} (h : D.Rel x y) : D.Rel (attempt x) (attempt y) := by
  intro s hs
  obtain ⟨hsame, hkept, hfault⟩ := h s hs
  cases hx : x s with
  | ok a t =>
    rw [after_ok hx] at hkept
    refine At.of_eq (At.ok (attempt_ok hx) hkept) rfl ?_
    rw [attempt_ok (hsame.trans hx), attempt_ok hx]
  | error e t =>
    rw [after_error hx] at hkept
    cases e with
    | error e =>
      refine At.of_eq (At.ok (attempt_error hx) hkept) rfl ?_
      rw [attempt_error (hsame.trans hx), attempt_error hx]
    | outOfFuel =>
      refine At.of_eq (At.error (attempt_outOfFuel hx) hkept (hfault _ t hx)) rfl ?_
      rw [attempt_outOfFuel (hsame.trans hx), attempt_outOfFuel hx]

/-- A copy of the scope is thrown away, so only the machine remembers it. -/
theorem Rel.forked (L : Lawful D) {x y : Exec α} (name : String) (h : D.Rel x y) :
    D.Rel (forked name x) (forked name y) := by
  intro s hs
  obtain ⟨hsame, hkept, hfault⟩ := Rel.attempt (Rel.withHeld L s.scope.holdings h)
    ⟨s.scope.fork name, s.machine⟩ (L.fork_in s name hs)
  cases hx : Exec.attempt (Exec.withHeld s.scope.holdings x) ⟨s.scope.fork name, s.machine⟩ with
  | ok r t =>
    rw [after_ok hx] at hkept
    have hf : Exec.forked name x s = .ok r ⟨s.scope, t.machine⟩ := by simp only [Exec.forked, hx]
    refine At.of_eq (At.ok hf (L.fork_out s name t hs hkept)) rfl ?_
    simp only [Exec.forked, hsame, hx]
  | error e t =>
    rw [after_error hx] at hkept
    have hf : Exec.forked name x s = .error e ⟨s.scope, t.machine⟩ := by
      simp only [Exec.forked, hx]
    refine At.of_eq (At.error hf (L.fork_out s name t hs hkept) (hfault e t hx)) rfl ?_
    simp only [Exec.forked, hsame, hx]

/-- Only errors that the discipline allows come back from a copy of the scope. -/
theorem Rel.forked_raises (L : Lawful D) {x y : Exec α} {name : String} (h : D.Rel x y)
    {s t : State} {e : ExecError} (hs : D.admits s)
    (hx : Exec.forked name x s = .ok (.error e) t) : D.raises (.error e) := by
  unfold Exec.forked at hx
  split at hx
  · rename_i r u hr
    cases hx
    exact (Rel.withHeld L _ h _ (L.fork_in s name hs)).fault _ u (attempt_eq_error hr)
  · cases hx

/-! ## Primitive steps -/

/-- The rest of a step that first looks at the scope. -/
theorem Rel.scope_bind {f g : Scope → Exec β}
    (h : ∀ s, D.admits s → D.At (f s.scope) (g s.scope) s) :
    D.Rel (scope >>= f) (scope >>= g) := fun s hs => (h s hs).of_eq rfl rfl

/-- What is made of a caught error may be raised again. -/
theorem Rel.attempt_bind (L : Lawful D) {x y : Exec α} {f g : Except ExecError α → Exec β}
    (hx : D.Rel x y)
    (hf : ∀ r, (∀ e, r = .error e → D.raises (.error e)) → D.Rel (f r) (g r)) :
    D.Rel (Exec.attempt x >>= f) (Exec.attempt y >>= g) := by
  intro s hs
  refine At.bind L (Rel.attempt hx s hs) fun r t hr => hf r ?_ t ?_
  · intro e hx
    subst hx
    exact (hx s hs).fault _ t (attempt_eq_error hr)
  · exact (Rel.attempt hx s hs).admitted L hs hr

namespace Lawful

variable (L : Lawful D)

include L

theorem safe_pure (a : α) : D.Safe (Pure.pure a : Exec α) := fun s hs =>
  At.ok (t := s) (a := a) rfl (L.refl s hs)

theorem safe_scope : D.Safe scope := fun s hs => At.ok rfl (L.refl s hs)

theorem safe_machine : D.Safe Exec.machine := fun s hs => At.ok rfl (L.refl s hs)

theorem safe_get : D.Safe (get : Exec State) := fun s hs => At.ok rfl (L.refl s hs)

theorem safe_interrupted : D.Safe interrupted := fun s hs => At.ok rfl (L.refl s hs)

theorem safe_fail_of_raises {e : ExecError} (h : D.raises (.error e)) : D.Safe (fail e : Exec α) :=
  fun s hs => At.error rfl (L.refl s hs) h

theorem safe_fail {e : ExecError} (h : ∀ statement, e ≠ .noAgent statement) :
    D.Safe (fail e : Exec α) := L.safe_fail_of_raises (L.error e h)

theorem safe_throw_outOfFuel : D.Safe (throw .outOfFuel : Exec α) := fun s hs =>
  At.error rfl (L.refl s hs) L.outOfFuel

theorem safe_lift {r : Except ExecError α} (h : ∀ e, r = .error e → D.raises (.error e)) :
    D.Safe (lift r) := by
  cases r with
  | ok a => exact L.safe_pure a
  | error e => exact L.safe_fail_of_raises (h e rfl)

/-- A change of the machine that leaves the world alone. -/
theorem safe_modifyMachine {f : Machine → Machine} (hf : ∀ m, (f m).world = m.world) :
    D.Safe (modifyMachine f) := fun s hs =>
  At.ok rfl (L.machine s (f s.machine) hs (hf s.machine))

theorem safe_modifyStore (f : Store → Store) : D.Safe (modifyStore f) := L.safe_modifyMachine fun _ => rfl

theorem safe_onStore (f : Store → α × Store) : D.Safe (onStore f) := fun s hs =>
  At.ok rfl (L.machine s { s.machine with store := (f s.machine.store).2 } hs rfl)

theorem safe_allocate (make : Store → Value × Store) : D.Safe (allocate make) := L.safe_onStore make

theorem safe_agentList (as : List AgentRef) : D.Safe (agentList as) := L.safe_allocate _

theorem safe_compute {f : Env → Eval α} (hf : ∀ env, (f env).Plain) : D.Safe (compute f) := by
  intro s hs
  have hk : ∀ store, D.keeps s ⟨s.scope, { s.machine with store := store }⟩ := fun store =>
    L.machine s { s.machine with store := store } hs rfl
  cases h : f (env s.scope { s.machine with store := .empty }) s.machine.store with
  | ok a store =>
    refine At.ok (t := ⟨s.scope, { s.machine with store := store }⟩) (a := a) ?_ (hk store)
    simp only [Exec.compute, h]
  | error e store =>
    refine At.error (t := ⟨s.scope, { s.machine with store := store }⟩) (e := .error e) ?_
      (hk store) (L.error e (hf _ _ e store h))
    simp only [Exec.compute, h]

theorem safe_eval (e : Expr) : D.Safe (eval e) :=
  L.safe_compute fun env => (e.eval_tame env).releasing.plain

theorem safe_evalOption (e : Option Expr) : D.Safe (evalOption e) := by
  cases e with
  | none => exact L.safe_pure none
  | some e => exact (L.safe_eval e).bind L fun v => L.safe_pure (some v)

theorem safe_evalOrNil (e : Option Expr) : D.Safe (evalOrNil e) :=
  (L.safe_evalOption e).bind L fun v => L.safe_pure (v.getD .nil)

theorem safe_text (v : Value) : D.Safe (text v) := L.safe_machine.bind L fun m => L.safe_pure (m.store.text v)

theorem safe_declare (name : String) (v : Value) : D.Safe (Exec.declare name v) := fun s hs =>
  At.ok rfl (L.declare s name v hs)

theorem keeps_declareAll (vars : List (String × Value)) (s : State) (hs : D.admits s) :
    D.keeps s { s with scope := s.scope.declareAll vars } := by
  induction vars generalizing s with
  | nil => exact L.refl s hs
  | cons v rest ih =>
    have h := L.declare s v.1 v.2 hs
    exact L.trans _ _ _ h (ih _ (L.admitted _ _ hs h))

theorem safe_declareAll (vars : List (String × Value)) :
    D.Safe (modifyScope (·.declareAll vars)) := fun s hs =>
  At.ok rfl (L.keeps_declareAll vars s hs)

theorem safe_store (name : Option String) (v : Value) : D.Safe (store name v) := by
  cases name with
  | none => exact L.safe_pure ()
  | some n => exact L.safe_declare n v

theorem safe_currentAgent (statement : String) : D.Safe (currentAgent statement) := by
  refine Rel.scope_bind fun s hs => ?_
  cases h : s.scope.agent with
  | some a => exact L.safe_pure a s hs
  | none => exact L.safe_fail_of_raises (L.noAgent s statement hs h) s hs

theorem safe_report (severity : Severity) (message : String) :
    D.Safe (report severity message) :=
  L.safe_scope.bind L fun _ => L.safe_modifyMachine fun _ => rfl

theorem safe_warn (message : String) : D.Safe (warn message) :=
  L.safe_machine.bind L fun _ => L.safe_report _ message

/-! ### Arguments -/

theorem safe_evaluate (args : Arguments) : D.Safe args.evaluate := by
  induction args with
  | nil => exact L.safe_pure []
  | cons a rest ih =>
    exact (L.safe_eval a.2).bind L fun v => ih.bind L fun vs => L.safe_pure ((a.1, v) :: vs)

theorem safe_castArgument (type : BaseType) (v : Value) :
    D.Safe (Arguments.castArgument type v) := by
  unfold Arguments.castArgument
  refine Rel.ite (fun _ => L.safe_pure v) fun _ => L.safe_get.bind L fun s => ?_
  cases Store.cast s.machine.world.speciesOf s.machine.store type v with
  | none => exact L.safe_pure v
  | some r => exact (L.safe_modifyStore _).bind L fun _ => L.safe_pure r.1

theorem safe_bindFormals (args : Arguments) (formals : List Formal) :
    D.Safe (Arguments.bindFormals args formals) := by
  induction formals with
  | nil => exact L.safe_pure []
  | cons f rest ih =>
    refine (L.safe_evalOrNil _).bind L fun v => (L.safe_castArgument _ v).bind L fun w => ?_
    exact ih.bind L fun vs => L.safe_pure ((f.name, w) :: vs)

theorem safe_bind (args : Arguments) (formals : List Formal) : D.Safe (args.bind formals) :=
  (L.safe_bindFormals args formals).bind L fun bound =>
    (L.safe_evaluate _).bind L fun others => L.safe_pure (bound ++ others)

end Lawful
end Discipline
end Habitat
