import Habitat.Proofs.Run.Traversal
import Mathlib.Data.List.Induction

/-!
# What a run does to the slot of the last statement

A scope keeps the value of the statement that completed last, at any depth of nesting, in a slot.
A statement that completes puts its value there, and a `try` that begins puts nil there; both are
marks. `Recorded` is a step of execution together with its marks, and with the fact that the slot
holds what the marks say, on every way out. Whatever is built with the combinators below brings
this fact along.

* `Recorded.silent`, `Recorded.mark`: steps without marks, and with one.
* `Recorded.bind`, `Recorded.attempt`, `Recorded.bracket`, `Recorded.withAgent`: the combinators.
* `Mark.slot_nil`: what a slot that was empty holds after marks.
-/
namespace Habitat

open Exec Discipline

/-! ## Marks -/

/-- What a run does to the value of the statement that completed last. -/
inductive Mark where
  /-- A statement completed with a value. -/
  | done (v : Value)
  /-- A `try` began. -/
  | tried

namespace Mark

/-- What the slot holds after a mark. -/
def value : Mark → Value
  | .done v => v
  | .tried => .nil

/-- What a slot with a value holds after marks. -/
def slot (v : Value) (ms : List Mark) : Value := ms.foldl (fun _ m => m.value) v

theorem slot_append (v : Value) (ms ns : List Mark) : slot v (ms ++ ns) = slot (slot v ms) ns :=
  List.foldl_append

theorem slot_concat (v : Value) (ms : List Mark) (m : Mark) : slot v (ms ++ [m]) = m.value :=
  slot_append v ms [m]

/-- The value of a statement that completed. -/
def done? : Mark → Option Value
  | .done v => some v
  | .tried => none

/-- The value of the statement that completed last, nil if none did. -/
def lastDone (ms : List Mark) : Value := (ms.filterMap done?).getLast?.getD .nil

theorem lastDone_done (ms : List Mark) (v : Value) : lastDone (ms ++ [.done v]) = v := by
  simp [lastDone, done?]

theorem lastDone_tried (ms : List Mark) : lastDone (ms ++ [.tried]) = lastDone ms := by
  simp [lastDone, done?]

theorem lastDone_replicate (ms : List Mark) (k : Nat) :
    lastDone (ms ++ List.replicate k .tried) = lastDone ms := by
  induction k with
  | zero => rw [List.replicate_zero, List.append_nil]
  | succ k ih => rw [List.replicate_succ', ← List.append_assoc, lastDone_tried, ih]

/-- The statement that completed last has a value, and a `try` has begun since. -/
def Forgets (ms : List Mark) : Prop :=
  ∃ before v k, v ≠ .nil ∧ ms = before ++ .done v :: List.replicate (k + 1) .tried

theorem slot_of_forgets {ms : List Mark} (h : Forgets ms) (v : Value) :
    slot v ms = .nil ∧ lastDone ms ≠ .nil := by
  obtain ⟨before, w, k, hw, rfl⟩ := h
  refine ⟨?_, ?_⟩
  · rw [List.replicate_succ', ← List.cons_append, ← List.append_assoc, slot_concat]
    rfl
  · rwa [List.append_cons, lastDone_replicate, lastDone_done]

/-- After the statement that completed last there are only beginnings of `try`. -/
theorem eq_of_lastDone_ne {ms : List Mark} (h : lastDone ms ≠ .nil) :
    ∃ before k, ms = before ++ .done (lastDone ms) :: List.replicate k .tried := by
  induction ms using List.reverseRecOn with
  | nil => exact absurd rfl h
  | append_singleton ms m ih =>
    cases m with
    | done v => exact ⟨ms, 0, by rw [lastDone_done]; rfl⟩
    | tried =>
      rw [lastDone_tried] at h ⊢
      obtain ⟨before, k, hms⟩ := ih h
      refine ⟨before, k + 1, ?_⟩
      rw [List.replicate_succ', ← List.cons_append, ← List.append_assoc, ← hms]

/-- Unless it forgets it, an empty slot holds the value of the statement that completed last. -/
theorem slot_nil {ms : List Mark} (h : ¬Forgets ms) : slot .nil ms = lastDone ms := by
  induction ms using List.reverseRecOn with
  | nil => rfl
  | append_singleton ms m _ =>
    cases m with
    | done v => rw [slot_concat, lastDone_done]; rfl
    | tried =>
      rw [slot_concat]
      by_contra hne
      obtain ⟨before, k, hms⟩ := eq_of_lastDone_ne (Ne.symm hne)
      cases k with
      | zero =>
        obtain ⟨-, hm⟩ := List.append_inj' hms rfl
        cases hm
      | succ k => exact h ⟨before, _, k, Ne.symm hne, hms⟩

end Mark

/-! ## Steps without marks -/

theorem Scope.lastValue_declare (s : Scope) (name : String) (v : Value) :
    (s.declare name v).lastValue = s.lastValue := by
  unfold declare
  split <;> rfl

theorem Scope.lastValue_pop (s : Scope) : s.pop.lastValue = s.lastValue := by
  unfold pop
  split <;> rfl

/-- No step changes the value of the statement that completed last. -/
def Discipline.idle : Discipline where
  admits _ := True
  keeps s t := t.scope.lastValue = s.scope.lastValue
  raises _ := True

theorem idle_open : Open idle where
  refl _ _ := rfl
  trans _ _ _ h h' := h'.trans h
  admitted _ _ _ _ := trivial
  declare s name v _ := s.scope.lastValue_declare name v
  assign s name v scope _ h := by
    obtain ⟨frames, -, rfl⟩ := Option.map_eq_some_iff.mp h
    rfl
  caught _ _ _ := rfl
  machine _ _ _ _ := rfl
  frame_in _ _ _ _ := trivial
  frame_out _ _ _ t _ h := t.scope.lastValue_pop.trans h
  agent_in _ _ _ _ := trivial
  agent_out _ _ _ _ _ h := h
  try_in _ _ := trivial
  try_out _ _ _ h := h
  fork_in _ _ _ := trivial
  fork_out _ _ _ _ _ := rfl
  error _ _ := trivial
  noAgent _ _ _ _ := trivial
  outOfFuel := trivial
  world _ _ _ _ := rfl

theorem idle_lawful : Lawful idle := idle_open.toLawful

theorem idle_mobile : Mobile idle := idle_open.mobile

theorem idle_takeFlow (owned : Flow) : idle.Safe (takeFlow owned) := fun _ _ => At.ok rfl rfl

theorem idle_setFlow (f : Flow) : idle.Safe (setFlow f) := fun _ _ => At.ok rfl rfl

/-- Whatever happens in a copy of the scope, the scope itself is the same afterwards. -/
theorem idle_forked {α : Type} (name : String) (x : Exec α) : idle.Safe (forked name x) := by
  intro s _
  refine ⟨rfl, ?_, fun _ _ _ => trivial⟩
  unfold after forked
  cases Exec.attempt (Exec.withHeld s.scope.holdings x) ⟨s.scope.fork name, s.machine⟩ <;> rfl

theorem idle_runForked (remote : AgentRef → Exec RemoteResult) (targets : List AgentRef) :
    idle.Safe (runForked remote targets) := by
  have L := idle_lawful
  induction targets with
  | nil => exact L.safe_pure []
  | cons a rest ih =>
    refine L.safe_scope.bind L fun s => (idle_forked _ _).bind L fun r => ?_
    exact (Rel.withHeld L _ ih).bind L fun rs => L.safe_pure (r :: rs)

theorem idle_moveAgent (a : AgentRef) (p : Population) : idle.Safe (moveAgent a p) := by
  intro s _
  by_cases h : s.machine.policy.stuck.contains a.name = true
  · exact At.ok (moveAgent_stuck h) rfl
  · exact At.ok (moveAgent_free h) rfl

theorem idle_moveAll {destination : AgentRef → Exec (Option Population)}
    (h : ∀ a, idle.Safe (destination a)) (as : List AgentRef) :
    idle.Safe (moveAll destination as) := by
  have L := idle_lawful
  induction as with
  | nil => exact L.safe_pure _
  | cons a rest ih =>
    unfold moveAll
    extract_lets go
    have hgo : ∀ moved, idle.Safe (go moved) := fun moved => ih.bind L fun r => L.safe_pure _
    refine (h a).bind L fun o => ?_
    cases o with
    | none => exact (L.safe_pure false).bind L hgo
    | some p => exact (idle_moveAgent a p).bind L fun e => (L.safe_pure _).bind L hgo

/-- Telling an error as a foreign one changes no state. -/
theorem Exec.after_asForeign {α : Type} (x : Exec α) (s : State) :
    after (asForeign x) s = after x s := by
  unfold after asForeign
  cases x s with
  | ok a t => rfl
  | error e t => cases e <;> rfl

/-! ## Recorded steps -/

/-- A step and its marks. The slot holds what the marks say, on every way out. -/
structure Recorded (α : Type) where
  run : Exec α
  marks : State → List Mark
  slot_marks : ∀ s, (after run s).scope.lastValue = Mark.slot s.scope.lastValue (marks s)

namespace Recorded

variable {α β : Type}

/-- A step during which no statement completes. -/
def silent (x : Exec α) (h : idle.Safe x) : Recorded α :=
  ⟨x, fun _ => [], fun s => (h s trivial).kept⟩

/-- The marks of a step, and those of the rest if the step ends well. -/
def bind (x : Recorded α) (f : α → Recorded β) : Recorded β where
  run := x.run >>= fun a => (f a).run
  marks s := x.marks s ++
    match x.run s with
    | .ok a t => (f a).marks t
    | .error _ _ => []
  slot_marks s := by
    have hx := x.slot_marks s
    cases h : x.run s with
    | ok a t =>
      rw [after_ok h] at hx
      rw [Mark.slot_append, ← hx, ← (f a).slot_marks t]
      simp only [after, bind_ok h]
    | error e t =>
      rw [after_error h] at hx
      rw [after_error (bind_error h), List.append_nil, hx]

instance : Monad Recorded where
  pure a := silent (Pure.pure a) (idle_lawful.safe_pure a)
  bind := bind

@[simp]
theorem run_pure (a : α) : (Pure.pure a : Recorded α).run = Pure.pure a := rfl

@[simp]
theorem run_bind (x : Recorded α) (f : α → Recorded β) :
    (x >>= f).run = x.run >>= fun a => (f a).run := rfl

@[simp]
theorem run_silent (x : Exec α) (h : idle.Safe x) : (silent x h).run = x := rfl

@[simp]
theorem run_ite {c : Prop} [Decidable c] (x y : Recorded α) :
    (if c then x else y).run = if c then x.run else y.run := by
  split <;> rfl

theorem marks_bind_ok {x : Recorded α} {f : α → Recorded β} {s t : State} {a : α}
    (h : x.run s = .ok a t) : (x >>= f).marks s = x.marks s ++ (f a).marks t := by
  show x.marks s ++ _ = _
  rw [h]

theorem marks_bind_error {x : Recorded α} {f : α → Recorded β} {s t : State} {e : Fault}
    (h : x.run s = .error e t) : (x >>= f).marks s = x.marks s := by
  show x.marks s ++ _ = _
  rw [h]
  exact List.append_nil _

/-- Puts a value into the slot. -/
def mark (m : Mark) : Recorded Unit := ⟨recordValue m.value, fun _ => [m], fun _ => rfl⟩

/-- The error of a step as a value. -/
def attempt (x : Recorded α) : Recorded (Except ExecError α) :=
  ⟨Exec.attempt x.run, x.marks, fun s => by rw [after_attempt, x.slot_marks]⟩

/-- Whatever goes wrong in the program around a model is a foreign error. -/
def asForeign (x : Recorded α) : Recorded α :=
  ⟨Exec.asForeign x.run, x.marks, fun s => by rw [after_asForeign, x.slot_marks]⟩

/-- A step between two changes of the state that leave the slot alone. -/
def bracket (enter leave : State → State)
    (henter : ∀ s, (enter s).scope.lastValue = s.scope.lastValue)
    (hleave : ∀ s, (leave s).scope.lastValue = s.scope.lastValue) (x : Recorded α) :
    Recorded α :=
  ⟨Exec.bracket enter leave x.run, fun s => x.marks (enter s), fun s => by
    rw [after_bracket, hleave, x.slot_marks, henter]⟩

def withFrame (owner : String) (caller : Option AgentRef) (x : Recorded α) : Recorded α :=
  bracket (pushFrame owner caller) (fun s => { s with scope := s.scope.pop }) (fun _ => rfl)
    (fun s => s.scope.lastValue_pop) x

def withTry (x : Recorded α) : Recorded α :=
  bracket (fun s => { s with scope := { s.scope with tryDepth := s.scope.tryDepth + 1 } })
    (fun s => { s with scope := { s.scope with tryDepth := s.scope.tryDepth - 1 } }) (fun _ => rfl)
    (fun _ => rfl) x

def withHeld (vs : List Value) (x : Recorded α) : Recorded α :=
  bracket (fun s => { s with machine := { s.machine with held := vs :: s.machine.held } })
    (fun s => { s with machine := { s.machine with held := s.machine.held.tail } }) (fun _ => rfl)
    (fun _ => rfl) x

/-- Runs a step on behalf of an agent. -/
def withAgent (a : AgentRef) (x : Recorded α) : Recorded α :=
  let pushed := bracket (fun s => { s with scope := s.scope.pushAgent a })
    (fun s => { s with scope := s.scope.popAgent }) (fun _ => rfl) (fun _ => rfl) x
  { run := Exec.withAgent a x.run
    marks := fun s => if s.scope.isNewAgent a then pushed.marks s else x.marks s
    slot_marks := fun s => by
      by_cases h : s.scope.isNewAgent a = true
      · have hpushed := pushed.slot_marks s
        simp only [after, withAgent_new h, h, if_true] at hpushed ⊢
        exact hpushed
      · have hx := x.slot_marks s
        simp only [after, withAgent_same h, h] at hx ⊢
        exact hx }

@[simp]
theorem run_attempt (x : Recorded α) : (attempt x).run = Exec.attempt x.run := rfl

@[simp]
theorem run_withFrame (owner : String) (caller : Option AgentRef) (x : Recorded α) :
    (withFrame owner caller x).run = Exec.withFrame owner caller x.run := rfl

@[simp]
theorem run_withTry (x : Recorded α) : (withTry x).run = Exec.withTry x.run := rfl

@[simp]
theorem run_withHeld (vs : List Value) (x : Recorded α) :
    (withHeld vs x).run = Exec.withHeld vs x.run := rfl

@[simp]
theorem run_withAgent (a : AgentRef) (x : Recorded α) :
    (withAgent a x).run = Exec.withAgent a x.run := rfl

/-- The rest of a step, and where it starts. It relies on a property of the value. -/
def rest {P : α → Prop} (f : ∀ a, P a → Recorded β) (r : EStateM.Result Fault State α)
    (hr : ∀ a t, r = .ok a t → P a) : Recorded β × State :=
  match r, hr with
  | .ok a t, hr => (f a (hr a t rfl), t)
  | .error e t, _ => (silent (throw e) fun _ _ => At.error rfl rfl trivial, t)

/-- A step during which no statement completes, with a rest that relies on a property of its
value. -/
def silentThen (x : Exec α) (h : idle.Safe x) {P : α → Prop}
    (hP : ∀ s a t, x s = .ok a t → P a) (f : ∀ a, P a → Recorded β) : Recorded β where
  run s := (rest f (x s) (hP s)).1.run (rest f (x s) (hP s)).2
  marks s := (rest f (x s) (hP s)).1.marks (rest f (x s) (hP s)).2
  slot_marks s := by
    have hstart : ∀ r hr, (rest f r hr).2 = after (fun _ => r) s := by
      intro r hr
      cases r <;> rfl
    have hkept : (rest f (x s) (hP s)).2.scope.lastValue = s.scope.lastValue := by
      rw [hstart]
      exact (h s trivial).kept
    rw [← hkept]
    exact (rest f (x s) (hP s)).1.slot_marks _

theorem run_silentThen {x : Exec α} (h : idle.Safe x) {P : α → Prop}
    (hP : ∀ s a t, x s = .ok a t → P a) (f : ∀ a, P a → Recorded β) {g : α → Exec β}
    (hfg : ∀ a ha, (f a ha).run = g a) : (silentThen x h hP f).run = x >>= g := by
  have hrest : ∀ r hr s, (rest f r hr).1.run (rest f r hr).2 = ((fun _ => r) >>= g) s := by
    intro r hr s
    cases r with
    | ok a t => exact congrFun (hfg a _) t
    | error e t => rfl
  funext s
  exact hrest (x s) (hP s) s

theorem marks_withFrame (owner : String) (caller : Option AgentRef) (x : Recorded α) (s : State) :
    (withFrame owner caller x).marks s = x.marks (pushFrame owner caller s) := rfl

theorem marks_withTry (x : Recorded α) (s : State) : (withTry x).marks s =
    x.marks { s with scope := { s.scope with tryDepth := s.scope.tryDepth + 1 } } := rfl

/-! ### Primitive steps -/

abbrev eval (e : Expr) : Recorded Value := silent (Exec.eval e) (idle_lawful.safe_eval e)

abbrev evalOrNil (e : Option Expr) : Recorded Value :=
  silent (Exec.evalOrNil e) (idle_lawful.safe_evalOrNil e)

abbrev text (v : Value) : Recorded String := silent (Exec.text v) (idle_lawful.safe_text v)

abbrev scope : Recorded Scope := silent Exec.scope idle_lawful.safe_scope

abbrev machine : Recorded Machine := silent Exec.machine idle_lawful.safe_machine

abbrev interrupted : Recorded Bool := silent Exec.interrupted idle_lawful.safe_interrupted

abbrev currentAgent (statement : String) : Recorded AgentRef :=
  silent (Exec.currentAgent statement) (idle_lawful.safe_currentAgent statement)

abbrev fail (e : ExecError) : Recorded α :=
  silent (Exec.fail e) (idle_lawful.safe_fail_of_raises trivial)

abbrev outOfFuel : Recorded α := silent (throw .outOfFuel) idle_lawful.safe_throw_outOfFuel

abbrev lift (r : Except ExecError α) : Recorded α :=
  silent (Exec.lift r) (idle_lawful.safe_lift fun _ _ => trivial)

abbrev store (name : Option String) (v : Value) : Recorded Unit :=
  silent (Exec.store name v) (idle_lawful.safe_store name v)

abbrev takeFlow (owned : Flow) : Recorded Flow :=
  silent (Exec.takeFlow owned) (idle_takeFlow owned)

abbrev setFlow (f : Flow) : Recorded Unit := silent (Exec.setFlow f) (idle_setFlow f)

end Recorded
end Habitat
