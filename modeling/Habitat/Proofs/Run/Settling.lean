import Habitat.Proofs.Run.Traversal

/-!
# Steps and pending signals

A signal is pending only while nothing fails: an error that starts out without a pending signal
leaves none behind. So whoever catches an error can go on at once.

`Settles x s Q` says this for one step from one state, with what is known about the signal when
the step ends well. Steps that send no signals keep the discipline `calm`; the agents that are
executing are the same after every step (`crew`).

* `Settles.bind`, `Settles.attempt_bind`, `Settles.withFrame`, `Settles.withAgent`: the rules.
* `Tidy`: what is known about the sequences inside a construct.
-/
namespace Habitat

open Exec Discipline

/-! ## Steps that send no signals -/

/-- Without a pending signal only a request to stop interrupts. -/
theorem Exec.interrupted_of_normal {s : State} (hs : s.scope.flow = .normal) :
    interrupted s = .ok s.machine.cancelled s := by
  have hlook : interrupted s = .ok (s.scope.flow.isInterrupting || s.machine.cancelled) s := rfl
  rw [hlook, hs]
  rfl

/-- No signal is pending, and the executing agents are the same. -/
def Discipline.calm : Discipline where
  admits s := s.scope.flow = .normal
  keeps s t := t.scope.flow = .normal ∧ t.scope.agents = s.scope.agents
  raises _ := True

theorem Scope.flow_declare (s : Scope) (name : String) (v : Value) :
    (s.declare name v).flow = s.flow := by
  unfold declare
  split <;> rfl

theorem Scope.agents_declare (s : Scope) (name : String) (v : Value) :
    (s.declare name v).agents = s.agents := by
  unfold declare
  split <;> rfl

theorem Scope.setVar_eq {s t : Scope} {name : String} {v : Value} (h : s.setVar name v = some t) :
    t.flow = s.flow ∧ t.agents = s.agents := by
  obtain ⟨frames, -, rfl⟩ := Option.map_eq_some_iff.mp h
  exact ⟨rfl, rfl⟩

theorem Scope.flow_pop (s : Scope) : s.pop.flow = s.flow := by
  unfold pop
  split <;> rfl

theorem Scope.agents_pop (s : Scope) : s.pop.agents = s.agents := by
  unfold pop
  split <;> rfl

theorem calm_open : Open calm where
  refl _ hs := ⟨hs, rfl⟩
  trans _ _ _ h h' := ⟨h'.1, h'.2.trans h.2⟩
  admitted _ _ _ h := h.1
  declare s name v hs := ⟨(s.scope.flow_declare name v).trans hs, s.scope.agents_declare name v⟩
  assign s name v scope hs h := ⟨(Scope.setVar_eq h).1.trans hs, (Scope.setVar_eq h).2⟩
  caught _ _ hs := ⟨hs, rfl⟩
  machine _ _ hs _ := ⟨hs, rfl⟩
  frame_in _ _ _ hs := hs
  frame_out _ _ _ t _ h := ⟨t.scope.flow_pop.trans h.1, t.scope.agents_pop.trans h.2⟩
  agent_in _ _ hs _ := hs
  agent_out s a t _ _ h := by
    simp only [calm] at h ⊢
    simp [Scope.popAgent, h.1, h.2, Scope.pushAgent, Flow.clear]
  try_in _ hs := hs
  try_out _ _ _ h := h
  fork_in _ _ _ := rfl
  fork_out _ _ _ hs _ := ⟨hs, rfl⟩
  error _ _ := trivial
  noAgent _ _ _ _ := trivial
  outOfFuel := trivial
  world _ _ hs _ := ⟨hs, rfl⟩

theorem calm_lawful : Lawful calm := calm_open.toLawful

/-! ## Rules -/

/-- A step that ends well leaves a signal that satisfies `Q`, and one that fails leaves none. -/
def Settles {α : Type} (x : Exec α) (s : State) (Q : α → Flow → Prop) : Prop :=
  (∀ a t, x s = .ok a t → Q a t.scope.flow) ∧
    ∀ e t, x s = .error (.error e) t → t.scope.flow = .normal

/-- Without a pending signal, a step that fails leaves none. -/
def Clean {α : Type} (x : Exec α) : Prop :=
  ∀ s : State, s.scope.flow = .normal → Settles x s fun _ _ => True

namespace Settles

variable {α β : Type} {s t : State} {x : Exec α} {Q : α → Flow → Prop} {f : α → Exec β}
  {R : β → Flow → Prop}

theorem of_ok {a : α} (h : x s = .ok a t) (hQ : Q a t.scope.flow) : Settles x s Q := by
  refine ⟨?_, ?_⟩
  · intro b u hu
    rw [h] at hu
    cases hu
    exact hQ
  · intro e u hu
    rw [h] at hu
    cases hu

theorem pure {a : α} (hQ : Q a s.scope.flow) : Settles (Pure.pure a) s Q := of_ok rfl hQ

theorem of_error {e : ExecError} (h : x s = .error (.error e) t) (ht : t.scope.flow = .normal) :
    Settles x s Q := by
  refine ⟨?_, ?_⟩
  · intro a u hu
    rw [h] at hu
    cases hu
  · intro e' u hu
    rw [h] at hu
    cases hu
    exact ht

theorem of_outOfFuel (h : x s = .error .outOfFuel t) : Settles x s Q := by
  refine ⟨?_, ?_⟩
  · intro a u hu
    rw [h] at hu
    cases hu
  · intro e u hu
    rw [h] at hu
    cases hu

theorem fail {e : ExecError} (hs : s.scope.flow = .normal) : Settles (Exec.fail e) s Q :=
  of_error rfl hs

/-- A step that fails as another one does. -/
theorem of_fault {y : Exec β} {e : Fault} (hx : Settles x s Q) (h : x s = .error e t)
    {u v : State} (hy : y u = .error e v) (hv : t.scope.flow = .normal → v.scope.flow = .normal) :
    Settles y u R := by
  cases e with
  | error e => exact of_error hy (hv (hx.2 e t h))
  | outOfFuel => exact of_outOfFuel hy

/-- A step that sends no signals. -/
theorem of_at (h : calm.At x x s) : Settles x s fun _ f => f = .normal := by
  have hkept := h.kept
  refine ⟨?_, ?_⟩
  · intro a t ht
    rw [after_ok ht] at hkept
    exact hkept.1
  · intro e t ht
    rw [after_error ht] at hkept
    exact hkept.1

theorem mono {Q' : α → Flow → Prop} (h : Settles x s Q) (hQ : ∀ a f, Q a f → Q' a f) :
    Settles x s Q' := ⟨fun a t ht => hQ a _ (h.1 a t ht), h.2⟩

theorem bind_ok {a : α} (h : x s = .ok a t) (hf : Settles (f a) t R) : Settles (x >>= f) s R := by
  unfold Settles
  rw [Exec.bind_ok h]
  exact hf

/-- The rest starts where the first part ended well. -/
theorem bind (hx : Settles x s Q)
    (hf : ∀ a t, x s = .ok a t → Q a t.scope.flow → Settles (f a) t R) :
    Settles (x >>= f) s R := by
  cases h : x s with
  | ok a t => exact bind_ok h (hf a t h (hx.1 a t h))
  | error e t => exact hx.of_fault h (bind_error h) id

/-- After a step that sends no signals, none is pending. -/
theorem calm_bind (hx : calm.At x x s)
    (hf : ∀ a t, x s = .ok a t → calm.keeps s t → Settles (f a) t R) : Settles (x >>= f) s R := by
  refine (of_at hx).bind fun a t ht _ => hf a t ht ?_
  have hkept := hx.kept
  rwa [after_ok ht] at hkept

theorem ite {c : Prop} [Decidable c] {y : Exec α} (hx : c → Settles x s Q)
    (hy : ¬c → Settles y s Q) : Settles (if c then x else y) s Q := by
  split
  · exact hx ‹_›
  · exact hy ‹_›

theorem bracket {enter leave : State → State} (h : Settles x (enter s) Q)
    (hleave : ∀ t : State, (leave t).scope.flow = t.scope.flow) :
    Settles (Exec.bracket enter leave x) s Q := by
  cases hx : x (enter s) with
  | ok a t =>
    refine of_ok (bracket_ok hx) ?_
    rw [hleave]
    exact h.1 a t hx
  | error e t => exact h.of_fault hx (bracket_error hx) (hleave t).trans

theorem withFrame {owner : String} {caller : Option AgentRef}
    (h : Settles x (pushFrame owner caller s) Q) : Settles (withFrame owner caller x) s Q :=
  bracket h fun t => t.scope.flow_pop

theorem withTry
    (h : Settles x { s with scope := { s.scope with tryDepth := s.scope.tryDepth + 1 } } Q) :
    Settles (withTry x) s Q := bracket h fun _ => rfl

theorem withHeld {vs : List Value} (h : Settles x (s.holding vs) Q) :
    Settles (withHeld vs x) s Q := bracket h fun _ => rfl

/-- A change of the executing agent takes its death with it. -/
theorem withAgent {a : AgentRef} {Q' : α → Flow → Prop}
    (h : ∀ u : State, u.scope.flow = s.scope.flow → Settles x u Q)
    (hnew : ∀ v f, Q v f → s.scope.isNewAgent a = true → Q' v (f.clear .die))
    (hsame : ∀ v f, Q v f → ¬s.scope.isNewAgent a = true → Q' v f) :
    Settles (withAgent a x) s Q' := by
  by_cases ha : s.scope.isNewAgent a = true
  · have hinner := h { s with scope := s.scope.pushAgent a } rfl
    have heq := Exec.withAgent_new (x := x) ha
    cases hx : x { s with scope := s.scope.pushAgent a } with
    | ok v t => exact of_ok (heq.trans (bracket_ok hx)) (hnew v _ (hinner.1 v t hx) ha)
    | error e t =>
      refine hinner.of_fault hx (heq.trans (bracket_error hx)) ?_
      intro ht
      simp [Scope.popAgent, ht, Flow.clear]
  · unfold Settles
    rw [Exec.withAgent_same ha]
    exact (h s rfl).mono fun v f hv => hsame v f hv ha

/-- Whoever catches an error finds no signal. -/
theorem attempt_bind {f : Except ExecError α → Exec β} (hx : Settles x s Q)
    (hok : ∀ a t, Q a t.scope.flow → Settles (f (.ok a)) t R)
    (herr : ∀ e t, t.scope.flow = .normal → Settles (f (.error e)) t R) :
    Settles (attempt x >>= f) s R := by
  cases h : x s with
  | ok a t => exact bind_ok (attempt_ok h) (hok a t (hx.1 a t h))
  | error e t =>
    cases e with
    | error e => exact bind_ok (attempt_error h) (herr e t (hx.2 e t h))
    | outOfFuel => exact of_outOfFuel (bind_error (attempt_outOfFuel h))

theorem takeFlow (owned : Flow) :
    Settles (takeFlow owned) s fun f g => f = s.scope.flow ∧ g = s.scope.flow.clear owned :=
  of_ok rfl ⟨rfl, rfl⟩

/-- The owner of a signal clears it, whether the step ended well or not. -/
theorem owned (hx : Settles x s Q) (owned : Flow) :
    Settles (do
      let r ← attempt x
      let _ ← Exec.takeFlow owned
      lift r) s fun v f => ∃ g, Q v g ∧ f = g.clear owned := by
  refine attempt_bind hx ?_ ?_
  · intro v t hv
    refine (takeFlow owned).bind fun f u _ hf => pure ?_
    exact ⟨t.scope.flow, hv, hf.2⟩
  · intro e t ht
    refine (takeFlow owned).bind fun f u _ hf => fail ?_
    rw [hf.2, ht, Flow.clear]
    split <;> rfl

theorem throw_outOfFuel : Settles (throw .outOfFuel : Exec α) s Q := of_outOfFuel rfl

theorem store (name : Option String) (v : Value) :
    Settles (store name v) s fun _ f => f = s.scope.flow := by
  cases name with
  | none => exact pure rfl
  | some name => exact of_ok rfl (s.scope.flow_declare name v)

end Settles

/-! ## Runs of sequences -/

/-- Every step leaves the executing agents as they were. -/
def Discipline.crew : Discipline where
  admits _ := True
  keeps s t := t.scope.agents = s.scope.agents
  raises _ := True

theorem crew_sound : Sound crew where
  refl _ _ := rfl
  trans _ _ _ h h' := h'.trans h
  admitted _ _ _ _ := trivial
  declare s name v _ := s.scope.agents_declare name v
  assign _ _ _ _ _ h := (Scope.setVar_eq h).2
  record _ _ _ := rfl
  caught _ _ _ := rfl
  machine _ _ _ _ := rfl
  frame_in _ _ _ _ := trivial
  frame_out _ _ _ t _ h := t.scope.agents_pop.trans h
  agent_in _ _ _ _ := trivial
  agent_out _ _ _ _ _ h := congrArg List.tail h
  try_in _ _ := trivial
  try_out _ _ _ h := h
  fork_in _ _ _ := trivial
  fork_out _ _ _ _ _ := rfl
  error _ _ := trivial
  noAgent _ _ _ _ := trivial
  outOfFuel := trivial
  world _ _ _ _ := rfl
  signal _ _ _ := rfl

/-- How sequences run: errors leave no signal, and the executing agents stay. -/
structure Tidy (run : Sequence → Exec Value) : Prop where
  clean : ∀ body, Clean (run body)
  agents : ∀ body, crew.Safe (run body)

theorem Scope.isNewAgent_congr {s t : Scope} (h : t.agents = s.agents) (a : AgentRef) :
    t.isNewAgent a = s.isNewAgent a := by
  simp only [isNewAgent, h]

theorem Flow.normal_of_not_interrupting {f : Flow} (h : ¬f.isInterrupting = true) :
    f = .normal := by
  cases f <;> simp [isInterrupting] at h ⊢

theorem Flow.clear_ne {f g owned : Flow} (h : f ≠ g) (hg : g ≠ .normal) : f.clear owned ≠ g := by
  unfold clear
  split
  · exact hg.symm
  · exact h

end Habitat
