import Habitat.Container.Access
import Habitat.Proofs.World.Change

/-!
# Requests that fail

A request that a list, a map or a matrix refuses leaves it as it was. A graph carries out a request
that names several edges edge by edge, and stops at the first one that it refuses: what came before
has been done (`Store.Halfway`). It refuses an edge whatever other edges it has, so which part of a
request is carried out can be told beforehand.

* `edit_error`: what a failed request leaves.
* `edit_halfway`: where a graph stops.
-/
namespace Habitat

/-- A request for several edges of a graph: what has been asked for before one of them, and that
one alone. -/
inductive Edit.Splits : Edit → Edit → Edit → Prop
  | addAll (index : Value) (first : List Value) (v : Value) (rest : List Value) :
    Splits (.addAll (some index) (first ++ v :: rest)) (.addAll (some index) first)
      (.insert index v)
  | removeAllAt (first : List Value) (index : Value) (rest : List Value) :
    Splits (.removeAllAt (first ++ index :: rest)) (.removeAllAt first) (.removeAt index)

namespace Editing

variable {α β : Type}

/-- What a change leaves, whatever its outcome. -/
def after (change : Editing α β) (a : α) : α := (change.on a).2

theorem get_bind_apply (f : α → Editing α β) (a : α) : (get >>= f) a = f a a := rfl

/-- The change fails whatever there is to change, and changes nothing. -/
def Refuses (x : Editing α Unit) (e : ContainerError) : Prop := ∀ a, x a = .error e a

/-- Which changes are refused does not depend on what there is to change. -/
def Steady (change : β → Editing α Unit) : Prop :=
  ∀ b a e c, change b a = .error e c → (change b).Refuses e

theorem Refuses.of_error {x : Editing α Unit} {e e' : ContainerError} {a b : α}
    (hx : x.Refuses e') (h : x a = .error e b) : x.Refuses e := by
  rw [hx a] at h
  cases h
  exact hx

theorem then_done_eq_error {x : Editing α Unit} {a b : α} {e : ContainerError} :
    (x >>= fun _ => pure EditReply.done) a = .error e b ↔ x a = .error e b := by
  simp only [bind, EStateM.bind]
  cases x a <;> simp [pure, EStateM.pure]

theorem then_done_eq_ok {x : Editing α Unit} {a b : α} :
    (x >>= fun _ => pure EditReply.done) a = .ok .done b ↔ x a = .ok () b := by
  simp only [bind, EStateM.bind]
  cases x a <;> simp [pure, EStateM.pure]

theorem after_then_done (x : Editing α Unit) (a : α) :
    (x >>= fun _ => pure EditReply.done).after a = x.after a := by
  simp only [after, on, bind, EStateM.bind]
  cases x a <;> rfl

theorem editEach_cons_of_ok {change : β → Editing α Unit} {b : β} {rest : List β} {a c : α}
    (h : change b a = .ok () c) : editEach change (b :: rest) a = editEach change rest c := by
  simp only [editEach, bind, EStateM.bind, h]

theorem editEach_cons_of_error {change : β → Editing α Unit} {b : β} {rest : List β} {a c : α}
    {e : ContainerError} (h : change b a = .error e c) :
    editEach change (b :: rest) a = .error e c := by
  simp only [editEach, bind, EStateM.bind, h]

/-- What every change keeps is kept by a change for each value, even if it stops halfway. -/
theorem after_editEach {P : α → Prop} {change : β → Editing α Unit} {bs : List β}
    (h : ∀ b ∈ bs, ∀ a, P a → P ((change b).after a)) {a : α} (ha : P a) :
    P ((editEach change bs).after a) := by
  induction bs generalizing a with
  | nil => exact ha
  | cons b rest ih =>
    obtain ⟨hb, hrest⟩ := List.forall_mem_cons.mp h
    have hnext := hb a ha
    unfold after on at hnext ⊢
    cases hr : change b a with
    | ok u c =>
      rw [hr] at hnext
      rw [editEach_cons_of_ok hr]
      exact ih hrest hnext
    | error e c =>
      rw [hr] at hnext
      rwa [editEach_cons_of_error hr]

/-- Steady changes stop at the first one that is refused. -/
theorem Steady.editEach_eq_error_iff {change : β → Editing α Unit} (hsteady : Steady change)
    {bs : List β} {a c : α} {e : ContainerError} :
    editEach change bs a = .error e c ↔
      ∃ first b rest, bs = first ++ b :: rest ∧ editEach change first a = .ok () c ∧
        (change b).Refuses e := by
  constructor
  · intro h
    induction bs generalizing a with
    | nil => cases h
    | cons b rest ih =>
      cases hb : change b a with
      | ok u m =>
        rw [editEach_cons_of_ok hb] at h
        obtain ⟨first, d, last, rfl, hfirst, hd⟩ := ih h
        exact ⟨b :: first, d, last, rfl, by rw [editEach_cons_of_ok hb, hfirst], hd⟩
      | error e' m =>
        have hr := hsteady b a e' m hb
        rw [editEach_cons_of_error (hr a)] at h
        cases h
        exact ⟨[], b, rest, rfl, rfl, hr⟩
  · rintro ⟨first, b, rest, rfl, hfirst, hb⟩
    induction first generalizing a with
    | nil =>
      cases hfirst
      exact editEach_cons_of_error (hb _)
    | cons d first ih =>
      cases hd : change d a with
      | ok u m =>
        rw [editEach_cons_of_ok hd] at hfirst
        rw [List.cons_append, editEach_cons_of_ok hd, ih hfirst]
      | error e' m =>
        rw [editEach_cons_of_error hd] at hfirst
        cases hfirst

end Editing

namespace GraphCell

open Editing

variable {s : Store}

theorem steady_putAt (s : Store) (index : Value) : Steady (putAt s index) := by
  intro v g e g' h
  cases hi : endpoints s index with
  | error e' =>
    have hr : (putAt s index v).Refuses e' := fun c => by simp only [putAt, hi]; rfl
    exact hr.of_error h
  | ok ends =>
    cases hw : weightOf s v with
    | error e' =>
      have hr : (putAt s index v).Refuses e' := fun c => by simp only [putAt, hi, hw]; rfl
      exact hr.of_error h
    | ok w =>
      simp only [putAt, hi, hw] at h
      cases h

theorem steady_removeAt (s : Store) : Steady (removeAt s) := by
  intro index g e g' h
  cases hi : endpoints s index with
  | error e' =>
    have hr : (removeAt s index).Refuses e' := fun c => by simp only [removeAt, hi]; rfl
    exact hr.of_error h
  | ok ends =>
    simp only [removeAt, hi] at h
    cases h

/-- A graph that refuses a request is as it was, or has carried out the first part of it. -/
theorem edit_eq_error {request : Edit} {g g' : GraphCell} {e : ContainerError}
    (h : edit s request g = .error e g') :
    g' = g ∨ ∃ begun step, request.Splits begun step ∧ edit s begun g = .ok .done g' ∧
      edit s step g = .error e g := by
  cases request with
  | insert index v | put index v =>
    have hput : putAt s index v g = .error e g' := then_done_eq_error.mp h
    rw [steady_putAt s index v g e g' hput g] at hput
    cases hput
    exact .inl rfl
  | addAll index vs =>
    cases index with
    | none => cases h
    | some index =>
      have heach : editEach (putAt s index) vs g = .error e g' := then_done_eq_error.mp h
      obtain ⟨first, v, rest, rfl, hfirst, hv⟩ :=
        (steady_putAt s index).editEach_eq_error_iff.mp heach
      exact .inr ⟨_, _, .addAll index first v rest, then_done_eq_ok.mpr hfirst,
        then_done_eq_error.mpr (hv g)⟩
  | fill v =>
    cases hw : weightOf s v with
    | error e' =>
      have hfill : edit s (.fill v) g = .error e' g := by simp only [edit, hw]; rfl
      rw [hfill] at h
      cases h
      exact .inl rfl
    | ok w =>
      simp only [edit, hw] at h
      cases h
  | removeAt index =>
    have hremove : removeAt s index g = .error e g' := then_done_eq_error.mp h
    rw [steady_removeAt s index g e g' hremove g] at hremove
    cases hremove
    exact .inl rfl
  | removeAllAt indexes =>
    have heach : editEach (removeAt s) indexes g = .error e g' := then_done_eq_error.mp h
    obtain ⟨first, index, rest, rfl, hfirst, hindex⟩ :=
      (steady_removeAt s).editEach_eq_error_iff.mp heach
    exact .inr ⟨_, _, .removeAllAt first index rest, then_done_eq_ok.mpr hfirst,
      then_done_eq_error.mpr (hindex g)⟩
  | _ => cases h

/-- A graph carries out the part of a request before the first edge that it refuses. -/
theorem edit_of_splits {request begun step : Edit} {g g' : GraphCell} {e : ContainerError}
    (hsplits : request.Splits begun step) (hbegun : edit s begun g = .ok .done g')
    (hstep : edit s step g = .error e g) : edit s request g = .error e g' := by
  cases hsplits with
  | addAll index first v rest =>
    have hput : putAt s index v g = .error e g := then_done_eq_error.mp hstep
    refine then_done_eq_error.mpr ((steady_putAt s index).editEach_eq_error_iff.mpr ?_)
    exact ⟨first, v, rest, rfl, then_done_eq_ok.mp hbegun, steady_putAt s index v g e g hput⟩
  | removeAllAt first index rest =>
    have hremove : removeAt s index g = .error e g := then_done_eq_error.mp hstep
    refine then_done_eq_error.mpr ((steady_removeAt s).editEach_eq_error_iff.mpr ?_)
    exact ⟨first, index, rest, rfl, then_done_eq_ok.mp hbegun,
      steady_removeAt s index g e g hremove⟩

end GraphCell

namespace MapCell

theorem sublist_removeFirst {eq : Value → Value → Bool} {v : Value} {es rest : List (Value × Value)}
    (h : removeFirst eq v es = some rest) : rest.Sublist es := by
  induction es generalizing rest with
  | nil => cases h
  | cons e tail ih =>
    unfold removeFirst at h
    split at h
    · cases h
      exact List.sublist_cons_self e tail
    · obtain ⟨tail', htail, rfl⟩ := Option.map_eq_some_iff.mp h
      exact (ih htail).cons_cons e

/-- Maps refuse nothing. -/
theorem edit_ne_error (s : Store) (request : Edit) (m m' : MapCell) (e : ContainerError) :
    MapCell.edit s request m ≠ .error e m' := by
  intro h
  cases request with
  | addAll index vs => cases index <;> cases h
  | remove v =>
    unfold edit at h
    rw [Editing.get_bind_apply] at h
    dsimp only at h
    cases hr : removeFirst s.eq v m.entries <;> rw [hr] at h <;> cases h
  | _ => cases h

end MapCell

namespace Store

/-- A graph has carried out the part `begun` of a request, and refused the next edge. -/
def Halfway (s : Store) (target : Value) (request : Edit) (e : ContainerError) (t : Store) :
    Prop :=
  ∃ r begun step, target = .graph r ∧ request.Splits begun step ∧
    s.edit target begun = (.ok .done, t) ∧ s.edit target step = (.error e, s)

theorem edit_graph_of_ok {s : Store} {r : Nat} {request : Edit} {reply : EditReply}
    {g : GraphCell} (h : GraphCell.edit s request (s.graphs.get r) = .ok reply g) :
    s.edit (.graph r) request = (.ok reply, { s with graphs := s.graphs.set r g }) := by
  simp only [edit, Editing.on, h]

theorem edit_graph_of_error {s : Store} {r : Nat} {request : Edit} {e : ContainerError}
    {g : GraphCell} (h : GraphCell.edit s request (s.graphs.get r) = .error e g) :
    s.edit (.graph r) request = (.error e, { s with graphs := s.graphs.set r g }) := by
  simp only [edit, Editing.on, h]

/-- A failed request leaves all containers as they were, or it was one for several edges of a
graph that stopped halfway. -/
theorem edit_error {s t : Store} {target : Value} {request : Edit} {e : ContainerError}
    (h : s.edit target request = (.error e, t)) : t = s ∨ s.Halfway target request e t := by
  cases target with
  | list r | matrix r =>
    unfold edit at h
    dsimp only at h
    split at h
    · cases h
    · cases h; exact .inl rfl
  | map r =>
    cases hm : MapCell.edit s request (s.maps.get r) with
    | ok reply m =>
      simp only [edit, Editing.on, hm] at h
      cases h
    | error e' m => exact absurd hm (MapCell.edit_ne_error s request _ m e')
  | graph r =>
    cases hg : GraphCell.edit s request (s.graphs.get r) with
    | ok reply g =>
      rw [edit_graph_of_ok hg] at h
      cases h
    | error e' g =>
      rw [edit_graph_of_error hg] at h
      cases h
      rcases GraphCell.edit_eq_error hg with rfl | ⟨begun, step, hsplits, hbegun, hstep⟩
      · left
        rw [Heap.set_get_self]
      · refine .inr ⟨r, begun, step, rfl, hsplits, edit_graph_of_ok hbegun, ?_⟩
        rw [edit_graph_of_error hstep, Heap.set_get_self]
  | _ => cases h

/-- The request that a graph has carried out halfway fails, and leaves the graph so. -/
theorem edit_halfway {s t : Store} {target : Value} {request : Edit} {e : ContainerError}
    (h : s.Halfway target request e t) : s.edit target request = (.error e, t) := by
  obtain ⟨r, begun, step, rfl, hsplits, hbegun, hstep⟩ := h
  cases hb : GraphCell.edit s begun (s.graphs.get r) with
  | error e' g =>
    rw [edit_graph_of_error hb] at hbegun
    cases hbegun
  | ok reply g =>
    rw [edit_graph_of_ok hb] at hbegun
    cases hbegun
    cases hs : GraphCell.edit s step (s.graphs.get r) with
    | ok reply g =>
      rw [edit_graph_of_ok hs] at hstep
      cases hstep
    | error e' g' =>
      rw [edit_graph_of_error hs] at hstep
      obtain ⟨he, _⟩ := Prod.mk.inj hstep
      cases he
      have hg' : g' = s.graphs.get r := by
        rcases GraphCell.edit_eq_error hs with heq | ⟨_, _, hsplits', _⟩
        · exact heq
        · cases hsplits <;> cases hsplits'
      rw [hg'] at hs
      exact edit_graph_of_error (GraphCell.edit_of_splits hsplits hb hs)

end Store
end Habitat
