import Habitat.Store.Cast
import Habitat.Store.Equality
import Habitat.Proofs.World.Change
import Mathlib.Data.List.Forall2

/-!
# Values that differ in the numbers of their lists

A computation that makes lists gives them the next numbers there are, so in two stores it makes
the same lists under different numbers. `Value.Twin L` relates such values: `L` pairs the lists.
`Store.Paired L` says that paired lists have the same contents, and that what a list contains was
made before it.

* `tree_twin`, `text_twin`, `eq_twin`, `elements_twin`: nobody can tell twins apart.
* `paired_addList`: two new lists with the same contents make a new pair.
-/
namespace Habitat

namespace Value

/-- The same value up to the numbers of lists. Neither refers to an agent or another container. -/
inductive Twin (L : Nat → Nat → Prop) : Value → Value → Prop
  | nil : Twin L .nil .nil
  | bool (b : Bool) : Twin L (.bool b) (.bool b)
  | int (n : Int64) : Twin L (.int n) (.int n)
  | float (x : Float) : Twin L (.float x) (.float x)
  | str (s : String) : Twin L (.str s) (.str s)
  | point (x y : Float) : Twin L (.point x y) (.point x y)
  | species (name : String) : Twin L (.species name) (.species name)
  | pair {a b a' b' : Value} (ha : Twin L a a') (hb : Twin L b b') :
    Twin L (.pair a b) (.pair a' b')
  | list {r q : Nat} (h : L r q) : Twin L (.list r) (.list q)

variable {L L' : Nat → Nat → Prop} {v w : Value}

theorem Twin.mono (h : Twin L v w) (hL : ∀ r q, L r q → L' r q) : Twin L' v w := by
  induction h with
  | pair _ _ iha ihb => exact .pair iha ihb
  | list h => exact .list (hL _ _ h)
  | _ => constructor

/-- Without lists there is nothing to differ in. -/
theorem Twin.eq_of_isFlat (h : Twin L v w) (hv : v.isFlat = true) : w = v := by
  induction h with
  | pair _ _ iha ihb =>
    rw [isFlat, Bool.and_eq_true] at hv
    rw [iha hv.1, ihb hv.2]
  | list => cases hv
  | _ => rfl

/-- Without lists no pairs are needed. -/
theorem Twin.of_isFlat (h : Twin L v w) (hv : v.isFlat = true) : Twin L' v w := by
  induction h with
  | pair _ _ iha ihb =>
    rw [isFlat, Bool.and_eq_true] at hv
    exact .pair (iha hv.1) (ihb hv.2)
  | list => cases hv
  | _ => constructor

theorem Twin.type_eq (h : Twin L v w) : w.type = v.type := by cases h <;> rfl

theorem Twin.truthy_eq (h : Twin L v w) : w.truthy = v.truthy := by cases h <;> rfl

theorem Twin.asFloat_eq (h : Twin L v w) : w.asFloat = v.asFloat := by cases h <;> rfl

theorem Twin.isFlat_eq (h : Twin L v w) : w.isFlat = v.isFlat := by
  induction h with
  | pair _ _ iha ihb => rw [isFlat, isFlat, iha, ihb]
  | _ => rfl

theorem Twin.isContainer_eq (h : Twin L v w) : w.isContainer = v.isContainer := by
  rw [isContainer, isContainer, h.type_eq]

/-- Twins have the same tree if paired lists do. -/
theorem Twin.treeWith_eq {list list' map map' matrix matrix' graph graph' : Nat → Tree}
    (hlist : ∀ r q, L r q → list r = list' q) (h : Twin L v w) :
    v.treeWith list map matrix graph = w.treeWith list' map' matrix' graph' := by
  induction h with
  | pair _ _ iha ihb => rw [treeWith, treeWith, iha, ihb]
  | list h => exact hlist _ _ h
  | _ => rfl

/-- Twins compare alike if paired lists do. -/
theorem Twin.eqWith_eq {list list' map map' matrix matrix' graph graph' : Nat → Nat → Bool}
    (hlist : ∀ r q r' q', L r q → L r' q' → list r r' = list' q q') {v' w' : Value}
    (h : Twin L v w) (h' : Twin L v' w') :
    v.eqWith list map matrix graph v' = w.eqWith list' map' matrix' graph' w' := by
  induction h generalizing v' w' with
  | pair _ _ iha ihb =>
    cases h' with
    | pair ha hb => rw [eqWith, eqWith, iha ha, ihb hb]
    | _ => rfl
  | list h =>
    cases h' with
    | list h' => exact hlist _ _ _ _ h h'
    | _ => rfl
  | _ => cases h' <;> rfl

end Value

namespace Store

/-- The pairs of lists among the first `n` and the first `m`. -/
def Below (L : Nat → Nat → Prop) (n m r q : Nat) : Prop := L r q ∧ r < n ∧ q < m

/-- Paired lists have the same contents, made before them. No list has two partners. -/
structure Paired (L : Nat → Nat → Prop) (c s : Store) : Prop where
  lt : ∀ r q, L r q → r < c.lists.size ∧ q < s.lists.size
  unique : ∀ r q r' q', L r q → L r' q' → (r = r' ↔ q = q')
  content : ∀ r q, L r q → (c.lists.get r).content = (s.lists.get q).content
  items : ∀ r q, L r q → List.Forall₂ (Value.Twin (Below L r q)) (c.lists.get r).items.toList
    (s.lists.get q).items.toList

/-- The store with more lists after those it has. -/
def MoreLists (s t : Store) : Prop :=
  ∃ more : Array ListCell, t = { s with lists := ⟨s.lists.cells ++ more⟩ }

namespace MoreLists

variable {s t u : Store}

theorem refl (s : Store) : MoreLists s s := ⟨#[], by simp⟩

theorem trans (h : MoreLists s t) (h' : MoreLists t u) : MoreLists s u := by
  obtain ⟨more, rfl⟩ := h
  obtain ⟨rest, rfl⟩ := h'
  exact ⟨more ++ rest, by simp [Array.append_assoc]⟩

theorem addList (s : Store) (l : ListCell) : MoreLists s (s.addList l).2 :=
  ⟨#[l], by simp [Store.addList, Heap.push]⟩

theorem size_le (h : MoreLists s t) : s.lists.size ≤ t.lists.size := by
  obtain ⟨more, rfl⟩ := h
  simp [Heap.size]

theorem get_eq (h : MoreLists s t) {r : Nat} (hr : r < s.lists.size) :
    t.lists.get r = s.lists.get r := by
  obtain ⟨more, rfl⟩ := h
  rw [Heap.size] at hr
  simp [Heap.get, hr, Array.getElem_append_left, Nat.lt_add_right]

/-- Dropping what came later gives the store back. -/
theorem shrink_eq (h : MoreLists s t) : t.shrink s.sizes = s := by
  obtain ⟨more, rfl⟩ := h
  have hlists : (Heap.mk (s.lists.cells ++ more)).shrink s.lists.size = s.lists := by
    simp [Heap.shrink, Heap.size]
  have hshrink : ∀ {α : Type} (h : Heap α), h.shrink h.size = h := by
    intro α h
    simp [Heap.shrink, Heap.size]
  simp only [shrink, sizes, hlists, hshrink]

end MoreLists

variable {L : Nat → Nat → Prop} {c s : Store} {v w : Value}

theorem Paired.more {c' : Store} (h : Paired L c s) (hc : c.MoreLists c') : Paired L c' s where
  lt r q hl := ⟨Nat.lt_of_lt_of_le (h.lt r q hl).1 hc.size_le, (h.lt r q hl).2⟩
  unique := h.unique
  content r q hl := by rw [hc.get_eq (h.lt r q hl).1, h.content r q hl]
  items r q hl := by
    rw [hc.get_eq (h.lt r q hl).1]
    exact h.items r q hl

/-! ## Trees and equality -/

theorem map_eq_of_forall₂ {α β γ : Type} {R : α → β → Prop} {f : α → γ} {g : β → γ}
    {as : List α} {bs : List β} (h : List.Forall₂ R as bs) (hR : ∀ a b, R a b → f a = g b) :
    as.map f = bs.map g := by
  induction h with
  | nil => rfl
  | cons hab _ ih => rw [List.map_cons, List.map_cons, hR _ _ hab, ih]

theorem eqLists_of_forall₂ {α β : Type} {R : α → β → Prop} {f : α → α → Bool} {g : β → β → Bool}
    {as as' : List α} {bs bs' : List β} (h : List.Forall₂ R as bs) (h' : List.Forall₂ R as' bs')
    (hR : ∀ a b a' b', R a b → R a' b' → f a a' = g b b') :
    eqLists f as as' = eqLists g bs bs' := by
  induction h generalizing as' bs' with
  | nil => cases h' <;> rfl
  | cons hab _ ih =>
    cases h' with
    | nil => rfl
    | cons hab' h' => rw [eqLists, eqLists, hR _ _ _ _ hab hab', ih h']

/-- The contents of a pair of lists, seen from farther up. -/
theorem Paired.items_below (h : Paired L c s) {n m r q : Nat} (hl : Below L (n + 1) (m + 1) r q) :
    List.Forall₂ (Value.Twin (Below L n m)) (c.lists.get r).items.toList
      (s.lists.get q).items.toList := by
  obtain ⟨hl, hr, hq⟩ := hl
  refine (h.items r q hl).imp fun a b hab => hab.mono fun r' q' hl' => ⟨hl'.1, ?_, ?_⟩
  · exact Nat.lt_of_lt_of_le hl'.2.1 (Nat.le_of_lt_succ hr)
  · exact Nat.lt_of_lt_of_le hl'.2.2 (Nat.le_of_lt_succ hq)

theorem Paired.treeAt_eq (h : Paired L c s) {n m : Nat} (hv : Value.Twin (Below L n m) v w) :
    c.treeAt n v = s.treeAt m w := by
  induction n generalizing m v w with
  | zero =>
    cases m with
    | zero => exact hv.treeWith_eq fun r q hl => absurd hl.2.1 (Nat.not_lt_zero r)
    | succ m => exact hv.treeWith_eq fun r q hl => absurd hl.2.1 (Nat.not_lt_zero r)
  | succ n ih =>
    cases m with
    | zero => exact hv.treeWith_eq fun r q hl => absurd hl.2.2 (Nat.not_lt_zero q)
    | succ m =>
      refine hv.treeWith_eq fun r q hl => ?_
      dsimp only
      rw [h.content r q hl.1, map_eq_of_forall₂ (h.items_below hl) fun _ _ hab => ih hab]

theorem Paired.eqAt_eq (h : Paired L c s) {n m : Nat} {v' w' : Value}
    (hv : Value.Twin (Below L n m) v w) (hv' : Value.Twin (Below L n m) v' w') :
    c.eqAt n v v' = s.eqAt m w w' := by
  induction n generalizing m v w v' w' with
  | zero =>
    cases m with
    | zero => exact hv.eqWith_eq (fun r q _ _ hl => absurd hl.2.1 (Nat.not_lt_zero r)) hv'
    | succ m => exact hv.eqWith_eq (fun r q _ _ hl => absurd hl.2.1 (Nat.not_lt_zero r)) hv'
  | succ n ih =>
    cases m with
    | zero => exact hv.eqWith_eq (fun r q _ _ hl => absurd hl.2.2 (Nat.not_lt_zero q)) hv'
    | succ m =>
      refine hv.eqWith_eq (fun r q r' q' hl hl' => ?_) hv'
      have hsame : (r == r') = (q == q') := by
        rw [Bool.eq_iff_iff, beq_iff_eq, beq_iff_eq]
        exact h.unique r q r' q' hl.1 hl'.1
      rw [hsame, eqLists_of_forall₂ (h.items_below hl) (h.items_below hl')
        fun _ _ _ _ hab hab' => ih hab hab']

/-- All pairs are among the lists there are. -/
theorem Paired.below_size (h : Paired L c s) (hv : Value.Twin L v w) :
    Value.Twin (Below L c.size s.size) v w := by
  refine hv.mono fun r q hl => ⟨hl, ?_, ?_⟩
  · have := (h.lt r q hl).1
    unfold size
    omega
  · have := (h.lt r q hl).2
    unfold size
    omega

theorem tree_twin (h : Paired L c s) (hv : Value.Twin L v w) : s.tree w = c.tree v :=
  (h.treeAt_eq (h.below_size hv)).symm

theorem text_twin (h : Paired L c s) (hv : Value.Twin L v w) : s.text w = c.text v := by
  rw [text, text, tree_twin h hv]

theorem eq_twin (h : Paired L c s) {v' w' : Value} (hv : Value.Twin L v w)
    (hv' : Value.Twin L v' w') : s.eq w w' = c.eq v v' :=
  (h.eqAt_eq (h.below_size hv) (h.below_size hv')).symm

theorem elements_twin (h : Paired L c s) (hv : Value.Twin L v w) :
    List.Forall₂ (Value.Twin L) (c.elements v) (s.elements w) := by
  cases hv with
  | nil => exact .nil
  | pair ha hb => exact .cons ha (.cons hb .nil)
  | point x y => exact .cons (.float x) (.cons (.float y) .nil)
  | list hl => exact (h.items _ _ hl).imp fun _ _ hab => hab.mono fun _ _ hl' => hl'.1
  | bool b => exact .cons (.bool b) .nil
  | int n => exact .cons (.int n) .nil
  | float x => exact .cons (.float x) .nil
  | str t => exact .cons (.str t) .nil
  | species name => exact .cons (.species name) .nil

/-! ## New lists -/

/-- More pairs of lists. Those that were not there before pair lists that `s` does not have. -/
structure Enlarged (s : Store) (L L' : Nat → Nat → Prop) : Prop where
  old : ∀ r q, L r q → L' r q
  new : ∀ r q, L' r q → L r q ∨ s.lists.size ≤ q

theorem Enlarged.refl (s : Store) (L : Nat → Nat → Prop) : Enlarged s L L :=
  ⟨fun _ _ hl => hl, fun _ _ hl => .inl hl⟩

theorem Enlarged.trans {t : Store} {L' L'' : Nat → Nat → Prop} (h : Enlarged s L L')
    (hst : s.MoreLists t) (h' : Enlarged t L' L'') : Enlarged s L L'' where
  old r q hl := h'.old r q (h.old r q hl)
  new r q hl := by
    rcases h'.new r q hl with hl | hq
    · exact h.new r q hl
    · exact .inr (Nat.le_trans hst.size_le hq)

/-- The pairs with one more. -/
def withPair (L : Nat → Nat → Prop) (n m r q : Nat) : Prop := L r q ∨ r = n ∧ q = m

theorem enlarged_withPair (s : Store) (L : Nat → Nat → Prop) (n : Nat) :
    Enlarged s L (withPair L n s.lists.size) where
  old _ _ hl := .inl hl
  new := by
    rintro r q (hl | ⟨-, rfl⟩)
    · exact .inl hl
    · exact .inr (Nat.le_refl _)

theorem paired_addList (h : Paired L c s) {l l' : ListCell} (hcontent : l.content = l'.content)
    (hitems : List.Forall₂ (Value.Twin L) l.items.toList l'.items.toList) :
    Paired (withPair L c.lists.size s.lists.size) (c.addList l).2 (s.addList l').2 := by
  have hc := MoreLists.addList c l
  have hs := MoreLists.addList s l'
  have hget : (c.addList l).2.lists.get c.lists.size = l := Heap.get_push_size _ _
  have hget' : (s.addList l').2.lists.get s.lists.size = l' := Heap.get_push_size _ _
  have hold : ∀ {a b : Value} {n m : Nat}, Value.Twin (Below L n m) a b →
      Value.Twin (Below (withPair L c.lists.size s.lists.size) n m) a b := fun hab =>
    hab.mono fun _ _ hl => ⟨.inl hl.1, hl.2⟩
  refine ⟨?_, ?_, ?_, ?_⟩
  · rintro r q (hl | ⟨rfl, rfl⟩)
    · exact ⟨Nat.lt_of_lt_of_le (h.lt r q hl).1 hc.size_le,
        Nat.lt_of_lt_of_le (h.lt r q hl).2 hs.size_le⟩
    · simp [addList]
  · rintro r q r' q' (hl | ⟨rfl, rfl⟩) (hl' | ⟨rfl, rfl⟩)
    · exact h.unique r q r' q' hl hl'
    · have := h.lt r q hl
      omega
    · have := h.lt r' q' hl'
      omega
    · simp
  · rintro r q (hl | ⟨rfl, rfl⟩)
    · rw [hc.get_eq (h.lt r q hl).1, hs.get_eq (h.lt r q hl).2, h.content r q hl]
    · rw [hget, hget', hcontent]
  · rintro r q (hl | ⟨rfl, rfl⟩)
    · rw [hc.get_eq (h.lt r q hl).1, hs.get_eq (h.lt r q hl).2]
      exact (h.items r q hl).imp fun _ _ hab => hold hab
    · rw [hget, hget']
      exact hitems.imp fun _ _ hab => hold (hab.mono fun r q hl => ⟨hl, h.lt r q hl⟩)

end Store
end Habitat
