import Habitat.Proofs.Store.Reach
import Mathlib.Data.Set.Card

/-!
# How deep values are

A value is unfolded down to as many nested containers as there are. If all chains of containers
inside it end (`Store.Ends`), no container is inside itself, so each step down leaves one container
fewer to reach. The unfolding is then the whole value: unfolding further shows nothing new
(`Ends.treeAt_eq`), and the tree of a container is made of the trees of its contents.
-/
namespace Habitat.Store

/-- All chains of containers inside a value end, and they lead to containers that exist. -/
inductive Ends (s : Store) : Value → Prop
  | intro {v : Value} (within : v.Within s.extent)
      (inside : ∀ r ∈ v.refs, ∀ u ∈ (s.cell r).values, Ends s u) : Ends s v

variable {s : Store} {u v : Value} {q r : Ref}

theorem Ends.within (h : s.Ends v) : v.Within s.extent := by
  obtain ⟨hw, _⟩ := h
  exact hw

theorem Ends.inside (h : s.Ends v) (hr : r ∈ v.refs) (hu : u ∈ (s.cell r).values) : s.Ends u := by
  obtain ⟨_, hin⟩ := h
  exact hin r hr u hu

theorem Ends.lt (h : s.Ends v) (hr : s.Reaches v r) : r.2 < s.extent r.1 := by
  induction hr with
  | here hr => exact Value.within_iff.mp h.within _ hr
  | inside hq hu _ ih => exact ih (h.inside hq hu)

theorem Reaches.trans (h : s.Reaches v r) (hu : u ∈ (s.cell r).values) (hq : s.Reaches u q) :
    s.Reaches v q := by
  induction h with
  | here hr => exact .inside hr hu hq
  | inside hr' hu' _ ih => exact .inside hr' hu' (ih hu)

/-- No container is inside itself. -/
theorem Ends.not_reaches (h : s.Ends v) (hr : r ∈ v.refs) (hu : u ∈ (s.cell r).values) :
    ¬s.Reaches u r := by
  induction h generalizing r u with
  | intro _ _ ih =>
    intro hur
    -- A way back from `u` would also lead from a container in `u` back to that container.
    cases hur with
    | here hr' => exact ih r hr u hu hr' hu (.here hr')
    | inside hq hw hwr => exact ih r hr u hu hq hw (hwr.trans hu (.here hq))

/-! ## The number of containers that a value reaches -/

/-- The containers that a value reaches. -/
def reach (s : Store) (v : Value) : Set Ref := {r | s.Reaches v r}

/-- All containers. -/
def refs (s : Store) : List Ref :=
  (List.range s.lists.size).map (.list, ·) ++ (List.range s.maps.size).map (.map, ·) ++
    (List.range s.matrices.size).map (.matrix, ·) ++ (List.range s.graphs.size).map (.graph, ·)

theorem length_refs (s : Store) : s.refs.length = s.size := by
  simp only [refs, List.length_append, List.length_map, List.length_range, size]

theorem mem_refs (h : r.2 < s.extent r.1) : r ∈ s.refs := by
  obtain ⟨k, i⟩ := r
  cases k <;> simpa [refs, extent] using h

theorem Ends.reach_subset (h : s.Ends v) : s.reach v ⊆ {r | r ∈ s.refs} :=
  fun _ hr => mem_refs (h.lt hr)

theorem Ends.finite_reach (h : s.Ends v) : (s.reach v).Finite :=
  (List.finite_toSet s.refs).subset h.reach_subset

theorem Ends.ncard_reach_le (h : s.Ends v) : (s.reach v).ncard ≤ s.size := by
  classical
  calc (s.reach v).ncard ≤ ({r | r ∈ s.refs} : Set Ref).ncard :=
        Set.ncard_le_ncard h.reach_subset (List.finite_toSet s.refs)
    _ = s.refs.toFinset.card := by rw [← List.coe_toFinset, Set.ncard_coe_finset]
    _ ≤ s.refs.length := List.toFinset_card_le _
    _ = s.size := s.length_refs

/-- What is in a container reaches less: not the container itself. -/
theorem Ends.ncard_reach_lt (h : s.Ends v) (hr : r ∈ v.refs) (hu : u ∈ (s.cell r).values) :
    (s.reach u).ncard < (s.reach v).ncard := by
  refine Set.ncard_lt_ncard ⟨fun q hq => .inside hr hu hq, fun hsub => ?_⟩ h.finite_reach
  exact h.not_reaches hr hu (hsub (.here hr))

/-! ## The whole tree -/

/-- A value that refers to no container is unfolded at once. -/
theorem treeAt_one_of_refs (h : v.refs = []) : s.treeAt 1 v = s.treeAt 0 v := by
  induction v with
  | pair a b iha ihb =>
    obtain ⟨ha, hb⟩ := List.append_eq_nil_iff.mp h
    have hta := iha ha
    have htb := ihb hb
    simp only [treeAt, Value.treeWith] at hta htb ⊢
    rw [hta, htb]
  | list | map | matrix | graph => cases h
  | _ => rfl

/-- Unfolding further than there are containers to reach shows nothing new. -/
theorem Ends.treeAt_succ (h : s.Ends v) {n : Nat} (hn : (s.reach v).ncard ≤ n) :
    s.treeAt (n + 1) v = s.treeAt n v := by
  induction n generalizing v with
  | zero =>
    have hrefs : v.refs = [] := List.eq_nil_iff_forall_not_mem.mpr fun r hr => by
      have hpos : 0 < (s.reach v).ncard := (Set.ncard_pos h.finite_reach).mpr ⟨r, .here hr⟩
      omega
    exact treeAt_one_of_refs hrefs
  | succ n ih =>
    refine treeAt_succ_congr (fun _ _ => rfl) fun r hr u hu => ?_
    have hlt := h.ncard_reach_lt hr hu
    exact ih (h.inside hr hu) (by omega)

theorem Ends.treeAt_eq (h : s.Ends v) {n : Nat} (hn : s.size ≤ n) :
    s.treeAt n v = s.tree v := by
  induction n, hn using Nat.le_induction with
  | base => rfl
  | succ n hn ih => rw [h.treeAt_succ (h.ncard_reach_le.trans hn), ih]

theorem Extends.size_le {t : Store} (hst : s.Extends t) : s.size ≤ t.size := by
  have hlists := hst.extent_le .list
  have hmaps := hst.extent_le .map
  have hmatrices := hst.extent_le .matrix
  have hgraphs := hst.extent_le .graph
  simp only [extent] at hlists hmaps hmatrices hgraphs
  unfold size
  omega

/-- A value looks the same when the store grows. -/
theorem Ends.tree_eq (h : s.Ends v) {t : Store} (hst : s.Extends t) : t.tree v = s.tree v :=
  calc t.treeAt t.size v = s.treeAt t.size v := treeAt_congr fun r hr => hst.cell_eq r (h.lt hr)
    _ = s.tree v := h.treeAt_eq hst.size_le

/-- A value that refers to no container is a whole tree at depth zero. -/
theorem tree_of_refs (h : v.refs = []) : s.tree v = s.treeAt 0 v := by
  have hnone : ∀ r, r ∉ v.refs := fun r hr => absurd (h ▸ hr) List.not_mem_nil
  unfold tree
  cases s.size with
  | zero => rfl
  | succ n =>
    calc s.treeAt (n + 1) v = s.treeAt 1 v :=
          treeAt_succ_congr (fun _ _ => rfl) fun r hr => absurd hr (hnone r)
      _ = s.treeAt 0 v := treeAt_one_of_refs h

/-- The tree of a list is made of the trees of its items. -/
theorem tree_list {i : Nat} (h : s.Ends (.list i)) :
    s.tree (.list i) = .list (s.lists.get i).content ((s.lists.get i).items.toList.map s.tree) :=
  (h.treeAt_eq (Nat.le_succ _)).symm

/-- The tree of a map is made of the trees of its keys and values. -/
theorem tree_map {i : Nat} (h : s.Ends (.map i)) :
    s.tree (.map i) = .map (s.maps.get i).key (s.maps.get i).content
      ((s.maps.get i).entries.map fun e => (s.tree e.1, s.tree e.2)) :=
  (h.treeAt_eq (Nat.le_succ _)).symm

end Habitat.Store
