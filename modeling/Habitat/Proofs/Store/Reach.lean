import Habitat.Container.Access
import Habitat.Proofs.Run.Objects
import Habitat.Proofs.World.Change

/-!
# What a value reaches

A value reaches the containers that it refers to, and what their contents reach. Only these decide
what the value looks like (`Store.treeAt_congr`), and editing a container leaves every other one as
it is (`Store.edit_cell`). So an edit shows only in values that reach the edited container.

A store grows by new containers (`Store.Extends`); what referred to the old ones reaches the same
containers as before. A copy is a new container with the old contents (`Store.Copied`).
-/
namespace Habitat

/-- A container: its kind and its number. -/
abbrev Store.Ref := Store.Kind × Nat

namespace Value

/-- The containers that a value refers to. -/
def refs : Value → List Store.Ref
  | .pair a b => a.refs ++ b.refs
  | .list i => [(.list, i)]
  | .map i => [(.map, i)]
  | .matrix i => [(.matrix, i)]
  | .graph i => [(.graph, i)]
  | _ => []

/-- The container that a value is. -/
def container? : Value → Option Store.Ref
  | .list i => some (.list, i)
  | .map i => some (.map, i)
  | .matrix i => some (.matrix, i)
  | .graph i => some (.graph, i)
  | _ => none

theorem isSome_container? (v : Value) : v.container?.isSome = v.isContainer := by
  cases v <;> rfl

theorem refs_of_container? {v : Value} {r : Store.Ref} (h : v.container? = some r) :
    v.refs = [r] := by
  cases v <;> cases h <;> rfl

theorem within_iff {n : Store.Kind → Nat} {v : Value} :
    v.Within n ↔ ∀ r ∈ v.refs, r.2 < n r.1 := by
  induction v with
  | pair a b iha ihb => simp only [Within, refs, iha, ihb, List.forall_mem_append]
  | _ => simp [Within, refs]

end Value

namespace Store

/-- What a container holds. -/
def cell (s : Store) : Ref → Object
  | (.list, i) => .list (s.lists.get i)
  | (.map, i) => .map (s.maps.get i)
  | (.matrix, i) => .matrix (s.matrices.get i)
  | (.graph, i) => .graph (s.graphs.get i)

/-- A value reaches a container: it refers to it, or something in a container that it refers to
reaches it. -/
inductive Reaches (s : Store) : Value → Ref → Prop
  | here {v : Value} {r : Ref} (h : r ∈ v.refs) : Reaches s v r
  | inside {v u : Value} {q r : Ref} (hq : q ∈ v.refs) (hu : u ∈ (s.cell q).values)
      (h : Reaches s u r) : Reaches s v r

section
variable {s t : Store} {v : Value} {r : Ref}

theorem Reaches.exists_ref (h : s.Reaches v r) : ∃ q, q ∈ v.refs := by
  cases h with
  | here h => exact ⟨_, h⟩
  | inside hq => exact ⟨_, hq⟩

/-- Stores that agree on the containers a value reaches make it reach the same ones. -/
theorem reaches_congr (hst : ∀ q, s.Reaches v q → t.cell q = s.cell q) :
    t.Reaches v r ↔ s.Reaches v r := by
  constructor
  · intro h
    induction h with
    | here h => exact .here h
    | inside hq hu _ ih =>
      rw [hst _ (.here hq)] at hu
      exact .inside hq hu (ih fun q h => hst q (.inside hq hu h))
  · intro h
    induction h with
    | here h => exact .here h
    | inside hq hu _ ih =>
      have hu' := hu
      rw [← hst _ (.here hq)] at hu'
      exact .inside hq hu' (ih fun q h => hst q (.inside hq hu h))

theorem mem_cells_of_mem_row {m : MatrixCell} {i : Nat} {u : Value} (h : u ∈ m.row i) :
    u ∈ m.cells.toList := by
  rw [MatrixCell.row, Array.toList_extract] at h
  exact List.mem_of_mem_drop (List.mem_of_mem_take h)

/-- What a value looks like is decided by the containers it refers to, and by what the values in
these look like. -/
theorem treeAt_succ_congr {n m : Nat} (hcell : ∀ q ∈ v.refs, t.cell q = s.cell q)
    (hinside : ∀ q ∈ v.refs, ∀ u ∈ (s.cell q).values, t.treeAt n u = s.treeAt m u) :
    t.treeAt (n + 1) v = s.treeAt (m + 1) v := by
  induction v with
  | pair a b iha ihb =>
    have ha := iha (fun q hq => hcell q (List.mem_append_left _ hq))
      fun q hq => hinside q (List.mem_append_left _ hq)
    have hb := ihb (fun q hq => hcell q (List.mem_append_right _ hq))
      fun q hq => hinside q (List.mem_append_right _ hq)
    simp only [treeAt, Value.treeWith] at ha hb ⊢
    rw [ha, hb]
  | list i =>
    have hlist : t.lists.get i = s.lists.get i :=
      Object.list.inj (hcell (.list, i) List.mem_cons_self)
    simp only [treeAt, Value.treeWith, hlist]
    congr 1
    exact List.map_congr_left fun u hu => hinside (.list, i) List.mem_cons_self u hu
  | map i =>
    have hmap : t.maps.get i = s.maps.get i :=
      Object.map.inj (hcell (.map, i) List.mem_cons_self)
    have hvalue {e : Value × Value} (he : e ∈ (s.maps.get i).entries) {u : Value}
        (hu : u ∈ [e.1, e.2]) : t.treeAt n u = s.treeAt m u :=
      hinside (.map, i) List.mem_cons_self u (List.mem_flatMap.mpr ⟨e, he, hu⟩)
    simp only [treeAt, Value.treeWith, hmap]
    congr 1
    exact List.map_congr_left fun e he => by
      rw [hvalue he (u := e.1) (by simp), hvalue he (u := e.2) (by simp)]
  | matrix i =>
    have hmatrix : t.matrices.get i = s.matrices.get i :=
      Object.matrix.inj (hcell (.matrix, i) List.mem_cons_self)
    simp only [treeAt, Value.treeWith, hmatrix]
    congr 1
    exact List.map_congr_left fun j _ => List.map_congr_left fun u hu =>
      hinside (.matrix, i) List.mem_cons_self u (mem_cells_of_mem_row hu)
  | graph i =>
    have hgraph : t.graphs.get i = s.graphs.get i :=
      Object.graph.inj (hcell (.graph, i) List.mem_cons_self)
    have hvalue {e : Edge} (he : e ∈ (s.graphs.get i).edges) {u : Value}
        (hu : u ∈ [e.source, e.target]) : t.treeAt n u = s.treeAt m u :=
      hinside (.graph, i) List.mem_cons_self u
        (List.mem_append_right _ (List.mem_flatMap.mpr ⟨e, he, hu⟩))
    simp only [treeAt, Value.treeWith, hgraph]
    congr 1
    · exact List.map_congr_left fun u hu =>
        hinside (.graph, i) List.mem_cons_self u (List.mem_append_left _ hu)
    · exact List.map_congr_left fun e he => by
        rw [hvalue he (u := e.source) (by simp), hvalue he (u := e.target) (by simp)]
  | _ => rfl

/-- What a value looks like is decided by the containers it reaches. -/
theorem treeAt_congr {n : Nat} (hst : ∀ q, s.Reaches v q → t.cell q = s.cell q) :
    t.treeAt n v = s.treeAt n v := by
  induction n generalizing v with
  | zero => rfl
  | succ n ih =>
    refine treeAt_succ_congr (fun q hq => hst q (.here hq)) fun q hq u hu => ?_
    exact ih fun r hr => hst r (.inside hq hu hr)

end

/-! ## Edits -/

/-- Editing a container leaves every other one as it is. -/
theorem edit_cell (s : Store) {target : Value} {r : Ref} (h : r ∉ target.refs) (request : Edit) :
    (s.edit target request).2.cell r = s.cell r := by
  obtain ⟨k, i⟩ := r
  cases target with
  | list j =>
    unfold edit
    dsimp only
    split
    · cases k with
      | list =>
        have hij : j ≠ i := fun hji => h (by rw [hji]; exact List.mem_cons_self)
        simp only [cell, Heap.get_modify_ne _ _ _ _ hij]
      | _ => rfl
    · rfl
  | map j =>
    cases k with
    | map =>
      have hij : j ≠ i := fun hji => h (by rw [hji]; exact List.mem_cons_self)
      simp only [edit, cell, Heap.get_eq, Heap.get?_set_ne _ _ _ _ hij]
    | _ => rfl
  | matrix j =>
    unfold edit
    dsimp only
    split
    · cases k with
      | matrix =>
        have hij : j ≠ i := fun hji => h (by rw [hji]; exact List.mem_cons_self)
        simp only [cell, Heap.get_modify_ne _ _ _ _ hij]
      | _ => rfl
    · rfl
  | graph j =>
    cases k with
    | graph =>
      have hij : j ≠ i := fun hji => h (by rw [hji]; exact List.mem_cons_self)
      simp only [edit, cell, Heap.get_eq, Heap.get?_set_ne _ _ _ _ hij]
    | _ => rfl
  | _ => rfl

/-- Sends requests to containers, one after another, whether they fail or not. -/
def editAll (s : Store) (requests : List (Value × Edit)) : Store :=
  requests.foldl (fun s e => (s.edit e.1 e.2).2) s

theorem editAll_cell (s : Store) {requests : List (Value × Edit)} {r : Ref}
    (h : ∀ e ∈ requests, r ∉ e.1.refs) : (s.editAll requests).cell r = s.cell r := by
  induction requests generalizing s with
  | nil => rfl
  | cons e rest ih =>
    have hrest := ih (s.edit e.1 e.2).2 fun e' he' => h e' (List.mem_cons_of_mem e he')
    rw [editAll, List.foldl_cons, ← editAll, hrest, edit_cell s (h e List.mem_cons_self)]

/-! ## Growth -/

/-- Every reference inside a container finds its container. -/
def Grounded (s : Store) : Prop := ∀ r, (s.cell r).Within s.extent

theorem Reaches.lt {s : Store} (hs : s.Grounded) {v : Value} {r : Ref} (h : s.Reaches v r)
    (hv : v.Within s.extent) : r.2 < s.extent r.1 := by
  induction h with
  | here h => exact Value.within_iff.mp hv _ h
  | inside _ hu _ ih => exact ih (hs _ _ hu)

/-- The store has all containers of another one, unchanged. -/
structure Extends (s t : Store) : Prop where
  extent_le : ∀ k, s.extent k ≤ t.extent k
  cell_eq : ∀ r : Ref, r.2 < s.extent r.1 → t.cell r = s.cell r

namespace Extends

theorem refl (s : Store) : s.Extends s := ⟨fun _ => Nat.le_refl _, fun _ _ => rfl⟩

theorem trans {s t u : Store} (hst : s.Extends t) (htu : t.Extends u) : s.Extends u where
  extent_le k := Nat.le_trans (hst.extent_le k) (htu.extent_le k)
  cell_eq r hr := by
    rw [htu.cell_eq r (Nat.lt_of_lt_of_le hr (hst.extent_le r.1)), hst.cell_eq r hr]

/-- Dropping the containers that came later leaves those that there were. -/
theorem shrink_eq {s t : Store} (hst : s.Extends t) : t.shrink s.sizes = s := by
  have hheap {α : Type} [Inhabited α] {h h' : Heap α} (hle : h.size ≤ h'.size)
      (hget : ∀ i, i < h.size → h'.get i = h.get i) : h'.shrink h.size = h := by
    obtain ⟨cells⟩ := h
    obtain ⟨cells'⟩ := h'
    have hsize : (cells'.shrink cells.size).size = cells.size := by
      rw [Array.size_shrink]
      exact Nat.min_eq_left hle
    refine congrArg Heap.mk (Array.ext hsize fun i _ hi => ?_)
    have hi' : i < cells'.size := Nat.lt_of_lt_of_le hi hle
    have hcell := hget i hi
    simp only [Heap.get, Array.getD_eq_getD_getElem?, Array.getElem?_eq_getElem hi,
      Array.getElem?_eq_getElem hi', Option.getD_some] at hcell
    simpa using hcell
  have hlists := hheap (hst.extent_le .list) fun i hi => Object.list.inj (hst.cell_eq (.list, i) hi)
  have hmaps := hheap (hst.extent_le .map) fun i hi => Object.map.inj (hst.cell_eq (.map, i) hi)
  have hmatrices :=
    hheap (hst.extent_le .matrix) fun i hi => Object.matrix.inj (hst.cell_eq (.matrix, i) hi)
  have hgraphs :=
    hheap (hst.extent_le .graph) fun i hi => Object.graph.inj (hst.cell_eq (.graph, i) hi)
  simp only [Store.shrink, sizes, hlists, hmaps, hmatrices, hgraphs]

theorem shrink {s t : Store} (hst : s.Extends t) : s.Extends (t.shrink s.sizes) := by
  rw [hst.shrink_eq]
  exact refl s

theorem reaches_iff {s t : Store} (hst : s.Extends t) (hs : s.Grounded) {v : Value}
    (hv : v.Within s.extent) {r : Ref} : t.Reaches v r ↔ s.Reaches v r :=
  reaches_congr fun _ hq => hst.cell_eq _ (hq.lt hs hv)

end Extends

/-! ## Copies -/

/-- What a copy of a value shares with it: the contents of a container, or else the value itself. -/
def parts (s : Store) (v : Value) : List Value :=
  match v.container? with
  | some r => (s.cell r).values
  | none => [v]

theorem reaches_iff_parts {s : Store} {v : Value} {r : Ref} :
    s.Reaches v r ↔ v.container? = some r ∨ ∃ u ∈ s.parts v, s.Reaches u r := by
  unfold parts
  cases hv : v.container? with
  | none => simp
  | some q =>
    have hrefs := Value.refs_of_container? hv
    constructor
    · intro h
      cases h with
      | here h =>
        rw [hrefs, List.mem_singleton] at h
        exact .inl (by rw [h])
      | inside hq hu h =>
        rw [hrefs, List.mem_singleton] at hq
        exact .inr ⟨_, hq ▸ hu, h⟩
    · intro h
      rcases h with h | ⟨u, hu, h⟩
      · cases h
        exact .here (by rw [hrefs]; exact List.mem_cons_self)
      · exact .inside (by rw [hrefs]; exact List.mem_cons_self) hu h

/-- The value has no container inside that a copy of it would share. -/
def Flat (s : Store) (v : Value) : Prop := ∀ u ∈ s.parts v, u.refs = []

/-- In `t`, the value `v` is a copy of what `d` was in `s`; if it is a container, it is a new
one. -/
structure Copied (s t : Store) (d v : Value) : Prop where
  isContainer : v.isContainer = d.isContainer
  parts : t.parts v = s.parts d
  fresh : ∀ r, v.container? = some r → s.extent r.1 ≤ r.2 ∧ r.2 < t.extent r.1

theorem extends_addList (s : Store) (c : ListCell) : s.Extends (s.addList c).2 where
  extent_le k := by cases k <;> simp [addList, extent]
  cell_eq := by
    rintro ⟨k, i⟩ hi
    cases k with
    | list => exact congrArg _ (Heap.get_push_lt _ _ _ hi)
    | _ => rfl

theorem extends_newMap (s : Store) (c : MapCell) : s.Extends (s.newMap c).2 where
  extent_le k := by cases k <;> simp [newMap, extent]
  cell_eq := by
    rintro ⟨k, i⟩ hi
    cases k with
    | map => exact congrArg _ (Heap.get_push_lt _ _ _ hi)
    | _ => rfl

theorem extends_newMatrix (s : Store) (c : MatrixCell) : s.Extends (s.newMatrix c).2 where
  extent_le k := by cases k <;> simp [newMatrix, extent]
  cell_eq := by
    rintro ⟨k, i⟩ hi
    cases k with
    | matrix => exact congrArg _ (Heap.get_push_lt _ _ _ hi)
    | _ => rfl

theorem extends_newGraph (s : Store) (c : GraphCell) : s.Extends (s.newGraph c).2 where
  extent_le k := by cases k <;> simp [newGraph, extent]
  cell_eq := by
    rintro ⟨k, i⟩ hi
    cases k with
    | graph => exact congrArg _ (Heap.get_push_lt _ _ _ hi)
    | _ => rfl

theorem extends_copy (s : Store) (v : Value) : s.Extends (s.copy v).2 := by
  cases v with
  | list i => exact s.extends_addList _
  | map i => exact s.extends_newMap _
  | matrix i => exact s.extends_newMatrix _
  | graph i => exact s.extends_newGraph _
  | _ => exact .refl s

/-- A copy has the next number of its kind. -/
theorem copied_copy (s : Store) (v : Value) : s.Copied (s.copy v).2 v (s.copy v).1 := by
  cases v with
  | list i | map i | matrix i | graph i =>
    refine ⟨rfl, ?_, ?_⟩
    · simp [parts, Value.container?, copy, addList, newMap, newMatrix, newGraph, cell,
        Heap.get_push_size]
    · rintro r ⟨⟩
      simp [copy, addList, newMap, newMatrix, newGraph, extent]
  | _ => exact ⟨rfl, rfl, fun r h => by cases h⟩

namespace Copied
variable {s t : Store} {d v : Value}

theorem mono {u : Store} (h : s.Copied t d v) (htu : t.Extends u) : s.Copied u d v where
  isContainer := h.isContainer
  parts := by
    rw [← h.parts]
    unfold Store.parts
    cases hv : v.container? with
    | none => rfl
    | some r => dsimp only; rw [htu.cell_eq r (h.fresh r hv).2]
  fresh r hr := ⟨(h.fresh r hr).1, Nat.lt_of_lt_of_le (h.fresh r hr).2 (htu.extent_le r.1)⟩

/-- A copy of an old value is one of what the value was before. -/
theorem of_extends {s₀ : Store} (h : s.Copied t d v) (hs : s₀.Extends s)
    (hd : d.Within s₀.extent) : s₀.Copied t d v where
  isContainer := h.isContainer
  parts := by
    rw [h.parts]
    unfold Store.parts
    cases hr : d.container? with
    | none => rfl
    | some r =>
      have hmem : r ∈ d.refs := by rw [Value.refs_of_container? hr]; exact List.mem_cons_self
      dsimp only
      rw [hs.cell_eq r (Value.within_iff.mp hd r hmem)]
  fresh r hr := ⟨Nat.le_trans (hs.extent_le r.1) (h.fresh r hr).1, (h.fresh r hr).2⟩

/-- A copy reaches the new container, and what is inside the original. -/
theorem reaches_iff (h : s.Copied t d v) (hst : s.Extends t) (hs : s.Grounded)
    (hd : ∀ u ∈ s.parts d, u.Within s.extent) {r : Ref} :
    t.Reaches v r ↔ v.container? = some r ∨ ∃ u ∈ s.parts d, s.Reaches u r := by
  rw [reaches_iff_parts, h.parts]
  refine or_congr_right (exists_congr fun u => and_congr_right fun hu => ?_)
  exact hst.reaches_iff hs (hd u hu)

end Copied

theorem within_parts {s : Store} (hs : s.Grounded) {d : Value} (hd : d.Within s.extent) :
    ∀ u ∈ s.parts d, u.Within s.extent := by
  unfold parts
  split
  · exact hs _
  · simpa using hd

end Store
end Habitat
