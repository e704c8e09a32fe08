import Habitat.Proofs.Container.Contents
import Habitat.Proofs.Store.Depth

/-!
# What a copy shares

A copy of a container is a new container with the same contents. What is nested inside is not
copied, so the copy and the original share it, and so do a pair and its copy. A change shows on the
other side exactly if it is made to something shared, and everything that is shared can be changed,
except matrices without cells (`Store.Fixed`).

* `Store.shields_iff_apart`: changes on one side stay there if the two sides share nothing that can
  be changed, and only then. They may be made to whatever the side reaches at first, or to whatever
  it has come to reach by values from elsewhere.
* `Store.copy_separates_iff`: a copy looks like the original, and the two are separate exactly if
  nothing that can be changed is inside.
-/
namespace Habitat

/-- The ways in which the program changes a container. -/
inductive Mutation where
  /-- A request to the container that a value refers to. -/
  | request (target : Value) (edit : Edit)
  /-- A part of a list is replaced. -/
  | range (list : Nat) (start stop : Int64) (value : Value)
  /-- A value, a pair too, becomes a vertex of a graph. -/
  | vertex (graph : Nat) (value : Value)

namespace Mutation

/-- The container that is changed. -/
def target : Mutation → Value
  | request c _ => c
  | range i .. => .list i
  | vertex i _ => .graph i

/-- The values that are brought in. -/
def values (s : Store) : Mutation → List Value
  | request _ e => e.values
  | range _ _ _ (.list i) => (s.lists.get i).items.toList
  | range _ _ _ v | vertex _ v => [v]

end Mutation

theorem Heap.get_set_cases {α : Type} [Inhabited α] (h : Heap α) (i : Nat) (a : α) :
    (h.set i a).get i = a ∨ (h.set i a).get i = h.get i := by
  by_cases hi : i < h.size
  · rw [get_eq, get?_set_self h i a hi]
    exact .inl rfl
  · have hsize : h.size ≤ i := Nat.le_of_not_lt hi
    rw [get_of_size_le _ _ (by rwa [size_set]), get_of_size_le _ _ hsize]
    exact .inr rfl

/-- What is put in place of a part of a list are the values that are brought in. -/
theorem ListCell.replaceRange_forall {P : Value → Prop} {s : Store} {l l' : ListCell} {i : Nat}
    {start stop : Int64} {v : Value} (h : l.replaceRange s start stop v = .ok l')
    (hl : ∀ u ∈ l.items, P u) (hvalues : ∀ u ∈ (Mutation.range i start stop v).values s, P u) :
    ∀ u ∈ l'.items, P u := by
  unfold replaceRange at h
  dsimp only at h
  split at h
  · cases h
  split at h <;> cases h
  intro u hu
  rcases Array.mem_append.mp hu with hu | hu
  · rcases Array.mem_append.mp hu with hu | hu
    · exact hl u (mem_of_mem_extract hu)
    · cases v with
      | list j => exact hvalues u (Array.mem_toList_iff.mpr hu)
      | _ => exact hvalues u (by simpa [Mutation.values] using hu)
  · exact hl u (mem_of_mem_extract hu)

/-- The value that a container is. -/
def Value.ofRef : Store.Ref → Value
  | (.list, i) => .list i
  | (.map, i) => .map i
  | (.matrix, i) => .matrix i
  | (.graph, i) => .graph i

theorem Value.refs_ofRef (r : Store.Ref) : (ofRef r).refs = [r] := by
  obtain ⟨k, i⟩ := r
  cases k <;> rfl

namespace Store
variable {s t : Store} {u v : Value} {r : Ref} {m : Mutation} {ms : List Mutation}

/-- Changes a container, or leaves it if the change is refused. -/
def mutate (s : Store) : Mutation → Store
  | .request c e => (s.edit c e).2
  | .range i start stop v =>
    match (s.lists.get i).replaceRange s start stop v with
    | .ok l => { s with lists := s.lists.set i l }
    | .error _ => s
  | .vertex i v => { s with graphs := s.graphs.set i ((s.graphs.get i).addVertex s.eq v) }

/-- Changes containers one after another. -/
def mutateAll (s : Store) (ms : List Mutation) : Store := ms.foldl mutate s

/-- A change leaves every other container as it is. -/
theorem mutate_cell (h : r ∉ m.target.refs) : (s.mutate m).cell r = s.cell r := by
  cases m with
  | request c e => exact edit_cell s h e
  | range i start stop v =>
    unfold mutate
    dsimp only
    split
    · obtain ⟨k, j⟩ := r
      cases k with
      | list =>
        have hij : i ≠ j := fun hij => h (hij ▸ List.mem_cons_self)
        simp only [cell, Heap.get_eq, Heap.get?_set_ne _ _ _ _ hij]
      | _ => rfl
    · rfl
  | vertex i v =>
    obtain ⟨k, j⟩ := r
    cases k with
    | graph =>
      have hij : i ≠ j := fun hij => h (hij ▸ List.mem_cons_self)
      simp only [mutate, cell, Heap.get_eq, Heap.get?_set_ne _ _ _ _ hij]
    | _ => rfl

section
variable {P : Value → Prop}

theorem forall_map_iff {c : MapCell} : (∀ u ∈ (Object.map c).values, P u) ↔ c.Forall P := by
  simp only [Object.values, List.mem_flatMap, MapCell.Forall]
  constructor
  · exact fun h e he => ⟨h _ ⟨e, he, by simp⟩, h _ ⟨e, he, by simp⟩⟩
  · rintro h u ⟨e, he, hu⟩
    rcases List.mem_pair.mp hu with rfl | rfl
    · exact (h e he).1
    · exact (h e he).2

theorem forall_graph_iff {c : GraphCell} : (∀ u ∈ (Object.graph c).values, P u) ↔ c.Forall P := by
  simp only [Object.values, List.forall_mem_append, List.mem_flatMap]
  constructor
  · exact fun h => ⟨h.1, fun e he => ⟨h.2 _ ⟨e, he, by simp⟩, h.2 _ ⟨e, he, by simp⟩⟩⟩
  · refine fun h => ⟨h.vertices, ?_⟩
    rintro u ⟨e, he, hu⟩
    rcases List.mem_pair.mp hu with rfl | rfl
    · exact (h.edges e he).1
    · exact (h.edges e he).2

/-- A container holds what it held before and what was brought in. -/
theorem forall_mutate (hP : Value.Splits P) (hcell : ∀ u ∈ (s.cell r).values, P u)
    (hvalues : ∀ x ∈ m.values s, P x) : ∀ u ∈ ((s.mutate m).cell r).values, P u := by
  by_cases hr : r ∈ m.target.refs
  swap
  · rwa [mutate_cell hr]
  cases m with
  | request c e =>
    cases c with
    | list i =>
      obtain rfl := List.mem_singleton.mp hr
      simp only [mutate, edit]
      split
      case h_1 change hedit =>
        rcases s.lists.get_set_cases i (change.apply (s.lists.get i)) with hget | hget <;>
          simp only [cell, Heap.modify_eq_set, hget]
        · have hlist := ListCell.edit_forall hedit
            (fun u hu => hcell u (Array.mem_toList_iff.mpr hu)) hvalues
          exact fun u hu => hlist u (Array.mem_toList_iff.mp hu)
        · exact hcell
      case h_2 => exact hcell
    | map i =>
      obtain rfl := List.mem_singleton.mp hr
      rcases s.maps.get_set_cases i (Editing.after (MapCell.edit s e) (s.maps.get i)) with h | h
      · have hmap := MapCell.edit_forall (s := s) hP e (forall_map_iff.mp hcell) hvalues
        exact forall_map_iff.mpr (h.symm ▸ hmap)
      · exact forall_map_iff.mpr (h.symm ▸ forall_map_iff.mp hcell)
    | matrix i =>
      obtain rfl := List.mem_singleton.mp hr
      simp only [mutate, edit]
      split
      case h_1 change hedit =>
        rcases s.matrices.get_set_cases i (change.apply (s.matrices.get i)) with hget | hget <;>
          simp only [cell, Heap.modify_eq_set, hget]
        · have hmatrix := MatrixCell.edit_forall hedit
            (fun u hu => hcell u (Array.mem_toList_iff.mpr hu)) hvalues
          exact fun u hu => hmatrix u (Array.mem_toList_iff.mp hu)
        · exact hcell
      case h_2 => exact hcell
    | graph i =>
      obtain rfl := List.mem_singleton.mp hr
      rcases s.graphs.get_set_cases i (Editing.after (GraphCell.edit s e) (s.graphs.get i))
        with h | h
      · have hgraph := GraphCell.edit_forall (s := s) hP e (forall_graph_iff.mp hcell) hvalues
        exact forall_graph_iff.mpr (h.symm ▸ hgraph)
      · exact forall_graph_iff.mpr (h.symm ▸ forall_graph_iff.mp hcell)
    | _ => exact hcell
  | range i start stop v =>
    obtain rfl := List.mem_singleton.mp hr
    simp only [mutate]
    split
    case h_1 l hrange =>
      rcases s.lists.get_set_cases i l with hget | hget <;> simp only [cell, hget]
      · have hlist := ListCell.replaceRange_forall (i := i) hrange
          (fun u hu => hcell u (Array.mem_toList_iff.mpr hu)) hvalues
        exact fun u hu => hlist u (Array.mem_toList_iff.mp hu)
      · exact hcell
    case h_2 => exact hcell
  | vertex i v =>
    obtain rfl := List.mem_singleton.mp hr
    rcases s.graphs.get_set_cases i ((s.graphs.get i).addVertex s.eq v) with h | h
    · have hgraph := (forall_graph_iff.mp hcell).addVertex (c := s.eq)
        (hvalues v List.mem_cons_self)
      exact forall_graph_iff.mpr (h.symm ▸ hgraph)
    · exact forall_graph_iff.mpr (h.symm ▸ forall_graph_iff.mp hcell)

end

/-! ## What no change reaches -/

/-- The container is a matrix without cells. -/
def Fixed (s : Store) (r : Ref) : Prop := r.1 = .matrix ∧ (s.matrices.get r.2).cells = #[]

theorem fixed_congr (h : t.cell r = s.cell r) : t.Fixed r ↔ s.Fixed r := by
  obtain ⟨k, i⟩ := r
  refine and_congr_right fun hk => ?_
  obtain rfl : k = .matrix := hk
  rw [show t.matrices.get i = s.matrices.get i from Object.matrix.inj h]

theorem MatrixCell.edit_of_empty {x : MatrixCell} (hx : x.cells = #[]) {e : Edit}
    {change : Change MatrixCell} (h : x.edit s e = .ok change) : change.apply x = x := by
  obtain ⟨cols, rows, content, cells⟩ := x
  obtain rfl : cells = #[] := hx
  unfold MatrixCell.edit at h
  split at h
  case h_1 i v =>
    obtain ⟨p, rfl⟩ := exists_of_map_eq_ok h
    rfl
  case h_2 v =>
    cases h
    simp
  case h_6 => cases h
  all_goals
    cases h
    rfl

/-- A matrix without cells stays as it is. -/
theorem Fixed.mutate_cell (h : s.Fixed r) (m : Mutation) : (s.mutate m).cell r = s.cell r := by
  by_cases hr : r ∈ m.target.refs
  swap
  · exact Store.mutate_cell hr
  obtain ⟨k, i⟩ := r
  obtain rfl : k = .matrix := h.1
  cases m with
  | request c e =>
    cases c with
    | matrix j =>
      obtain rfl : i = j := congrArg Prod.snd (List.mem_singleton.mp hr)
      simp only [mutate, edit]
      split
      case h_1 change hedit =>
        have hsame : change.apply (s.matrices.get i) = s.matrices.get i :=
          MatrixCell.edit_of_empty h.2 hedit
        rw [Heap.modify_eq_set, hsame, Heap.set_get_self]
      case h_2 => rfl
    | list j | map j | graph j => cases List.mem_singleton.mp hr
    | _ => rfl
  | range j start stop v | vertex j v => cases List.mem_singleton.mp hr

theorem mutateAll_cell (h : ∀ m ∈ ms, r ∈ m.target.refs → s.Fixed r) :
    (s.mutateAll ms).cell r = s.cell r := by
  induction ms generalizing s with
  | nil => rfl
  | cons m rest ih =>
    have hm : (s.mutate m).cell r = s.cell r := by
      by_cases hr : r ∈ m.target.refs
      · exact (h m List.mem_cons_self hr).mutate_cell m
      · exact mutate_cell hr
    have hrest := ih (s := s.mutate m) fun m' hm' hr =>
      (fixed_congr hm).mpr (h m' (List.mem_cons_of_mem m hm') hr)
    exact hrest.trans hm

theorem get_set_of_lt {α : Type} [Inhabited α] (h : Heap α) {i : Nat} (hi : i < h.size) (a : α) :
    (h.set i a).get i = a := by
  rw [Heap.get_eq, Heap.get?_set_self h i a hi, Option.getD_some]

/-- Every other container can be changed. -/
theorem exists_edit_ne (hr : r.2 < s.extent r.1) (h : ¬s.Fixed r) :
    ∃ e, (s.mutate (.request (.ofRef r) e)).cell r ≠ s.cell r := by
  obtain ⟨k, i⟩ := r
  cases k with
  | list =>
    refine ⟨.add .nil, fun hcell => ?_⟩
    have hlist := Object.list.inj hcell
    simp only [mutate, edit, Value.ofRef, ListCell.edit, Heap.get_modify_self _ _ _ hr] at hlist
    have hsize := congrArg (fun l : ListCell => l.items.size) hlist
    simp [ListCell.push] at hsize
  | map =>
    cases hentries : (s.maps.get i).entries with
    | nil =>
      refine ⟨.add .nil, fun hcell => ?_⟩
      have hmap : (s.maps.set i ((s.maps.get i).add s.eq .nil)).get i = s.maps.get i :=
        Object.map.inj hcell
      rw [get_set_of_lt _ hr] at hmap
      have hnew := congrArg MapCell.entries hmap
      simp [MapCell.add, MapCell.put, hentries, MapCell.putEntry] at hnew
    | cons e rest =>
      refine ⟨.clear, fun hcell => ?_⟩
      have hmap : (s.maps.set i { s.maps.get i with entries := [] }).get i = s.maps.get i :=
        Object.map.inj hcell
      rw [get_set_of_lt _ hr] at hmap
      have hnew := congrArg MapCell.entries hmap
      simp [hentries] at hnew
  | matrix =>
    have hcells : (s.matrices.get i).cells ≠ #[] := fun hcells => h ⟨rfl, hcells⟩
    obtain ⟨x, hx⟩ := Array.exists_mem_of_ne_empty _ hcells
    have : Nontrivial Value := ⟨.nil, .bool true, by simp⟩
    obtain ⟨y, hy⟩ := exists_ne x
    refine ⟨.fill y, fun hcell => hy ?_⟩
    have hmatrix := Object.matrix.inj hcell
    simp only [mutate, edit, Value.ofRef, MatrixCell.edit, Heap.get_modify_self _ _ _ hr]
      at hmatrix
    -- A filled matrix holds nothing but the new value.
    rw [← congrArg MatrixCell.cells hmatrix] at hx
    obtain ⟨-, -, h⟩ := Array.mem_map.mp hx
    exact h
  | graph =>
    by_cases hempty : s.graphs.get i = ⟨[], []⟩
    · refine ⟨.add .nil, fun hcell => ?_⟩
      have hgraph : (s.graphs.set i ((s.graphs.get i).add s.eq .nil)).get i = s.graphs.get i :=
        Object.graph.inj hcell
      rw [get_set_of_lt _ hr, hempty] at hgraph
      cases hgraph
    · refine ⟨.clear, fun hcell => hempty ?_⟩
      have hgraph : (s.graphs.set i ⟨[], []⟩).get i = s.graphs.get i := Object.graph.inj hcell
      rw [get_set_of_lt _ hr] at hgraph
      exact hgraph.symm

/-! ## Sides -/

/-- All containers that two values both reach are such that cannot be changed. -/
def Apart (s : Store) (u v : Value) : Prop := ∀ r, s.Reaches u r → s.Reaches v r → s.Fixed r

/-- No container that a value reaches has changed, so the value looks the same
(`treeAt_congr`). -/
def Kept (s t : Store) (v : Value) : Prop := ∀ r, s.Reaches v r → t.cell r = s.cell r

/-- The changes are made to containers that a value reaches beforehand. -/
def Aimed (s : Store) (u : Value) (ms : List Mutation) : Prop :=
  ∀ m ∈ ms, ∀ r ∈ m.target.refs, s.Reaches u r

/-- Each change is made to a container that `u` reaches by then, and brings in no value that has a
container in common with `v`. -/
def Confined (u v : Value) : Store → List Mutation → Prop
  | _, [] => True
  | s, m :: rest =>
    (∀ r ∈ m.target.refs, s.Reaches u r) ∧ (∀ x ∈ m.values s, s.Apart x v) ∧
      Confined u v (s.mutate m) rest

/-- No sequence of changes on the side of `u` changes what `v` reaches. -/
def Shields (s : Store) (u v : Value) : Prop :=
  ∀ ms, s.Aimed u ms ∨ Confined u v s ms → s.Kept (s.mutateAll ms) v

theorem Apart.symm (h : s.Apart u v) : s.Apart v u := fun r hv hu => h r hu hv

theorem Kept.trans {w : Store} (h : s.Kept t v) (h' : t.Kept w v) : s.Kept w v :=
  fun r hr => (h' r ((reaches_congr h).mpr hr)).trans (h r hr)

theorem Apart.kept_of_aimed (h : s.Apart u v) (hms : s.Aimed u ms) :
    s.Kept (s.mutateAll ms) v :=
  fun r hv => mutateAll_cell fun m hm hr => h r (hms m hm r hr) hv

theorem Apart.kept_mutate (h : s.Apart u v) (htarget : ∀ r ∈ m.target.refs, s.Reaches u r) :
    s.Kept (s.mutate m) v := by
  have haimed : s.Aimed u [m] := fun _ hm r hr => by
    obtain rfl := List.mem_singleton.mp hm
    exact htarget r hr
  exact h.kept_of_aimed haimed

/-- What lies within a set of containers that a change leads out of only by what it brings in. -/
theorem Reaches.mem_of_mutate {Q : Set Ref}
    (hclosed : ∀ q ∈ Q, ∀ w ∈ (s.cell q).values, ∀ r ∈ w.refs, r ∈ Q)
    (hvalues : ∀ x ∈ m.values s, ∀ r ∈ x.refs, r ∈ Q) (hu : ∀ r ∈ u.refs, r ∈ Q)
    (hr : (s.mutate m).Reaches u r) : r ∈ Q := by
  induction hr with
  | here hr => exact hu _ hr
  | inside hq hw _ ih =>
    refine ih (forall_mutate (P := fun w => ∀ r ∈ w.refs, r ∈ Q) ?_ (hclosed _ (hu _ hq)) hvalues
      _ hw)
    exact fun a b hab => List.forall_mem_append.mp hab

/-- A change on one side keeps the sides apart if what it brings in has nothing in common with the
other side. -/
theorem Apart.mutate (h : s.Apart u v) (htarget : ∀ r ∈ m.target.refs, s.Reaches u r)
    (hvalues : ∀ x ∈ m.values s, s.Apart x v) : (s.mutate m).Apart u v := by
  have hkept := h.kept_mutate htarget
  intro r hu hv
  have hv := (reaches_congr hkept).mp hv
  rw [fixed_congr (hkept r hv)]
  -- What `u` reaches now it reached before, or a value that was brought in reached it.
  have hr : s.Reaches u r ∨ ∃ x ∈ m.values s, s.Reaches x r := by
    refine hu.mem_of_mutate (Q := {r | s.Reaches u r ∨ ∃ x ∈ m.values s, s.Reaches x r}) ?_ ?_ ?_
    · rintro q (hq | ⟨x, hx, hq⟩) w hw r hr
      · exact .inl (hq.trans hw (.here hr))
      · exact .inr ⟨x, hx, hq.trans hw (.here hr)⟩
    · exact fun x hx r hr => .inr ⟨x, hx, .here hr⟩
    · exact fun r hr => .inl (.here hr)
  rcases hr with hr | ⟨x, hx, hr⟩
  · exact h r hr hv
  · exact hvalues x hx r hr hv

theorem Apart.kept_of_confined (h : s.Apart u v) (hms : Confined u v s ms) :
    s.Kept (s.mutateAll ms) v := by
  induction ms generalizing s with
  | nil => exact fun _ _ => rfl
  | cons m rest ih =>
    obtain ⟨htarget, hvalues, hrest⟩ := hms
    exact (h.kept_mutate htarget).trans (ih (h.mutate htarget hvalues) hrest)

/-- Changes stay on their side exactly if the two sides share nothing that can be changed. -/
theorem shields_iff_apart (hlt : ∀ r, s.Reaches u r → s.Reaches v r → r.2 < s.extent r.1) :
    s.Shields u v ↔ s.Apart u v := by
  constructor
  · intro h r hu hv
    refine Classical.byContradiction fun hfixed => ?_
    obtain ⟨e, hne⟩ := exists_edit_ne (hlt r hu hv) hfixed
    refine hne (h [.request (.ofRef r) e] (.inl fun m hm q hq => ?_) r hv)
    obtain rfl := List.mem_singleton.mp hm
    rw [Mutation.target, Value.refs_ofRef] at hq
    obtain rfl := List.mem_singleton.mp hq
    exact hu
  · rintro h ms (hms | hms)
    · exact h.kept_of_aimed hms
    · exact h.kept_of_confined hms

/-! ## Copies -/

/-- Nothing that can be changed is inside the value. -/
def Firm (s : Store) (v : Value) : Prop := ∀ x ∈ s.parts v, ∀ r, s.Reaches x r → s.Fixed r

/-- A copy looks like the original, however deep one looks. -/
theorem treeAt_copy (hv : v.Within s.extent) (n : Nat) :
    (s.copy v).2.treeAt n (s.copy v).1 = (s.copy v).2.treeAt n v := by
  cases n with
  | zero => cases v <;> rfl
  | succ n =>
    cases v with
    | list i =>
      simp only [copy, addList, treeAt, Value.treeWith, Heap.get_push_size,
        Heap.get_push_lt _ _ _ hv]
    | map i =>
      simp only [copy, newMap, treeAt, Value.treeWith, Heap.get_push_size,
        Heap.get_push_lt _ _ _ hv]
    | matrix i =>
      simp only [copy, newMatrix, treeAt, Value.treeWith, Heap.get_push_size,
        Heap.get_push_lt _ _ _ hv]
    | graph i =>
      simp only [copy, newGraph, treeAt, Value.treeWith, Heap.get_push_size,
        Heap.get_push_lt _ _ _ hv]
    | _ => rfl

theorem Ends.parts (h : s.Ends v) {x : Value} (hx : x ∈ s.parts v) : s.Ends x := by
  unfold Store.parts at hx
  split at hx
  case h_1 r hr => exact h.inside (by rw [Value.refs_of_container? hr]; exact List.mem_cons_self) hx
  case h_2 => rwa [List.mem_singleton.mp hx]

theorem Ends.reaches_iff (h : s.Ends v) (hst : s.Extends t) : t.Reaches v r ↔ s.Reaches v r :=
  reaches_congr fun _ hq => hst.cell_eq _ (h.lt hq)

/-- A copy and the original both reach what is inside, and nothing else. -/
theorem Copied.shared_iff (h : s.Copied t v u) (hv : s.Ends v) (hst : s.Extends t) :
    t.Reaches u r ∧ t.Reaches v r ↔ ∃ x ∈ s.parts v, s.Reaches x r := by
  have hcopy : t.Reaches u r ↔ u.container? = some r ∨ ∃ x ∈ s.parts v, s.Reaches x r := by
    rw [reaches_iff_parts, h.parts]
    refine or_congr_right (exists_congr fun x => and_congr_right fun hx => ?_)
    exact (hv.parts hx).reaches_iff hst
  rw [hcopy, hv.reaches_iff hst]
  constructor
  · rintro ⟨hr | hr, hvr⟩
    · have hnew := (h.fresh r hr).1
      have hold := hv.lt hvr
      omega
    · exact hr
  · exact fun hr => ⟨.inr hr, reaches_iff_parts.mpr (.inr hr)⟩

/-- A copy has the contents of the original. The two share what is inside the original, and changes
on one side never show on the other exactly if nothing that can be changed is inside. -/
theorem copy_separates_iff (hv : s.Ends v) (h : s.copy v = (u, t)) :
    (t.tree u = s.tree v ∧ t.tree v = s.tree v) ∧
      (∀ r, t.Reaches u r ∧ t.Reaches v r ↔ ∃ x ∈ s.parts v, s.Reaches x r) ∧
      (t.Shields u v ↔ s.Firm v) ∧ (t.Shields v u ↔ s.Firm v) := by
  obtain rfl : (s.copy v).1 = u := congrArg Prod.fst h
  obtain rfl : (s.copy v).2 = t := congrArg Prod.snd h
  have hst := s.extends_copy v
  have hsame := hv.tree_eq hst
  have hshared (r : Ref) := (s.copied_copy v).shared_iff (r := r) hv hst
  have hold {r : Ref} (hr : (s.copy v).2.Reaches v r) : r.2 < s.extent r.1 :=
    hv.lt ((hv.reaches_iff hst).mp hr)
  have hfixed {r : Ref} (hr : (s.copy v).2.Reaches v r) :
      (s.copy v).2.Fixed r ↔ s.Fixed r := fixed_congr (hst.cell_eq r (hold hr))
  have hapart : (s.copy v).2.Apart (s.copy v).1 v ↔ s.Firm v := by
    constructor
    · intro h x hx r hr
      obtain ⟨hu, hv⟩ := (hshared r).mpr ⟨x, hx, hr⟩
      exact (hfixed hv).mp (h r hu hv)
    · intro h r hu hv
      obtain ⟨x, hx, hr⟩ := (hshared r).mp ⟨hu, hv⟩
      exact (hfixed hv).mpr (h x hx r hr)
  have hlt {r : Ref} (hr : (s.copy v).2.Reaches v r) : r.2 < (s.copy v).2.extent r.1 :=
    Nat.lt_of_lt_of_le (hold hr) (hst.extent_le r.1)
  refine ⟨⟨?_, hsame⟩, hshared, ?_, ?_⟩
  · rw [← hsame]
    exact treeAt_copy hv.within _
  · rw [shields_iff_apart fun r _ hr => hlt hr, hapart]
  · rw [shields_iff_apart fun r hr _ => hlt hr, ← hapart]
    exact ⟨Apart.symm, Apart.symm⟩

/-- A list with one number, and a list with that list. -/
def grid : Store :=
  ((empty.newList .any [.int 0]).2.newList .any [.list 0]).2

/-- Copies of the inner list are separate from it, and copies of the outer one are not: a number
added to what is inside the copy is inside the original, too. -/
theorem copy_of_grid_shares :
    (grid.copy (.list 0)).2.Shields (grid.copy (.list 0)).1 (.list 0) ∧
      ¬(grid.copy (.list 1)).2.Shields (grid.copy (.list 1)).1 (.list 1) ∧
      ((grid.copy (.list 1)).2.edit (.list 0) (.add (.int 1))).2.tree (.list 1) ≠
        (grid.copy (.list 1)).2.tree (.list 1) := by
  have hinner : grid.Ends (.list 0) := .intro (by decide) (by
    intro r hr u hu
    obtain rfl := List.mem_singleton.mp hr
    obtain rfl := List.mem_singleton.mp hu
    exact .intro trivial fun r hr => nomatch hr)
  have houter : grid.Ends (.list 1) := .intro (by decide) (by
    intro r hr u hu
    obtain rfl := List.mem_singleton.mp hr
    obtain rfl := List.mem_singleton.mp hu
    exact hinner)
  refine ⟨(copy_separates_iff hinner rfl).2.2.1.mpr ?_, fun h => ?_, nofun⟩
  · intro x hx r hr
    obtain rfl := List.mem_singleton.mp hx
    obtain ⟨q, hq⟩ := hr.exists_ref
    cases hq
  · have hfirm := (copy_separates_iff houter rfl).2.2.1.mp h
    cases (hfirm (.list 0) List.mem_cons_self (.list, 0) (.here List.mem_cons_self)).1

end Store
end Habitat
