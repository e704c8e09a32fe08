import Habitat.Proofs.Store.Depth

/-!
# Which containers decide whether values are equal

Values are compared through the containers that they reach, so a change to any other container
does not show in a comparison (`Store.eqAt_congr`). Whether a value is equal to itself is decided
before any container is opened (`Store.eqAt_self`).

The values of two equal containers are equal in pairs. Walking down from two equal values, one
therefore finds the same container on both sides, or two containers whose values are equal in pairs
(`Store.exists_like_of_eqAt`). A container is never part of such a pair with a value inside itself:
what is in a container differs from all values that lead to the container (`Ends.eqAt_of_reaches`),
and once a container is inside itself, nothing that does not lead to it equals what does
(`Store.eqAt_of_loop`).
-/
namespace Habitat

theorem eqLists_congr {α : Type} {f g : α → α → Bool} {as bs : List α}
    (h : ∀ a ∈ as, ∀ b ∈ bs, f a b = g a b) : eqLists f as bs = eqLists g as bs := by
  induction as generalizing bs with
  | nil => cases bs <;> rfl
  | cons a as ih =>
    cases bs with
    | nil => rfl
    | cons b bs =>
      have hhead : f a b = g a b := h a List.mem_cons_self b List.mem_cons_self
      have htail : eqLists f as bs = eqLists g as bs := ih fun x hx y hy =>
        h x (List.mem_cons_of_mem a hx) y (List.mem_cons_of_mem b hy)
      rw [eqLists, eqLists, hhead, htail]

/-- Everything in the second of two equal lists has its like in the first. -/
theorem exists_mem_of_eqLists {α : Type} {eq : α → α → Bool} {as bs : List α}
    (h : eqLists eq as bs = true) {b : α} (hb : b ∈ bs) : ∃ a ∈ as, eq a b = true := by
  induction as generalizing bs with
  | nil =>
    cases bs with
    | nil => cases hb
    | cons => cases h
  | cons a as ih =>
    cases bs with
    | nil => cases h
    | cons c bs =>
      obtain ⟨hac, hrest⟩ := (Bool.and_eq_true _ _).mp h
      rcases List.mem_cons.mp hb with rfl | hb
      · exact ⟨a, List.mem_cons_self, hac⟩
      · obtain ⟨x, hx, hxb⟩ := ih hrest hb
        exact ⟨x, List.mem_cons_of_mem a hx, hxb⟩

/-! ## Comparing containers by kind -/

namespace Value

variable {c d : Store.Kind → Nat → Nat → Bool} {a b : Value}

/-- Values compare alike if the containers that they refer to do. -/
theorem eqWith_congr
    (h : ∀ k i j, (k, i) ∈ a.refs → (k, j) ∈ b.refs → c k i j = d k i j) :
    a.eqWith (c .list) (c .map) (c .matrix) (c .graph) b =
      a.eqWith (d .list) (d .map) (d .matrix) (d .graph) b := by
  induction a generalizing b with
  | pair a a' iha iha' =>
    cases b with
    | pair b b' =>
      have hleft := iha (b := b) fun k i j hi hj =>
        h k i j (List.mem_append_left _ hi) (List.mem_append_left _ hj)
      have hright := iha' (b := b') fun k i j hi hj =>
        h k i j (List.mem_append_right _ hi) (List.mem_append_right _ hj)
      rw [eqWith, eqWith, hleft, hright]
    | _ => rfl
  | list i =>
    cases b with
    | list j => exact h .list i j List.mem_cons_self List.mem_cons_self
    | _ => rfl
  | map i =>
    cases b with
    | map j => exact h .map i j List.mem_cons_self List.mem_cons_self
    | _ => rfl
  | matrix i =>
    cases b with
    | matrix j => exact h .matrix i j List.mem_cons_self List.mem_cons_self
    | _ => rfl
  | graph i =>
    cases b with
    | graph j => exact h .graph i j List.mem_cons_self List.mem_cons_self
    | _ => rfl
  | _ => cases b <;> rfl

theorem eqWith_self (h : ∀ k i, c k i i = d k i i) (a : Value) :
    a.eqWith (c .list) (c .map) (c .matrix) (c .graph) a =
      a.eqWith (d .list) (d .map) (d .matrix) (d .graph) a := by
  induction a with
  | pair a b iha ihb => rw [eqWith, eqWith, iha, ihb]
  | list i | map i | matrix i | graph i => exact h _ i
  | _ => rfl

/-- A container that one of two equal values refers to stands opposite one that compares equal. -/
theorem exists_ref_of_eqWith
    (h : a.eqWith (c .list) (c .map) (c .matrix) (c .graph) b = true) {k : Store.Kind} {j : Nat}
    (hj : (k, j) ∈ b.refs) : ∃ i, (k, i) ∈ a.refs ∧ c k i j = true := by
  induction b generalizing a with
  | pair b b' ihb ihb' =>
    cases a with
    | pair a a' =>
      rw [eqWith, Bool.and_eq_true] at h
      rcases List.mem_append.mp hj with hj | hj
      · obtain ⟨i, hi, hij⟩ := ihb h.1 hj
        exact ⟨i, List.mem_append_left _ hi, hij⟩
      · obtain ⟨i, hi, hij⟩ := ihb' h.2 hj
        exact ⟨i, List.mem_append_right _ hi, hij⟩
    | _ => cases h
  | list =>
    cases List.mem_singleton.mp hj
    cases a with
    | list i => exact ⟨i, List.mem_cons_self, h⟩
    | _ => cases h
  | map =>
    cases List.mem_singleton.mp hj
    cases a with
    | map i => exact ⟨i, List.mem_cons_self, h⟩
    | _ => cases h
  | matrix =>
    cases List.mem_singleton.mp hj
    cases a with
    | matrix i => exact ⟨i, List.mem_cons_self, h⟩
    | _ => cases h
  | graph =>
    cases List.mem_singleton.mp hj
    cases a with
    | graph i => exact ⟨i, List.mem_cons_self, h⟩
    | _ => cases h
  | _ => cases hj

end Value

namespace Store

variable {s t : Store} {a b u v : Value} {p q r : Ref} {n m : Nat}

/-- Equality of containers of a kind that looks into `n` more nested ones. -/
def alike (s : Store) (n : Nat) : Kind → Nat → Nat → Bool
  | .list, i, j =>
    i == j || eqLists (s.eqAt n) (s.lists.get i).items.toList (s.lists.get j).items.toList
  | .map, i, j =>
    i == j || eqLists (fun x y => s.eqAt n x.1 y.1 && s.eqAt n x.2 y.2)
      (s.maps.get i).entries (s.maps.get j).entries
  | .matrix, i, j =>
    i == j ||
      let x := s.matrices.get i
      let y := s.matrices.get j
      x.cols == y.cols && x.rows == y.rows && x.content == y.content &&
        eqLists (s.eqAt n) x.cells.toList y.cells.toList
  | .graph, i, j =>
    i == j ||
      let x := s.graphs.get i
      let y := s.graphs.get j
      eqLists (s.eqAt n) x.vertices y.vertices &&
        eqLists (fun e f => s.eqAt n e.source f.source && s.eqAt n e.target f.target &&
          e.weight == f.weight) x.edges y.edges

/-- Only the same container is equal if none is opened. -/
theorem eqAt_zero (s : Store) (a b : Value) :
    s.eqAt 0 a b = a.eqWith (· == ·) (· == ·) (· == ·) (· == ·) b := rfl

theorem eqAt_succ (s : Store) (n : Nat) (a b : Value) :
    s.eqAt (n + 1) a b =
      a.eqWith (s.alike n .list) (s.alike n .map) (s.alike n .matrix) (s.alike n .graph) b := rfl

theorem alike_self (s : Store) (n : Nat) (k : Kind) (i : Nat) : s.alike n k i i = true := by
  cases k <;> simp [alike]

/-- Whether a value equals itself is decided without opening a container. -/
theorem eqAt_self (s : Store) (n : Nat) (v : Value) : s.eqAt n v v = s.eqAt 0 v v := by
  cases n with
  | zero => rfl
  | succ n =>
    rw [eqAt_succ, eqAt_zero]
    refine Value.eqWith_self (d := fun _ i j => i == j) (fun k i => ?_) v
    rw [alike_self, beq_self_eq_true]

/-! ## Containers that a comparison opens -/

theorem mem_cell_of_entry {i : Nat} {e : Value × Value} (he : e ∈ (s.maps.get i).entries)
    (hu : u ∈ [e.1, e.2]) : u ∈ (s.cell (.map, i)).values :=
  List.mem_flatMap.mpr ⟨e, he, hu⟩

theorem mem_cell_of_edge {i : Nat} {e : Edge} (he : e ∈ (s.graphs.get i).edges)
    (hu : u ∈ [e.source, e.target]) : u ∈ (s.cell (.graph, i)).values :=
  List.mem_append_right _ (List.mem_flatMap.mpr ⟨e, he, hu⟩)

/-- Equality of containers is decided by their contents and by the equality of the values in
them. -/
theorem alike_congr {k : Kind} {i j : Nat} (hi : t.cell (k, i) = s.cell (k, i))
    (hj : t.cell (k, j) = s.cell (k, j))
    (hinside : ∀ u ∈ (s.cell (k, i)).values, ∀ v ∈ (s.cell (k, j)).values,
      t.eqAt n u v = s.eqAt n u v) : t.alike n k i j = s.alike n k i j := by
  cases k with
  | list =>
    have hi : t.lists.get i = s.lists.get i := Object.list.inj hi
    have hj : t.lists.get j = s.lists.get j := Object.list.inj hj
    simp only [alike, hi, hj]
    congr 1
    exact eqLists_congr hinside
  | map =>
    have hi : t.maps.get i = s.maps.get i := Object.map.inj hi
    have hj : t.maps.get j = s.maps.get j := Object.map.inj hj
    have hvalue {e f : Value × Value} (he : e ∈ (s.maps.get i).entries)
        (hf : f ∈ (s.maps.get j).entries) {u v : Value} (hu : u ∈ [e.1, e.2])
        (hv : v ∈ [f.1, f.2]) : t.eqAt n u v = s.eqAt n u v :=
      hinside u (mem_cell_of_entry he hu) v (mem_cell_of_entry hf hv)
    simp only [alike, hi, hj]
    congr 1
    exact eqLists_congr fun e he f hf => by
      rw [hvalue he hf (u := e.1) (v := f.1) (by simp) (by simp),
        hvalue he hf (u := e.2) (v := f.2) (by simp) (by simp)]
  | matrix =>
    have hi : t.matrices.get i = s.matrices.get i := Object.matrix.inj hi
    have hj : t.matrices.get j = s.matrices.get j := Object.matrix.inj hj
    simp only [alike, hi, hj]
    congr 2
    exact eqLists_congr hinside
  | graph =>
    have hi : t.graphs.get i = s.graphs.get i := Object.graph.inj hi
    have hj : t.graphs.get j = s.graphs.get j := Object.graph.inj hj
    have hvalue {e f : Edge} (he : e ∈ (s.graphs.get i).edges)
        (hf : f ∈ (s.graphs.get j).edges) {u v : Value} (hu : u ∈ [e.source, e.target])
        (hv : v ∈ [f.source, f.target]) : t.eqAt n u v = s.eqAt n u v :=
      hinside u (mem_cell_of_edge he hu) v (mem_cell_of_edge hf hv)
    simp only [alike, hi, hj]
    congr 2
    · exact eqLists_congr fun u hu v hv =>
        hinside u (List.mem_append_left _ hu) v (List.mem_append_left _ hv)
    · exact eqLists_congr fun e he f hf => by
        rw [hvalue he hf (u := e.source) (v := f.source) (by simp) (by simp),
          hvalue he hf (u := e.target) (v := f.target) (by simp) (by simp)]

/-- Equality is decided by the containers that the two values reach. -/
theorem eqAt_congr (ha : ∀ q, s.Reaches a q → t.cell q = s.cell q)
    (hb : ∀ q, s.Reaches b q → t.cell q = s.cell q) : t.eqAt n a b = s.eqAt n a b := by
  induction n generalizing a b with
  | zero => rfl
  | succ n ih =>
    rw [eqAt_succ, eqAt_succ]
    refine Value.eqWith_congr fun k i j hi hj => ?_
    refine alike_congr (ha _ (.here hi)) (hb _ (.here hj)) fun u hu v hv => ?_
    exact ih (fun r hr => ha r (.inside hi hu hr)) fun r hr => hb r (.inside hj hv hr)

/-! ## Equal values, side by side -/

/-- Everything in `q` has its like in `p`, compared `n` containers deep. -/
def Likens (s : Store) (n : Nat) (p q : Ref) : Prop :=
  ∀ v ∈ (s.cell q).values, ∃ u ∈ (s.cell p).values, s.eqAt n u v = true

theorem likens_map {i j : Nat}
    (h : eqLists (fun x y => s.eqAt n x.1 y.1 && s.eqAt n x.2 y.2) (s.maps.get i).entries
      (s.maps.get j).entries = true) : s.Likens n (.map, i) (.map, j) := by
  intro v hv
  obtain ⟨f, hf, hvf⟩ := List.mem_flatMap.mp hv
  obtain ⟨e, he, hef⟩ := exists_mem_of_eqLists h hf
  obtain ⟨hkey, hvalue⟩ := (Bool.and_eq_true _ _).mp hef
  rcases List.mem_pair.mp hvf with rfl | rfl
  · exact ⟨e.1, mem_cell_of_entry he (by simp), hkey⟩
  · exact ⟨e.2, mem_cell_of_entry he (by simp), hvalue⟩

theorem likens_graph {i j : Nat}
    (hvertices : eqLists (s.eqAt n) (s.graphs.get i).vertices (s.graphs.get j).vertices = true)
    (hedges : eqLists (fun e f => s.eqAt n e.source f.source && s.eqAt n e.target f.target &&
      e.weight == f.weight) (s.graphs.get i).edges (s.graphs.get j).edges = true) :
    s.Likens n (.graph, i) (.graph, j) := by
  intro v hv
  rcases List.mem_append.mp hv with hv | hv
  · obtain ⟨u, hu, huv⟩ := exists_mem_of_eqLists hvertices hv
    exact ⟨u, List.mem_append_left _ hu, huv⟩
  · obtain ⟨f, hf, hvf⟩ := List.mem_flatMap.mp hv
    obtain ⟨e, he, hef⟩ := exists_mem_of_eqLists hedges hf
    simp only [Bool.and_eq_true] at hef
    obtain ⟨⟨hsource, htarget⟩, _⟩ := hef
    rcases List.mem_pair.mp hvf with rfl | rfl
    · exact ⟨e.source, mem_cell_of_edge he (by simp), hsource⟩
    · exact ⟨e.target, mem_cell_of_edge he (by simp), htarget⟩

/-- Equal containers are the same one, or everything in one has its like in the other. -/
theorem eq_or_likens_of_alike {k : Kind} {i j : Nat} (h : s.alike n k i j = true) :
    i = j ∨ s.Likens n (k, i) (k, j) := by
  cases k with
  | list =>
    rcases (Bool.or_eq_true _ _).mp h with hij | hitems
    · exact .inl (beq_iff_eq.mp hij)
    · exact .inr fun v hv => exists_mem_of_eqLists hitems hv
  | map =>
    rcases (Bool.or_eq_true _ _).mp h with hij | hentries
    · exact .inl (beq_iff_eq.mp hij)
    · exact .inr (likens_map hentries)
  | matrix =>
    rcases (Bool.or_eq_true _ _).mp h with hij | hrest
    · exact .inl (beq_iff_eq.mp hij)
    · obtain ⟨_, hcells⟩ := (Bool.and_eq_true _ _).mp hrest
      exact .inr fun v hv => exists_mem_of_eqLists hcells hv
  | graph =>
    rcases (Bool.or_eq_true _ _).mp h with hij | hrest
    · exact .inl (beq_iff_eq.mp hij)
    · obtain ⟨hvertices, hedges⟩ := (Bool.and_eq_true _ _).mp hrest
      exact .inr (likens_graph hvertices hedges)

/-- A container that one of two equal values refers to is opposite itself or a container that it is
like. -/
theorem exists_ref_of_eqAt (h : s.eqAt n a b = true) (hq : q ∈ b.refs) :
    ∃ p ∈ a.refs, p = q ∨ ∃ m < n, s.Likens m p q := by
  obtain ⟨k, j⟩ := q
  cases n with
  | zero =>
    rw [eqAt_zero] at h
    obtain ⟨i, hi, hij⟩ := Value.exists_ref_of_eqWith (c := fun _ i j => i == j) h hq
    exact ⟨(k, i), hi, .inl (by rw [beq_iff_eq.mp hij])⟩
  | succ n =>
    rw [eqAt_succ] at h
    obtain ⟨i, hi, hij⟩ := Value.exists_ref_of_eqWith h hq
    rcases eq_or_likens_of_alike hij with rfl | hlike
    · exact ⟨(k, i), hi, .inl rfl⟩
    · exact ⟨(k, i), hi, .inr ⟨n, n.lt_succ_self, hlike⟩⟩

/-- A container that one of two equal values reaches is reached by the other one too, or is like
one that the other reaches. -/
theorem exists_like_of_eqAt (h : s.eqAt n a b = true) (hr : s.Reaches b r) :
    s.Reaches a r ∨ ∃ p, ∃ m < n, s.Reaches a p ∧ s.Likens m p r := by
  induction hr generalizing n a with
  | here hr =>
    obtain ⟨p, hp, rfl | ⟨m, hm, hlike⟩⟩ := exists_ref_of_eqAt h hr
    · exact .inl (.here hp)
    · exact .inr ⟨p, m, hm, .here hp, hlike⟩
  | inside hq hu hr ih =>
    obtain ⟨p, hp, rfl | ⟨m, hm, hlike⟩⟩ := exists_ref_of_eqAt h hq
    · exact .inl (.inside hp hu hr)
    · obtain ⟨w, hw, hwu⟩ := hlike _ hu
      rcases ih hwu with hreach | ⟨p', m', hm', hreach, hlike'⟩
      · exact .inl (.inside hp hw hreach)
      · exact .inr ⟨p', m', by omega, .inside hp hw hreach, hlike'⟩

theorem Ends.of_reaches (h : s.Ends a) (hr : s.Reaches a r) (hu : u ∈ (s.cell r).values) :
    s.Ends u := by
  induction hr with
  | here hr => exact h.inside hr hu
  | inside hq hw _ ih => exact ih (h.inside hq hw) hu

/-- A value does not lead to a container that it is in. -/
theorem Ends.not_reaches_of_mem (h : s.Ends a) (ha : a ∈ (s.cell r).values) :
    ¬s.Reaches a r := by
  intro hr
  cases hr with
  | here hr => exact h.not_reaches hr ha (.here hr)
  | inside hq hu hur => exact h.not_reaches hq hu (hur.trans ha (.here hq))

/-- What is in a container differs from all that leads to the container. -/
theorem Ends.eqAt_of_reaches (h : s.Ends a) (ha : a ∈ (s.cell r).values)
    (hb : s.Reaches b r) : s.eqAt n a b = false := by
  induction n using Nat.strong_induction_on generalizing a b r with
  | _ n ih =>
    rw [Bool.eq_false_iff]
    intro hab
    rcases exists_like_of_eqAt hab hb with hreach | ⟨p, m, hm, hreach, hlike⟩
    · exact h.not_reaches_of_mem ha hreach
    · -- What `a` is like is inside `a`, and so there would be no end to going further inside.
      obtain ⟨u, hu, hua⟩ := hlike a ha
      rw [ih m hm (h.of_reaches hreach hu) hu hreach] at hua
      cases hua

/-- If a container is inside itself, what does not lead to it differs from all that does. -/
theorem eqAt_of_loop (hv : v ∈ (s.cell r).values) (hloop : s.Reaches v r)
    (ha : ¬s.Reaches a r) (hb : s.Reaches b r) : s.eqAt n a b = false := by
  induction n using Nat.strong_induction_on generalizing a b with
  | _ n ih =>
    rw [Bool.eq_false_iff]
    intro hab
    rcases exists_like_of_eqAt hab hb with hreach | ⟨p, m, hm, hreach, hlike⟩
    · exact ha hreach
    · obtain ⟨u, hu, huv⟩ := hlike v hv
      rw [ih m hm (fun hur => ha (hreach.trans hu hur)) hloop] at huv
      cases huv

end Store
end Habitat
