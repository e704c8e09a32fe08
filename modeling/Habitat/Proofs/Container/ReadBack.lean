import Habitat.Expr.Operators
import Habitat.Proofs.Container.Failure
import Habitat.Proofs.Store.Equality

/-!
# Reading back what was put

A value that was put into a container is read at the same index. Writing and reading take an index
apart in different ways, so this is a fact about each kind of container. A list reads the integer
that it wrote at. A map and a graph compare keys, before the write to find its place and afterwards
to find the value; both comparisons agree even if the key leads to the container, which by then is
inside itself (`Store.eq_of_stored`). A matrix writes to the cell that it reads
(`MatrixCell.cellIndex?_of_offset`), with two exceptions:

* A number that counts the cells row by row is a place to write and not one to read
  (`Store.Counted`).
* A point with a negative coordinate is no place to write, but reads the cell at zero
  (`Store.Clamped`).
-/
namespace Habitat

open Decimal (truncate signedEnd toNat_truncate)

/-! ## Keys that are compared twice -/

namespace Store

variable {s t : Store} {r : Ref} {k x : Value}

/-- The keys that a container compares an index with. -/
def keys (s : Store) : Value → List Value
  | .map i => (s.maps.get i).keys
  | .graph i => (s.graphs.get i).edges.flatMap fun e => [e.source, e.target]
  | _ => []

/-- A change to a container leaves the ways that lead to it. -/
theorem Reaches.of_others (h : s.Reaches x r) (hothers : ∀ q ≠ r, t.cell q = s.cell q) :
    t.Reaches x r := by
  induction h with
  | here h => exact .here h
  | @inside v u q r hq hu _ ih =>
    by_cases hqr : q = r
    · exact .here (hqr ▸ hq)
    · rw [← hothers q hqr] at hu
      exact .inside hq hu (ih hothers)

/-- A change to one container does not change how its keys compare, if a key that leads to the
container is found in it afterwards. -/
theorem eq_of_stored (hothers : ∀ q ≠ r, t.cell q = s.cell q) (hsize : t.size = s.size)
    (hk : s.Ends k) (hmem : k ∈ (s.cell r).values)
    (hstored : s.Reaches x r → x ∈ (t.cell r).values) : t.eq k x = s.eq k x := by
  have hkr : ¬s.Reaches k r := hk.not_reaches_of_mem hmem
  have hsame {v : Value} (hv : ¬s.Reaches v r) (q : Ref) (hq : s.Reaches v q) :
      t.cell q = s.cell q := hothers q fun hqr => hv (hqr ▸ hq)
  unfold eq
  rw [hsize]
  by_cases hx : s.Reaches x r
  · have hkr' : ¬t.Reaches k r := fun h => hkr ((reaches_congr (hsame hkr)).mp h)
    have hx' : t.Reaches x r := hx.of_others hothers
    rw [hk.eqAt_of_reaches hmem hx, eqAt_of_loop (hstored hx) hx' hkr' hx']
  · exact eqAt_congr (hsame hkr) (hsame hx)

/-- No change to containers makes a value differ from itself. -/
theorem eq_self_congr (s t : Store) (x : Value) : t.eq x x = s.eq x x := by
  unfold eq
  rw [eqAt_self t, eqAt_self s, eqAt_zero, eqAt_zero]

end Store

namespace MapCell

variable {eq eq' : Value → Value → Bool} {k v : Value} {es : List (Value × Value)}

/-- A key that is put is found by any comparison that treats the old keys alike. -/
theorem find?_putEntry (hsame : ∀ e ∈ es, eq' e.1 k = eq e.1 k) (hself : eq' k k = true) :
    ((putEntry eq k v es).find? fun e => eq' e.1 k).map (·.2) = some v := by
  induction es with
  | nil => simp [putEntry, hself]
  | cons e rest ih =>
    have he := hsame e List.mem_cons_self
    have hrest := ih fun f hf => hsame f (List.mem_cons_of_mem e hf)
    by_cases hek : eq e.1 k = true
    · simp [putEntry, hek, he]
    · simp [putEntry, hek, he, hrest]

theorem mem_putEntry (h : ∀ e ∈ es, eq e.1 k = false) : (k, v) ∈ putEntry eq k v es := by
  induction es with
  | nil => exact List.mem_cons_self
  | cons e rest ih =>
    have hrest := ih fun f hf => h f (List.mem_cons_of_mem e hf)
    simp [putEntry, h e List.mem_cons_self, hrest]

end MapCell

namespace GraphCell

variable {eq eq' : Value → Value → Bool} {a b : Value} {w : Float} {es : List Edge}

/-- An edge that is put is found by any comparison that treats the old endpoints alike. -/
theorem find?_putEdge (hsame : ∀ e ∈ es, joins eq' a b e = joins eq a b e)
    (hself : joins eq' a b ⟨a, b, w⟩ = true) :
    ((putEdge eq a b w es).find? (joins eq' a b)).map (·.weight) = some w := by
  induction es with
  | nil => simp [putEdge, hself]
  | cons e rest ih =>
    have he := hsame e List.mem_cons_self
    have hrest := ih fun f hf => hsame f (List.mem_cons_of_mem e hf)
    by_cases hek : joins eq a b e = true
    · have hnew : joins eq' a b { e with weight := w } = true := he.trans hek
      simp [putEdge, hek, hnew]
    · simp [putEdge, hek, he, hrest]

theorem mem_putEdge (h : ∀ e ∈ es, joins eq a b e = false) :
    (⟨a, b, w⟩ : Edge) ∈ putEdge eq a b w es := by
  induction es with
  | nil => exact List.mem_cons_self
  | cons e rest ih =>
    have hrest := ih fun f hf => h f (List.mem_cons_of_mem e hf)
    simp [putEdge, h e List.mem_cons_self, hrest]

theorem edges_addVertex (eq : Value → Value → Bool) (g : GraphCell) (v : Value) :
    (g.addVertex eq v).edges = g.edges := by
  unfold addVertex
  split <;> rfl

theorem edges_addEdge (eq : Value → Value → Bool) (g : GraphCell) (a b : Value) (w : Float) :
    (g.addEdge eq a b w).edges = putEdge eq a b w g.edges := by
  simp only [addEdge, edges_addVertex]

end GraphCell

namespace Store

/-! ## Maps and graphs -/

section
variable {s : Store} {index value : Value} {i : Nat}

theorem cell_of_edit {c : Value} {request : Edit} {reply : Except ContainerError EditReply}
    {t : Store} (h : s.edit c request = (reply, t)) {q : Ref} (hq : q ∉ c.refs) :
    t.cell q = s.cell q := by
  have hcell := edit_cell s hq request
  rwa [h] at hcell

/-- A key is found in a map that it was put into. -/
theorem get?_put (hi : i < s.maps.size) (hkeys : ∀ k ∈ s.keys (.map i), s.Ends k)
    (hself : s.eq index index = true) {reply : EditReply} {t : Store}
    (hput : s.edit (.map i) (.put index value) = (.ok reply, t)) :
    (t.maps.get i).get? t.eq index = some value := by
  have hothers (q : Ref) (hq : q ≠ (.map, i)) : t.cell q = s.cell q :=
    cell_of_edit hput fun hmem => hq (List.mem_singleton.mp hmem)
  cases hput
  generalize ht : ({ s with maps := _ } : Store) = t at hothers ⊢
  have hcell : t.maps.get i = (s.maps.get i).put s.eq index value := by
    rw [← ht, Heap.get_eq, Heap.get?_set_self _ _ _ hi, Option.getD_some]
  have hsize : t.size = s.size := by simp only [← ht, size, Heap.size_set]
  have hends {e : Value × Value} (he : e ∈ (s.maps.get i).entries) : s.Ends e.1 :=
    hkeys e.1 (List.mem_map_of_mem he)
  have hmem {e : Value × Value} (he : e ∈ (s.maps.get i).entries) :
      e.1 ∈ (s.cell (.map, i)).values := mem_cell_of_entry he List.mem_cons_self
  -- A key that leads to the map equals none of the keys, and so it was appended.
  have hstored (hreach : s.Reaches index (.map, i)) : index ∈ (t.cell (.map, i)).values := by
    have hnew : (index, value) ∈ (t.maps.get i).entries := by
      rw [hcell]
      exact MapCell.mem_putEntry fun e he => (hends he).eqAt_of_reaches (hmem he) hreach
    exact mem_cell_of_entry hnew List.mem_cons_self
  rw [hcell, MapCell.get?]
  refine MapCell.find?_putEntry (fun e he => ?_) ((eq_self_congr s t index).trans hself)
  exact eq_of_stored hothers hsize (hends he) (hmem he) hstored

/-- An edge is found in a graph that it was put into. -/
theorem weight?_addEdge {a b : Value} {w : Float} (hi : i < s.graphs.size)
    (hkeys : ∀ k ∈ s.keys (.graph i), s.Ends k) (ha : s.eq a a = true) (hb : s.eq b b = true)
    {t : Store} (hothers : ∀ q ≠ (.graph, i), t.cell q = s.cell q)
    (ht : t = { s with graphs := s.graphs.set i ((s.graphs.get i).addEdge s.eq a b w) }) :
    (t.graphs.get i).weight? t.eq a b = some w := by
  have hedges : (t.graphs.get i).edges = GraphCell.putEdge s.eq a b w (s.graphs.get i).edges := by
    rw [ht, Heap.get_eq, Heap.get?_set_self _ _ _ hi, Option.getD_some, GraphCell.edges_addEdge]
  have hsize : t.size = s.size := by simp only [ht, size, Heap.size_set]
  have hends {e : Edge} (he : e ∈ (s.graphs.get i).edges) : s.Ends e.source ∧ s.Ends e.target :=
    ⟨hkeys _ (List.mem_flatMap.mpr ⟨e, he, by simp⟩),
      hkeys _ (List.mem_flatMap.mpr ⟨e, he, by simp⟩)⟩
  have hsource {e : Edge} (he : e ∈ (s.graphs.get i).edges) :
      e.source ∈ (s.cell (.graph, i)).values := mem_cell_of_edge he (by simp)
  have htarget {e : Edge} (he : e ∈ (s.graphs.get i).edges) :
      e.target ∈ (s.cell (.graph, i)).values := mem_cell_of_edge he (by simp)
  -- An endpoint that leads to the graph equals no endpoint of an edge, and so it was appended.
  have happended (hnone : ∀ e ∈ (s.graphs.get i).edges, GraphCell.joins s.eq a b e = false)
      {x : Value} (hx : x ∈ [a, b]) : x ∈ (t.cell (.graph, i)).values := by
    have hnew : (⟨a, b, w⟩ : Edge) ∈ (t.graphs.get i).edges := by
      rw [hedges]
      exact GraphCell.mem_putEdge hnone
    exact mem_cell_of_edge hnew hx
  have hstored (hreach : s.Reaches a (.graph, i)) : a ∈ (t.cell (.graph, i)).values := by
    refine happended (fun e he => ?_) List.mem_cons_self
    have hne : s.eq e.source a = false := (hends he).1.eqAt_of_reaches (hsource he) hreach
    rw [GraphCell.joins, hne, Bool.false_and]
  have hstored' (hreach : s.Reaches b (.graph, i)) : b ∈ (t.cell (.graph, i)).values := by
    refine happended (fun e he => ?_) (by simp)
    have hne : s.eq e.target b = false := (hends he).2.eqAt_of_reaches (htarget he) hreach
    rw [GraphCell.joins, hne, Bool.and_false]
  rw [GraphCell.weight?, hedges]
  refine GraphCell.find?_putEdge (fun e he => ?_) ?_
  · rw [GraphCell.joins, GraphCell.joins,
      eq_of_stored hothers hsize (hends he).1 (hsource he) hstored,
      eq_of_stored hothers hsize (hends he).2 (htarget he) hstored']
  · rw [GraphCell.joins, eq_self_congr s t, eq_self_congr s t, ha, hb, Bool.and_self]

end

end Store

/-! ## Matrices -/

namespace MatrixCell

/-- The matrix has as many cells as its shape says, and a word counts them. So it is made
(`shaped_filled`), and no request changes it (`edit_shape`). -/
structure Shaped (m : MatrixCell) : Prop where
  size : m.cells.size = m.cols * m.rows
  lt : m.cells.size < signedEnd

variable {s : Store} {m : MatrixCell} {index : Value} {col row : Nat}

theorem shaped_filled {cols rows : Nat} (h : cols * rows < signedEnd) (fill : Value) :
    (filled cols rows fill).Shaped := by
  have hsize : (filled cols rows fill).cells.size = cols * rows := Array.size_replicate
  exact ⟨hsize, hsize ▸ h⟩

/-- No request changes the sides of a matrix or the number of its cells. -/
theorem edit_shape {request : Edit} {c : Change MatrixCell} (h : m.edit s request = .ok c) :
    (c.apply m).cols = m.cols ∧ (c.apply m).rows = m.rows ∧
      (c.apply m).cells.size = m.cells.size := by
  unfold MatrixCell.edit at h
  split at h
  case h_1 i v =>
    cases hp : m.offset s i with
    | error e => rw [hp] at h; cases h
    | ok p =>
      rw [hp] at h
      cases h
      exact ⟨rfl, rfl, Array.size_setIfInBounds⟩
  case h_2 v =>
    cases h
    exact ⟨rfl, rfl, Array.size_map⟩
  case h_6 => cases h
  all_goals
    cases h
    exact ⟨rfl, rfl, rfl⟩

theorem place_lt {cols rows : Nat} (hcol : col < cols) (hrow : row < rows) :
    row * cols + col < cols * rows := by
  have hrows : (row + 1) * cols ≤ rows * cols := Nat.mul_le_mul_right _ hrow
  rw [Nat.add_mul] at hrows
  rw [Nat.mul_comm cols]
  omega

theorem Shaped.offset_lt (hm : m.Shaped) (hcol : col < m.cols) (hrow : row < m.rows) :
    row * m.cols + col < m.cells.size :=
  hm.size ▸ place_lt hcol hrow

/-- The sides of a matrix that has cells are no longer than a word counts. -/
theorem Shaped.sides_lt (hm : m.Shaped) (hcol : 0 < m.cols) (hrow : 0 < m.rows) :
    m.cols < signedEnd ∧ m.rows < signedEnd := by
  have hlt := hm.lt
  rw [hm.size] at hlt
  exact ⟨Nat.lt_of_le_of_lt (Nat.le_mul_of_pos_right _ hrow) hlt,
    Nat.lt_of_le_of_lt (Nat.le_mul_of_pos_left _ hcol) hlt⟩

/-- Within a side that a word counts, a coordinate that is not negative is truncated to the same
number for writing and for reading. -/
theorem truncate_lt_iff {x : Float} {n : Nat} (hn : n < signedEnd) (h : 0 ≤ (truncate x).toInt) :
    (truncate x).toInt < n ↔ x.toUInt64.toNat < n := by
  have htrunc := toNat_truncate x
  omega

theorem toUInt64_of_lt {x : Float} {n : Nat} (hn : n < signedEnd) (hx : x.toUInt64.toNat < n) :
    x.toUInt64.toNat = (truncate x).toInt.toNat := by
  have htrunc := toNat_truncate x
  omega

theorem naturalIndex?_of_asInt {v : Value} {n : Int64} (hv : v.asInt = some n)
    (hn : 0 ≤ n.toInt) : Store.naturalIndex? v = some n.toInt.toNat := by
  simp only [Store.naturalIndex?, hv, hn, if_true]

theorem naturalIndex?_eq_some {v : Value} {i : Nat} (h : Store.naturalIndex? v = some i) :
    ∃ n : Int64, v.asInt = some n ∧ 0 ≤ n.toInt ∧ n.toInt.toNat = i := by
  unfold Store.naturalIndex? at h
  split at h
  case h_1 n hn =>
    split at h
    · exact ⟨n, hn, ‹_›, Option.some.inj h⟩
    · cases h
  case h_2 => cases h

/-- The index counts the cells of a matrix row by row. -/
def Counts (index : Value) : Prop := ∃ n, index = .int n

/-- The index is a point with a coordinate below zero. -/
def Negative (index : Value) : Prop :=
  ∃ x y, index = .point x y ∧ ((truncate x).toInt < 0 ∨ (truncate y).toInt < 0)

/-- An index that is neither a number nor a point is two numbers. -/
theorem coordinates_eq_ok (hpoint : ∀ x y, index ≠ .point x y) {col row : Int64} :
    coordinates s index = .ok (col, row) ↔
      ∃ x y, s.elements index = [x, y] ∧ x.asInt = some col ∧ y.asInt = some row := by
  unfold coordinates
  split
  case h_1 x y => exact absurd rfl (hpoint x y)
  case h_2 =>
    split
    case h_1 x y hxy =>
      cases hx : x.asInt <;> cases hy : y.asInt <;> simp [hxy, hx, hy]
    case h_2 hne =>
      refine ⟨fun h => (by cases h), ?_⟩
      rintro ⟨x, y, hxy, _⟩
      exact absurd hxy (hne x y)

theorem cellIndex?_eq_some (hpoint : ∀ x y, index ≠ .point x y) :
    s.cellIndex? index = some (col, row) ↔
      ∃ x y, s.elements index = [x, y] ∧ Store.naturalIndex? x = some col ∧
        Store.naturalIndex? y = some row := by
  unfold Store.cellIndex?
  split
  case h_1 x y => exact absurd rfl (hpoint x y)
  case h_2 =>
    split
    case h_1 x y hxy =>
      cases hx : Store.naturalIndex? x <;> cases hy : Store.naturalIndex? y <;>
        simp [hxy, hx, hy]
    case h_2 hne =>
      refine ⟨fun h => (by cases h), ?_⟩
      rintro ⟨x, y, hxy, _⟩
      exact absurd hxy (hne x y)

theorem offset_eq_ok (hindex : ¬Counts index) {place : Nat} :
    m.offset s index = .ok place ↔
      ∃ col row : Int64, coordinates s index = .ok (col, row) ∧
        (0 ≤ col.toInt ∧ 0 ≤ row.toInt ∧ col.toInt < m.cols ∧ row.toInt < m.rows) ∧
        place = row.toInt.toNat * m.cols + col.toInt.toNat := by
  unfold offset
  split
  case h_1 n => exact absurd ⟨n, rfl⟩ hindex
  case h_2 =>
    cases coordinates s index with
    | error e => simp [bind, Except.bind]
    | ok c =>
      obtain ⟨col, row⟩ := c
      by_cases hin : 0 ≤ col.toInt ∧ 0 ≤ row.toInt ∧ col.toInt < m.cols ∧ row.toInt < m.rows
      · simp [bind, Except.bind, hin, pure, Except.pure, eq_comm]
      · simp [bind, Except.bind, hin, throw, throwThe, MonadExceptOf.throw]

/-- The cell that is written at an index is the one read there, unless the index counts cells. -/
theorem cellIndex?_of_offset (hm : m.Shaped) (hindex : ¬Counts index) {place : Nat}
    (h : m.offset s index = .ok place) :
    ∃ col row, s.cellIndex? index = some (col, row) ∧ col < m.cols ∧ row < m.rows ∧
      place = row * m.cols + col := by
  obtain ⟨col, row, hat, ⟨hcol, hrow, hcols, hrows⟩, rfl⟩ := (offset_eq_ok hindex).mp h
  obtain ⟨hlcols, hlrows⟩ := hm.sides_lt (by omega) (by omega)
  refine ⟨col.toInt.toNat, row.toInt.toNat, ?_, by omega, by omega, rfl⟩
  by_cases hpoint : ∃ x y, index = .point x y
  · obtain ⟨x, y, rfl⟩ := hpoint
    cases hat
    have hx := (truncate_lt_iff hlcols hcol).mp hcols
    have hy := (truncate_lt_iff hlrows hrow).mp hrows
    rw [Store.cellIndex?, toUInt64_of_lt hlcols hx, toUInt64_of_lt hlrows hy]
  · have hpoint (x y : Float) : index ≠ .point x y := fun hxy => hpoint ⟨x, y, hxy⟩
    obtain ⟨x, y, hxy, hx, hy⟩ := (coordinates_eq_ok hpoint).mp hat
    exact (cellIndex?_eq_some hpoint).mpr
      ⟨x, y, hxy, naturalIndex?_of_asInt hx hcol, naturalIndex?_of_asInt hy hrow⟩

/-- The cell that is read at an index is the one written there, unless the index is negative. -/
theorem offset_of_cellIndex? (hm : m.Shaped) (hindex : ¬Negative index)
    (h : s.cellIndex? index = some (col, row)) (hcol : col < m.cols) (hrow : row < m.rows) :
    m.offset s index = .ok (row * m.cols + col) := by
  by_cases hpoint : ∃ x y, index = .point x y
  · obtain ⟨x, y, rfl⟩ := hpoint
    cases h
    obtain ⟨hlcols, hlrows⟩ := hm.sides_lt (by omega) (by omega)
    have hx : 0 ≤ (truncate x).toInt := by
      by_contra hx
      exact hindex ⟨x, y, rfl, .inl (by omega)⟩
    have hy : 0 ≤ (truncate y).toInt := by
      by_contra hy
      exact hindex ⟨x, y, rfl, .inr (by omega)⟩
    have hcounts : ¬Counts (.point x y) := fun ⟨_, hn⟩ => by cases hn
    rw [toUInt64_of_lt hlcols hcol, toUInt64_of_lt hlrows hrow]
    exact (offset_eq_ok hcounts).mpr ⟨truncate x, truncate y, rfl, ⟨hx, hy,
      (truncate_lt_iff hlcols hx).mpr hcol, (truncate_lt_iff hlrows hy).mpr hrow⟩, rfl⟩
  · have hpoint (x y : Float) : index ≠ .point x y := fun hxy => hpoint ⟨x, y, hxy⟩
    obtain ⟨x, y, hxy, hx, hy⟩ := (cellIndex?_eq_some hpoint).mp h
    obtain ⟨col, hcol', hcol0, rfl⟩ := naturalIndex?_eq_some hx
    obtain ⟨row, hrow', hrow0, rfl⟩ := naturalIndex?_eq_some hy
    have hcounts : ¬Counts index := by
      rintro ⟨n, rfl⟩
      cases hxy
    refine (offset_eq_ok hcounts).mpr ⟨col, row, ?_, ⟨hcol0, hrow0, by omega, by omega⟩, rfl⟩
    exact (coordinates_eq_ok hpoint).mpr ⟨x, y, hxy, hcol', hrow'⟩

/-- A point reads the cell at its truncated coordinates, those below zero as zero. -/
theorem get?_toUInt64 (hm : m.Shaped) (x y : Float) :
    m.get? x.toUInt64.toNat y.toUInt64.toNat =
      m.get? (truncate x).toInt.toNat (truncate y).toInt.toNat := by
  rw [toNat_truncate x, toNat_truncate y]
  unfold get?
  by_cases hin : x.toUInt64.toNat < m.cols ∧ y.toUInt64.toNat < m.rows
  · obtain ⟨hlcols, hlrows⟩ := hm.sides_lt (by omega) (by omega)
    rw [Nat.min_eq_left (by omega), Nat.min_eq_left (by omega)]
  · rw [if_neg hin, if_neg]
    rintro ⟨hcol, hrow⟩
    obtain ⟨hlcols, hlrows⟩ := hm.sides_lt (by omega) (by omega)
    omega

theorem get?_eq_some {v : Value} (h : m.get? col row = some v) : col < m.cols ∧ row < m.rows := by
  unfold get? at h
  split at h
  · assumption
  · cases h

theorem get?_put (hm : m.Shaped) (hcol : col < m.cols) (hrow : row < m.rows) (v : Value) :
    (m.put (row * m.cols + col) v).get? col row = some v := by
  simp [put, get?, hcol, hrow, hm.offset_lt hcol hrow]

end MatrixCell

/-! ## All kinds of containers -/

/-- What a container keeps of a value: a graph keeps a weight, and one for `nil`. -/
def Value.keptBy (v : Value) : Value → Value
  | .graph _ =>
    match v with
    | .nil => .float 1.0
    | v => (v.asFloat.map .float).getD v
  | _ => v

theorem GraphCell.keptBy_of_weightOf {s : Store} {v : Value} {w : Float}
    (h : weightOf s v = .ok w) (i : Nat) : v.keptBy (.graph i) = .float w := by
  cases v <;> cases h <;> rfl

theorem GraphCell.putAt_eq_ok {s : Store} {index v : Value} {g g' : GraphCell}
    (h : putAt s index v g = .ok () g') :
    ∃ a b w, index = .pair a b ∧ weightOf s v = .ok w ∧ g' = g.addEdge s.eq a b w := by
  cases hw : weightOf s v with
  | error e =>
    cases hi : endpoints s index <;> simp only [putAt, hi, hw] at h <;> cases h
  | ok w =>
    cases index with
    | pair a b =>
      simp only [putAt, endpoints, hw] at h
      cases h
      exact ⟨a, b, w, rfl, rfl, rfl⟩
    | _ =>
      simp only [putAt, endpoints] at h
      cases h

/-- A list is read at the position that it was written at. -/
theorem ListCell.naturalIndex?_of_position {s : Store} {l : ListCell} {index : Value} {p : Nat}
    (h : l.position s index false = .ok p) :
    Store.naturalIndex? index = some p ∧ p < l.items.size := by
  have hfound (n : Int64) (hraw : rawIndex s index = .ok n) (hn : index.asInt = some n) :
      Store.naturalIndex? index = some p ∧ p < l.items.size := by
    unfold position at h
    rw [hraw] at h
    simp only [bind, Except.bind, Bool.false_eq_true, if_false] at h
    split at h
    case isTrue hin =>
      cases h
      exact ⟨MatrixCell.naturalIndex?_of_asInt hn hin.1, by omega⟩
    case isFalse => cases h
  cases index with
  | int n => exact hfound n rfl rfl
  | float x => exact hfound (truncate x) rfl rfl
  | _ => cases h

namespace Store

variable {s t : Store} {c index value : Value}

/-- What reading and writing at an index rely on. The container exists; the keys that it compares
the index with are finite; a matrix has all its cells, and is not its own index. -/
structure Indexes (s : Store) (c index : Value) : Prop where
  isContainer : c.isContainer = true
  within : c.Within s.extent
  keys : ∀ k ∈ s.keys c, s.Ends k
  shaped : ∀ i, c = .matrix i → (s.matrices.get i).Shaped
  other : ∀ i, c = .matrix i → index ≠ c

/-- The index counts the cells of a matrix. -/
def Counted (c index : Value) : Prop := (∃ i, c = .matrix i) ∧ MatrixCell.Counts index

/-- A point that is no place to write, but reads a cell with something in it: one of its
coordinates is negative, and counts as zero. -/
def Clamped (s : Store) (i : Nat) (index : Value) : Prop :=
  ∃ x y v, index = .point x y ∧ ((truncate x).toInt < 0 ∨ (truncate y).toInt < 0) ∧
    (s.matrices.get i).get? (truncate x).toInt.toNat (truncate y).toInt.toNat = some v ∧ v ≠ .nil

/-- A matrix gives nothing at a number. -/
theorem at?_of_counted (h : Counted c index) (s : Store) : s.at? c index = none := by
  obtain ⟨⟨i, rfl⟩, n, rfl⟩ := h
  rfl

/-- A change to a matrix leaves the cells that other values stand for. -/
theorem cellIndex?_of_modify {i : Nat} (f : MatrixCell → MatrixCell) (hindex : index ≠ .matrix i) :
    ({ s with matrices := s.matrices.modify i f } : Store).cellIndex? index =
      s.cellIndex? index := by
  cases index with
  | matrix j =>
    have hij : i ≠ j := fun hij => hindex (by rw [hij])
    simp only [cellIndex?, elements, Heap.get_modify_ne _ _ _ _ hij]
  | _ => rfl

theorem eq_pair {a b : Value} (h : s.eq (.pair a b) (.pair a b) = true) :
    s.eq a a = true ∧ s.eq b b = true := by
  unfold eq at h ⊢
  rw [eqAt_self, eqAt_zero, Value.eqWith, Bool.and_eq_true] at h
  rw [eqAt_self s _ a, eqAt_self s _ b]
  exact h

/-- A graph that a value was put into has a new edge. -/
theorem edit_graph_put {i : Nat} {reply : EditReply}
    (h : s.edit (.graph i) (.put index value) = (.ok reply, t)) :
    ∃ a b w, index = .pair a b ∧ GraphCell.weightOf s value = .ok w ∧
      t = { s with graphs := s.graphs.set i ((s.graphs.get i).addEdge s.eq a b w) } := by
  cases hp : GraphCell.putAt s index value (s.graphs.get i) with
  | ok u g =>
    have hg : GraphCell.edit s (.put index value) (s.graphs.get i) = .ok .done g :=
      Editing.then_done_eq_ok.mpr hp
    obtain ⟨a, b, w, hindex, hw, rfl⟩ := GraphCell.putAt_eq_ok hp
    rw [edit_graph_of_ok hg] at h
    cases h
    exact ⟨a, b, w, hindex, hw, rfl⟩
  | error e g =>
    have hg : GraphCell.edit s (.put index value) (s.graphs.get i) = .error e g :=
      Editing.then_done_eq_error.mpr hp
    rw [edit_graph_of_error hg] at h
    cases h

/-- What was put is read at the same index, unless the index counts the cells of a matrix. -/
theorem at?_of_put (h : s.Indexes c index) (hself : s.eq index index = true) {reply : EditReply}
    (hput : s.edit c (.put index value) = (.ok reply, t)) (hcounted : ¬Counted c index) :
    t.at? c index = some (value.keptBy c) := by
  cases c with
  | list i =>
    simp only [edit, ListCell.edit] at hput
    cases hp : (s.lists.get i).position s index false with
    | error e => rw [hp] at hput; cases hput
    | ok p =>
      rw [hp] at hput
      cases hput
      obtain ⟨hread, hlt⟩ := ListCell.naturalIndex?_of_position hp
      simp [at?, hread, Heap.get_modify_self _ _ _ h.within, ListCell.put, hlt, Value.keptBy]
  | map i => exact get?_put h.within h.keys hself hput
  | matrix i =>
    have hindex : ¬MatrixCell.Counts index := fun hindex => hcounted ⟨⟨i, rfl⟩, hindex⟩
    have hm := h.shaped i rfl
    simp only [edit, MatrixCell.edit] at hput
    cases hp : (s.matrices.get i).offset s index with
    | error e => rw [hp] at hput; cases hput
    | ok p =>
      rw [hp] at hput
      cases hput
      obtain ⟨col, row, hread, hcol, hrow, rfl⟩ := MatrixCell.cellIndex?_of_offset hm hindex hp
      have hcell := Heap.get_modify_self s.matrices i
        (·.put (row * (s.matrices.get i).cols + col) value) h.within
      simp only [at?, cellIndex?_of_modify _ (h.other i rfl), hread, Option.bind_eq_bind,
        Option.bind_some, hcell]
      exact MatrixCell.get?_put hm hcol hrow value
  | graph i =>
    obtain ⟨a, b, w, rfl, hw, ht⟩ := edit_graph_put hput
    obtain ⟨ha, hb⟩ := eq_pair hself
    have hothers (q : Ref) (hq : q ≠ (.graph, i)) : t.cell q = s.cell q :=
      cell_of_edit hput fun hmem => hq (List.mem_singleton.mp hmem)
    simp only [at?, weight?_addEdge h.within h.keys ha hb hothers ht, Option.map_some,
      GraphCell.keptBy_of_weightOf hw]
  | _ => cases h.isContainer

/-- At an index where it refuses a value, a matrix has nothing to read unless the index is
clamped. -/
theorem at?_of_refused {i : Nat} (hm : (s.matrices.get i).Shaped) {e : ContainerError}
    (h : (s.matrices.get i).offset s index = .error e) :
    (s.at? (.matrix i) index).getD .nil = .nil ↔ ¬s.Clamped i index := by
  by_cases hneg : MatrixCell.Negative index
  · obtain ⟨x, y, rfl, hxy⟩ := hneg
    have hread : s.at? (.matrix i) (.point x y) =
        (s.matrices.get i).get? (truncate x).toInt.toNat (truncate y).toInt.toNat :=
      MatrixCell.get?_toUInt64 hm x y
    rw [hread]
    constructor
    · rintro hnil ⟨_, _, v, ⟨⟩, _, hv, hne⟩
      rw [hv] at hnil
      exact hne hnil
    · intro hclamped
      cases hv : (s.matrices.get i).get? (truncate x).toInt.toNat (truncate y).toInt.toNat with
      | none => rfl
      | some v =>
        by_contra hne
        exact hclamped ⟨x, y, v, rfl, hxy, hv, hne⟩
  · have hclamped : ¬s.Clamped i index := fun ⟨x, y, _, hindex, hxy, _⟩ => hneg ⟨x, y, hindex, hxy⟩
    have hnone : s.at? (.matrix i) index = none := by
      rw [Option.eq_none_iff_forall_ne_some]
      intro v hv
      obtain ⟨⟨col, row⟩, hcell, hget⟩ := Option.bind_eq_some_iff.mp hv
      obtain ⟨hcol, hrow⟩ := MatrixCell.get?_eq_some hget
      rw [MatrixCell.offset_of_cellIndex? hm hneg hcell hcol hrow] at h
      cases h
    simp only [hnone, Option.getD_none, hclamped, not_false_eq_true]

end Store

/-- What was put into a container is read at the same index, exactly if the index does not count
the cells of a matrix (or `nil` was put); and a matrix that refuses an index gives `nil` there,
exactly if the index is not clamped to a cell with something in it. -/
theorem puts_read_back {s t : Store} {c index : Value} (value : Value) (dead : AgentRef → Bool)
    (h : s.Indexes c index) (hself : s.eq index index = true) :
    (∀ reply, s.edit c (.put index value) = (.ok reply, t) →
      (Operators.call dead .at [c, index] t = .ok (value.keptBy c) t ↔
        ¬Store.Counted c index ∨ value = .nil)) ∧
    (∀ i e, c = .matrix i → s.edit c (.put index value) = (.error e, t) →
      (Operators.call dead .at [c, index] t = .ok .nil t ↔ ¬s.Clamped i index)) := by
  have hcall (u : Value) : Operators.call dead .at [c, index] t = .ok u t ↔
      (t.at? c index).getD .nil = u := by
    simp only [Operators.call, h.isContainer, if_true, EStateM.Result.ok.injEq, and_true]
  refine ⟨fun reply hput => ?_, fun i e hc hput => ?_⟩
  · rw [hcall]
    by_cases hcounted : Store.Counted c index
    · obtain ⟨⟨i, rfl⟩, _⟩ := id hcounted
      simp only [Store.at?_of_counted hcounted, Option.getD_none, Value.keptBy, hcounted,
        not_true_eq_false, false_or, eq_comm]
    · simp only [Store.at?_of_put h hself hput hcounted, Option.getD_some, hcounted,
        not_false_eq_true, true_or]
  · subst hc
    rw [hcall]
    simp only [Store.edit, MatrixCell.edit] at hput
    cases hp : (s.matrices.get i).offset s index with
    | ok p => rw [hp] at hput; cases hput
    | error e' =>
      rw [hp] at hput
      cases hput
      exact Store.at?_of_refused (h.shaped i rfl) hp

/-- A list that holds a map, and a matrix with fives in two columns and two rows. -/
def board : Store :=
  { Store.empty with
    lists := ⟨#[⟨.any, #[.map 0]⟩]⟩
    maps := ⟨#[⟨.any, .any, [(.int 1, .nil)]⟩]⟩
    matrices := ⟨#[.filled 2 2 (.int 5)]⟩ }

/-- The map reads what was put at the list that holds the map. The matrix reads nothing at the
number of its last cell, and reads a five at a point where it refuses a nine. -/
theorem puts_read_back_board :
    (∃ t, board.edit (.map 0) (.put (.list 0) (.int 7)) = (.ok .done, t) ∧
      Operators.call (fun _ => false) .at [.map 0, .list 0] t = .ok (.int 7) t) ∧
    (∃ t, board.edit (.matrix 0) (.put (.int 3) (.int 7)) = (.ok .done, t) ∧
      Operators.call (fun _ => false) .at [.matrix 0, .int 3] t ≠ .ok (.int 7) t) ∧
    ∃ e t, board.edit (.matrix 0) (.put (.point (-1.0) 1.0) (.int 9)) = (.error e, t) ∧
      Operators.call (fun _ => false) .at [.matrix 0, .point (-1.0) 1.0] t ≠ .ok .nil t := by
  have hmap : board.Indexes (.map 0) (.list 0) := by
    refine ⟨rfl, by decide, fun k hk => ?_, nofun, nofun⟩
    cases List.mem_singleton.mp hk
    exact .intro trivial nofun
  have hmatrix (index : Value) (hother : index ≠ .matrix 0) : board.Indexes (.matrix 0) index := by
    refine ⟨rfl, by decide, nofun, ?_, fun _ _ => by cases ‹_›; exact hother⟩
    rintro i ⟨⟩
    exact MatrixCell.shaped_filled (by decide) _
  have hcounted : Store.Counted (.matrix 0) (.int 3) := ⟨⟨0, rfl⟩, 3, rfl⟩
  have hclamped : board.Clamped 0 (.point (-1.0) 1.0) :=
    ⟨-1.0, 1.0, .int 5, rfl, by decide +kernel, rfl, by simp⟩
  refine ⟨⟨_, rfl, ?_⟩, ⟨_, rfl, ?_⟩, ⟨_, _, rfl, ?_⟩⟩
  · refine ((puts_read_back (.int 7) _ hmap (by decide +kernel)).1 .done rfl).mpr (.inl ?_)
    rintro ⟨⟨i, ⟨⟩⟩, _⟩
  · rw [ne_eq, show Value.int 7 = (Value.int 7).keptBy (.matrix 0) from rfl,
      (puts_read_back (.int 7) _ (hmatrix _ (by simp)) (by decide +kernel)).1 .done rfl]
    rintro (hnot | ⟨⟨⟩⟩)
    exact hnot hcounted
  · rw [ne_eq, (puts_read_back (.int 9) _ (hmatrix _ (by simp)) (by decide +kernel)).2 0 _ rfl rfl]
    exact not_not_intro hclamped

end Habitat
