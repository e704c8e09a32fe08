import Habitat.Proofs.Container.ReadBack

/-!
# Addressing the cells of a matrix

The cells of a matrix stand row by row, so the cell in column `col` and row `row` has the place
`row * cols + col`. That is a bijection between the columns and rows within the matrix and the
places of its cells (`MatrixCell.place_inj`, `MatrixCell.place_surj`), whatever the shape, and no
request changes the shape (`MatrixCell.run_shape`). Hence every index that is accepted is the place
of one cell, and what is put there shows in this cell only (`MatrixCell.addressing_run`).
-/
namespace Habitat.MatrixCell

/-! ## Places -/

section
variable {cols rows col row col' row' p : Nat}

/-- Different cells have different places. -/
theorem place_inj (hcol : col < cols) (hcol' : col' < cols) :
    row * cols + col = row' * cols + col' ↔ col = col' ∧ row = row' := by
  constructor
  · intro h
    have hmod : (row * cols + col) % cols = (row' * cols + col') % cols := by rw [h]
    rw [Nat.mul_add_mod_of_lt hcol, Nat.mul_add_mod_of_lt hcol'] at hmod
    have hrow : row * cols = row' * cols := by omega
    exact ⟨hmod, Nat.eq_of_mul_eq_mul_right (Nat.zero_lt_of_lt hcol) hrow⟩
  · rintro ⟨rfl, rfl⟩
    rfl

/-- Every place is that of a cell. -/
theorem place_surj (hp : p < cols * rows) :
    ∃ col row, col < cols ∧ row < rows ∧ p = row * cols + col := by
  have hpos : 0 < cols := Nat.pos_of_mul_pos_right (Nat.zero_lt_of_lt hp)
  refine ⟨p % cols, p / cols, Nat.mod_lt p hpos, Nat.div_lt_of_lt_mul hp, ?_⟩
  rw [Nat.mul_comm, Nat.div_add_mod]

end

/-! ## Indexes -/

/-- The index gives a column and a row, as a pair or a list of two integers. -/
inductive Gives (s : Store) : Value → Int64 → Int64 → Prop
  | pair (col row : Int64) : Gives s (.pair (.int col) (.int row)) col row
  | list (i : Nat) (col row : Int64) (h : (s.lists.get i).items = #[.int col, .int row]) :
    Gives s (.list i) col row

section
variable {s : Store} {m : MatrixCell} {index : Value} {p : Nat}

/-- A column and a row are accepted exactly within the matrix. -/
theorem offset_of_gives {col row : Int64} (h : Gives s index col row) :
    m.offset s index = .ok p ↔
      (0 ≤ col.toInt ∧ col.toInt < m.cols) ∧ (0 ≤ row.toInt ∧ row.toInt < m.rows) ∧
        p = row.toInt.toNat * m.cols + col.toInt.toNat := by
  have hcounts : ¬Counts index := by
    rintro ⟨n, rfl⟩
    cases h
  have hcoordinates : coordinates s index = .ok (col, row) := by
    cases h with
    | pair => rfl
    | list i _ _ h => simp only [coordinates, Store.elements, h, Value.asInt]
  rw [offset_eq_ok hcounts, hcoordinates]
  constructor
  · rintro ⟨_, _, ⟨⟩, ⟨hcol, hrow, hcols, hrows⟩, hp⟩
    exact ⟨⟨hcol, hcols⟩, ⟨hrow, hrows⟩, hp⟩
  · rintro ⟨⟨hcol, hcols⟩, ⟨hrow, hrows⟩, hp⟩
    exact ⟨col, row, rfl, ⟨hcol, hrow, hcols, hrows⟩, hp⟩

/-- A number is accepted exactly if there are more cells. -/
theorem offset_int (n : Int64) :
    m.offset s (.int n) = .ok p ↔
      (0 ≤ n.toInt ∧ n.toInt < m.cells.size) ∧ p = n.toInt.toNat := by
  unfold offset
  by_cases hin : 0 ≤ n.toInt ∧ n.toInt < m.cells.size
  · simp [hin, eq_comm]
  · simp [hin]

/-- Every index that is accepted is the place of a cell. -/
theorem offset_lt (hsize : m.cells.size = m.cols * m.rows) (h : m.offset s index = .ok p) :
    p < m.cells.size := by
  by_cases hcounts : Counts index
  · obtain ⟨n, rfl⟩ := hcounts
    obtain ⟨hin, rfl⟩ := (offset_int n).mp h
    omega
  · obtain ⟨col, row, _, hin, rfl⟩ := (offset_eq_ok hcounts).mp h
    rw [hsize]
    exact place_lt (by omega) (by omega)

/-- What is put into a cell is read there, and nothing else is read in any other cell. -/
theorem get?_put_place (hsize : m.cells.size = m.cols * m.rows) {col row : Nat}
    (hcol : col < m.cols) (hrow : row < m.rows) (v : Value) (col' row' : Nat) :
    (m.put (row * m.cols + col) v).get? col' row' =
      if col' = col ∧ row' = row then some v else m.get? col' row' := by
  by_cases hin : col' < m.cols ∧ row' < m.rows
  · simp only [put, get?, hin, and_self, if_true, Array.getElem?_setIfInBounds,
      place_inj hcol hin.1, hsize, place_lt hcol hrow, eq_comm]
  · simp only [put, get?, hin, if_false]
    rw [if_neg]
    rintro ⟨rfl, rfl⟩
    exact hin ⟨hcol, hrow⟩

/-! ## Rows -/

theorem row_eq_take_drop (m : MatrixCell) (r : Nat) :
    m.row r = (m.cells.toList.drop (r * m.cols)).take m.cols := by
  rw [row, Array.toList_extract, List.extract_eq_take_drop, Nat.add_sub_cancel_left]

theorem flatMap_row_eq_take (m : MatrixCell) (n : Nat) :
    (List.range n).flatMap m.row = m.cells.toList.take (n * m.cols) := by
  induction n with
  | zero => simp
  | succ n ih =>
    rw [List.range_succ, List.flatMap_append, ih, List.flatMap_singleton, row_eq_take_drop,
      Nat.succ_mul, List.take_add]

/-- The rows one after another are all cells. -/
theorem flatMap_row (hsize : m.cells.size = m.cols * m.rows) :
    (List.range m.rows).flatMap m.row = m.cells.toList := by
  rw [flatMap_row_eq_take, Nat.mul_comm, ← hsize, ← Array.length_toList, List.take_length]

/-! ## A run of requests -/

/-- What a request leaves of a matrix, whether it succeeds or fails. -/
def after (s : Store) (request : Edit) (m : MatrixCell) : MatrixCell :=
  match m.edit s request with
  | .ok c => c.apply m
  | .error _ => m

/-- What is left of a matrix after a run of requests, each with the store that it finds. -/
def run (m : MatrixCell) (steps : List (Store × Edit)) : MatrixCell :=
  steps.foldl (fun m step => m.after step.1 step.2) m

theorem after_shape (s : Store) (request : Edit) (m : MatrixCell) :
    (m.after s request).cols = m.cols ∧ (m.after s request).rows = m.rows ∧
      (m.after s request).cells.size = m.cells.size := by
  unfold after
  cases h : m.edit s request with
  | error e => exact ⟨rfl, rfl, rfl⟩
  | ok c => exact edit_shape h

theorem run_shape (m : MatrixCell) (steps : List (Store × Edit)) :
    (m.run steps).cols = m.cols ∧ (m.run steps).rows = m.rows ∧
      (m.run steps).cells.size = m.cells.size := by
  induction steps generalizing m with
  | nil => exact ⟨rfl, rfl, rfl⟩
  | cons step rest ih =>
    obtain ⟨hcols, hrows, hsize⟩ := after_shape step.1 step.2 m
    obtain ⟨hcols', hrows', hsize'⟩ := ih (m.after step.1 step.2)
    exact ⟨hcols'.trans hcols, hrows'.trans hrows, hsize'.trans hsize⟩

/-- How the cells of a matrix with `cols` columns and `rows` rows are addressed. -/
structure Addressing (s : Store) (m : MatrixCell) (cols rows : Nat) : Prop where
  cols_eq : m.cols = cols
  rows_eq : m.rows = rows
  size_eq : m.cells.size = cols * rows
  /-- Every row is within the cells. -/
  row_le : ∀ r < rows, r * cols + cols ≤ m.cells.size ∧ (m.row r).length = cols
  /-- Every accepted index is the place of a cell. -/
  offset_lt : ∀ index p, m.offset s index = .ok p → p < m.cells.size
  /-- A column and a row are accepted exactly if the matrix has both. -/
  offset_gives : ∀ index col row, Gives s index col row → ∀ p,
    m.offset s index = .ok p ↔
      (0 ≤ col.toInt ∧ col.toInt < cols) ∧ (0 ≤ row.toInt ∧ row.toInt < rows) ∧
        p = row.toInt.toNat * cols + col.toInt.toNat
  /-- A number is accepted exactly if it counts a cell. -/
  offset_int : ∀ (n : Int64) p, m.offset s (.int n) = .ok p ↔
    (0 ≤ n.toInt ∧ n.toInt < (cols * rows : Nat)) ∧ p = n.toInt.toNat
  /-- A number that counts row by row up to a column and a row stands for the same cell. -/
  offset_eq : ∀ index col row (n : Int64), Gives s index col row →
    0 ≤ col.toInt → col.toInt < cols → 0 ≤ row.toInt → row.toInt < rows →
    n.toInt = row.toInt * cols + col.toInt → m.offset s (.int n) = m.offset s index
  /-- Different columns and rows have different places. -/
  place_inj : ∀ col row col' row', col < cols → col' < cols →
    row * cols + col = row' * cols + col' → col = col' ∧ row = row'
  /-- Every place is that of a column and a row. -/
  place_surj : ∀ p < cols * rows, ∃ col row, col < cols ∧ row < rows ∧ p = row * cols + col
  /-- Putting a value succeeds exactly at an accepted index. -/
  put_ok_iff : ∀ index v, (∃ c, m.edit s (.put index v) = .ok c) ↔ ∃ p, m.offset s index = .ok p
  /-- What is put at an index shows in the cell of this index, and in no other. -/
  get?_put : ∀ index v c, m.edit s (.put index v) = .ok c → ∃ col row,
    col < cols ∧ row < rows ∧ m.offset s index = .ok (row * cols + col) ∧
      ∀ col' row', (c.apply m).get? col' row' =
        if col' = col ∧ row' = row then some v else m.get? col' row'
  /-- The rows one after another are the elements. -/
  flatMap_row : (List.range rows).flatMap m.row = m.cells.toList

theorem addressing (hsize : m.cells.size = m.cols * m.rows) (s : Store) :
    Addressing s m m.cols m.rows where
  cols_eq := rfl
  rows_eq := rfl
  size_eq := hsize
  row_le r hr := by
    have hend : r * m.cols + m.cols ≤ m.cells.size := by
      rw [hsize, ← Nat.succ_mul, Nat.mul_comm m.cols]
      exact Nat.mul_le_mul_right _ hr
    refine ⟨hend, ?_⟩
    rw [row_eq_take_drop, List.length_take, List.length_drop, Array.length_toList]
    omega
  offset_lt _ _ := offset_lt hsize
  offset_gives _ _ _ h _ := offset_of_gives h
  offset_int n p := hsize ▸ offset_int n
  offset_eq index col row n h hcol hcols hrow hrows hn := by
    have hplace : row.toInt.toNat * m.cols + col.toInt.toNat < m.cols * m.rows :=
      place_lt (by omega) (by omega)
    have hcount : n.toInt = (row.toInt.toNat * m.cols + col.toInt.toNat : Nat) := by
      rw [hn, Int.natCast_add, Int.natCast_mul, Int.toNat_of_nonneg hrow, Int.toNat_of_nonneg hcol]
    rw [(offset_of_gives h).mpr ⟨⟨hcol, hcols⟩, ⟨hrow, hrows⟩, rfl⟩, offset_int, hsize, hcount]
    exact ⟨⟨Int.natCast_nonneg _, Int.ofNat_lt.mpr hplace⟩, rfl⟩
  place_inj _ _ _ _ hcol hcol' := (place_inj hcol hcol').mp
  place_surj _ := place_surj
  put_ok_iff index v := by
    cases hp : m.offset s index with
    | error e => simp [edit, hp, Except.map]
    | ok p => simp [edit, hp, Except.map]
  get?_put index v c h := by
    cases hp : m.offset s index with
    | error e => simp only [edit, hp] at h; cases h
    | ok p =>
      simp only [edit, hp] at h
      cases h
      obtain ⟨col, row, hcol, hrow, rfl⟩ := place_surj (hsize ▸ offset_lt hsize hp)
      exact ⟨col, row, hcol, hrow, rfl, get?_put_place hsize hcol hrow v⟩
  flatMap_row := flatMap_row hsize

/-- A matrix keeps its shape whatever is asked of it, and its indexes stand for its cells one to
one. -/
theorem addressing_run (cols rows : Nat) (fill : Value) (steps : List (Store × Edit)) (s : Store) :
    Addressing s (run (filled cols rows fill) steps) cols rows := by
  obtain ⟨hcols, hrows, hsize⟩ := run_shape (filled cols rows fill) steps
  have h : (run (filled cols rows fill) steps).cells.size =
      (run (filled cols rows fill) steps).cols * (run (filled cols rows fill) steps).rows := by
    rw [hcols, hrows, hsize]
    exact Array.size_replicate
  have haddressing := addressing h s
  rwa [hcols, hrows] at haddressing

end
end Habitat.MatrixCell
