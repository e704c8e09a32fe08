import Habitat.Container.Edit

/-!
# Editing matrices

The shape of a matrix is fixed, so only replacing values is possible. A cell is addressed by an
integer that counts cells row by row, by a point, or by two values for column and row.
-/
namespace Habitat.MatrixCell

/-- Column and row of an index that is no integer. -/
def coordinates (s : Store) (index : Value) : Except ContainerError (Int64 × Int64) :=
  match index with
  | .point x y => .ok (Decimal.truncate x, Decimal.truncate y)
  | v =>
    match s.elements v with
    | [x, y] =>
      match x.asInt, y.asInt with
      | some x, some y => .ok (x, y)
      | _, _ => .error (.invalidIndex (s.text index) .matrix)
    | _ => .error (.invalidIndex (s.text index) .matrix)

/-- The place of the cell at an index. -/
def offset (s : Store) (m : MatrixCell) (index : Value) : Except ContainerError Nat :=
  match index with
  | .int n =>
    if 0 ≤ n.toInt ∧ n.toInt < m.cells.size then .ok n.toInt.toNat
    else .error (.indexOutOfBounds n.toInt m.cells.size)
  | v => do
    let (col, row) ← coordinates s v
    if 0 ≤ col.toInt ∧ 0 ≤ row.toInt ∧ col.toInt < m.cols ∧ row.toInt < m.rows then
      return row.toInt.toNat * m.cols + col.toInt.toNat
    else throw (.invalidIndex
      ("\x7b" ++ toString col.toInt ++ "," ++ toString row.toInt ++ "\x7d") .matrix)

/-- The matrix with another value in a cell. -/
def put (m : MatrixCell) (i : Nat) (v : Value) : MatrixCell :=
  { m with cells := m.cells.setIfInBounds i v }

/-- What a request comes to. -/
def edit (s : Store) (m : MatrixCell) : Edit → Except ContainerError (Change MatrixCell)
  | .put i v => (m.offset s i).map fun p => ⟨.done, (·.put p v)⟩
  | .fill v => .ok ⟨.done, fun m => { m with cells := m.cells.map fun _ => v }⟩
  | .addAll _ [] | .removeAll [] | .removeAllAt [] => .ok ⟨.done, id⟩
  | _ => .error (.fixedLength .matrix)

end Habitat.MatrixCell
