import Habitat.Value.Basic
import Habitat.Store.Heap

/-!
# The store of containers

Lists, maps, matrices and graphs, each kind on a heap of its own. A value that refers to a list
can therefore only ever find a list.

`Store.copy` duplicates one container; what it contains stays shared.
-/
namespace Habitat

/-- An ordered list with a declared content type. -/
structure ListCell where
  content : BaseType
  items : Array Value

/-- A map that keeps the order in which its keys were first put. -/
structure MapCell where
  key : BaseType
  content : BaseType
  entries : List (Value × Value)

/-- A matrix of fixed shape; its cells are stored row by row. -/
structure MatrixCell where
  cols : Nat
  rows : Nat
  content : BaseType
  cells : Array Value

/-- A weighted edge of a graph. -/
structure Edge where
  source : Value
  target : Value
  weight : Float

/-- A directed graph with weighted edges. -/
structure GraphCell where
  vertices : List Value
  edges : List Edge

instance : Inhabited ListCell := ⟨⟨.any, #[]⟩⟩
instance : Inhabited MapCell := ⟨⟨.any, .any, []⟩⟩
instance : Inhabited MatrixCell := ⟨⟨0, 0, .any, #[]⟩⟩
instance : Inhabited GraphCell := ⟨⟨[], []⟩⟩

/-- A matrix whose cells all hold `fill`. -/
def MatrixCell.filled (cols rows : Nat) (fill : Value) : MatrixCell :=
  ⟨cols, rows, if fill.isNil then .any else fill.type, Array.replicate (cols * rows) fill⟩

/-- The cells of one row. -/
def MatrixCell.row (m : MatrixCell) (r : Nat) : List Value :=
  (m.cells.extract (r * m.cols) (r * m.cols + m.cols)).toList

/-- The cell in a column and a row. -/
def MatrixCell.get? (m : MatrixCell) (col row : Nat) : Option Value :=
  if col < m.cols ∧ row < m.rows then m.cells[row * m.cols + col]? else none

/-- All containers. -/
structure Store where
  lists : Heap ListCell
  maps : Heap MapCell
  matrices : Heap MatrixCell
  graphs : Heap GraphCell

namespace Store

def empty : Store := ⟨.empty, .empty, .empty, .empty⟩

instance : Inhabited Store := ⟨empty⟩

/-- The number of containers; no chain of nested containers is longer, unless one contains
itself. -/
def size (s : Store) : Nat := s.lists.size + s.maps.size + s.matrices.size + s.graphs.size

/-- How many containers of each kind there are. -/
structure Sizes where
  lists : Nat
  maps : Nat
  matrices : Nat
  graphs : Nat

def sizes (s : Store) : Sizes := ⟨s.lists.size, s.maps.size, s.matrices.size, s.graphs.size⟩

/-- Drops the newest containers, so that so many are left. -/
def shrink (s : Store) (n : Sizes) : Store :=
  ⟨s.lists.shrink n.lists, s.maps.shrink n.maps, s.matrices.shrink n.matrices,
    s.graphs.shrink n.graphs⟩

def addList (s : Store) (l : ListCell) : Value × Store :=
  (.list s.lists.size, { s with lists := s.lists.push l })

/-- A new list of values. -/
def newList (s : Store) (content : BaseType) (items : List Value) : Value × Store :=
  s.addList ⟨content, items.toArray⟩

def newMap (s : Store) (m : MapCell) : Value × Store :=
  (.map s.maps.size, { s with maps := s.maps.push m })

def newMatrix (s : Store) (m : MatrixCell) : Value × Store :=
  (.matrix s.matrices.size, { s with matrices := s.matrices.push m })

def newGraph (s : Store) (g : GraphCell) : Value × Store :=
  (.graph s.graphs.size, { s with graphs := s.graphs.push g })

/-- A container of its own with the same contents; any other value is its own copy. -/
def copy (s : Store) : Value → Value × Store
  | .list r => s.addList (s.lists.get r)
  | .map r => s.newMap (s.maps.get r)
  | .matrix r => s.newMatrix (s.matrices.get r)
  | .graph r => s.newGraph (s.graphs.get r)
  | v => (v, s)

/-- The values a loop over `v` visits. Nothing is in `nil`, a pair holds two values and a point
two floats, and a value that is no container holds itself. -/
def elements (s : Store) : Value → List Value
  | .nil => []
  | .pair k v => [k, v]
  | .point x y => [.float x, .float y]
  | .list r => (s.lists.get r).items.toList
  | .map r => (s.maps.get r).entries.map (·.2)
  | .matrix r => (s.matrices.get r).cells.toList
  | .graph r => (s.graphs.get r).edges.map fun e => .pair e.source e.target
  | v => [v]

/-- The agents among the elements of a value. -/
def agents (s : Store) (v : Value) : List AgentRef := (s.elements v).filterMap Value.asAgent

/-- The number of elements of a container. -/
def length (s : Store) : Value → Nat
  | .list r => (s.lists.get r).items.size
  | .matrix r => (s.matrices.get r).cells.size
  | v => (s.elements v).length

/-- The declared type of the indexes of a container. -/
def keyType (s : Store) : Value → BaseType
  | .list _ => .int
  | .map r => (s.maps.get r).key
  | .matrix _ => .point
  | .graph _ => .pair
  | _ => .any

/-- The declared type of the contents of a container. -/
def contentType (s : Store) : Value → BaseType
  | .list r => (s.lists.get r).content
  | .map r => (s.maps.get r).content
  | .matrix r => (s.matrices.get r).content
  | _ => .any

end Store
end Habitat
