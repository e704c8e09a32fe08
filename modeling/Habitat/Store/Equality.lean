import Habitat.Store.Basic

/-!
# Equality of values

Numbers are equal across integers and floats, containers of one kind are equal if they are the
same or have equal contents, and agents are equal if they are the same agent. Values of different
kinds are never equal. As `NaN` differs from itself, a value may differ from itself.
-/
namespace Habitat

/-- Pairwise comparison of two lists of the same length. -/
def eqLists {α : Type} (eq : α → α → Bool) : List α → List α → Bool
  | [], [] => true
  | a :: as, b :: bs => eq a b && eqLists eq as bs
  | _, _ => false

/-- Equality of values, given equality of containers of each kind. -/
@[specialize]
def Value.eqWith (list map matrix graph : Nat → Nat → Bool) : Value → Value → Bool
  | .nil, .nil => true
  | .bool a, .bool b => a == b
  | .int a, .int b => a == b
  | .float a, .float b => a == b
  | .int a, .float b => a.toFloat == b
  | .float a, .int b => b.toFloat == a
  | .str a, .str b => a == b
  | .point a b, .point c d => a == c && b == d
  | .pair a b, .pair c d =>
    a.eqWith list map matrix graph c && b.eqWith list map matrix graph d
  | .list a, .list b => list a b
  | .map a, .map b => map a b
  | .matrix a, .matrix b => matrix a b
  | .graph a, .graph b => graph a b
  | .agent a, .agent b => a.id == b.id
  | .species a, .species b => a == b
  | _, _ => false

namespace Store

/-- Equality that looks into `n` nested containers. -/
def eqAt (s : Store) : Nat → Value → Value → Bool
  | 0 => Value.eqWith (· == ·) (· == ·) (· == ·) (· == ·)
  | n + 1 =>
    Value.eqWith
      (fun a b => a == b ||
        eqLists (s.eqAt n) (s.lists.get a).items.toList (s.lists.get b).items.toList)
      (fun a b => a == b ||
        eqLists (fun x y => s.eqAt n x.1 y.1 && s.eqAt n x.2 y.2)
          (s.maps.get a).entries (s.maps.get b).entries)
      (fun a b => a == b ||
        let x := s.matrices.get a
        let y := s.matrices.get b
        x.cols == y.cols && x.rows == y.rows && x.content == y.content &&
          eqLists (s.eqAt n) x.cells.toList y.cells.toList)
      (fun a b => a == b ||
        let x := s.graphs.get a
        let y := s.graphs.get b
        eqLists (s.eqAt n) x.vertices y.vertices &&
          eqLists (fun e f => s.eqAt n e.source f.source && s.eqAt n e.target f.target &&
            e.weight == f.weight) x.edges y.edges)

/-- Equality of values. -/
def eq (s : Store) (a b : Value) : Bool := s.eqAt s.size a b

end Store
end Habitat
