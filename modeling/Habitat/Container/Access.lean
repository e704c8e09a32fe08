import Habitat.Container.List
import Habitat.Container.Map
import Habitat.Container.Matrix
import Habitat.Container.Graph

/-!
# Containers through their references

* `Store.edit`: a request to the container that a value refers to
* `Store.at?`: the element at an index
-/
namespace Habitat

/-- Runs a change on a container, and gives the container back whatever the outcome. -/
def Editing.on {α β : Type} (e : Editing α β) (a : α) : Except ContainerError β × α :=
  match e a with
  | .ok b a => (.ok b, a)
  | .error err a => (.error err, a)

namespace Store

/-- Sends a request to the container that `target` refers to. Values that are no containers do
not change. -/
def edit (s : Store) (target : Value) (request : Edit) :
    Except ContainerError EditReply × Store :=
  match target with
  | .list r =>
    match (s.lists.get r).edit s request with
    | .ok change => (.ok change.reply, { s with lists := s.lists.modify r change.apply })
    | .error e => (.error e, s)
  | .map r =>
    let (reply, c) := (MapCell.edit s request).on (s.maps.get r)
    (reply, { s with maps := s.maps.set r c })
  | .matrix r =>
    match (s.matrices.get r).edit s request with
    | .ok change => (.ok change.reply, { s with matrices := s.matrices.modify r change.apply })
    | .error e => (.error e, s)
  | .graph r =>
    let (reply, c) := (GraphCell.edit s request).on (s.graphs.get r)
    (reply, { s with graphs := s.graphs.set r c })
  | _ => (.ok .done, s)

/-- The value of an index that must not be negative. -/
def naturalIndex? (v : Value) : Option Nat :=
  match v.asInt with
  | some n => if 0 ≤ n.toInt then some n.toInt.toNat else none
  | none => none

/-- The column and row that an index of a matrix reads. The coordinates of a point are truncated,
and those below zero read as zero. -/
def cellIndex? (s : Store) (index : Value) : Option (Nat × Nat) :=
  match index with
  | .point x y => some (x.toUInt64.toNat, y.toUInt64.toNat)
  | v =>
    match s.elements v with
    | [x, y] => do return (← naturalIndex? x, ← naturalIndex? y)
    | _ => none

/-- The element of a container at an index. -/
def at? (s : Store) (target index : Value) : Option Value :=
  match target with
  | .list r => do (s.lists.get r).items[← naturalIndex? index]?
  | .map r => (s.maps.get r).get? s.eq index
  | .matrix r => do
    let (col, row) ← s.cellIndex? index
    (s.matrices.get r).get? col row
  | .graph r =>
    match index with
    | .pair a b => ((s.graphs.get r).weight? s.eq a b).map .float
    | _ => none
  | _ => none

/-- A new map of entries that are put one after another. -/
def newMapOf (s : Store) (entries : List (Value × Value)) : Value × Store :=
  s.newMap (.ofEntries s.eq .any .any entries)

end Store
end Habitat
