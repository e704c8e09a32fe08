import Habitat.Container.Edit

/-!
# Editing lists

Indexes are integers or floats, which are truncated. Inserting is possible at the end, replacing
and removing only at an element. Several indexes are all checked before the first element goes.
-/
namespace Habitat.ListCell

/-- The integer of an index. -/
def rawIndex (s : Store) : Value → Except ContainerError Int64
  | .int n => .ok n
  | .float x => .ok (Decimal.truncate x)
  | v => .error (.invalidIndex (s.text v) .list)

/-- The position an index stands for: an element, or with `atEnd` also the end of the list. -/
def position (s : Store) (l : ListCell) (index : Value) (atEnd : Bool) :
    Except ContainerError Nat := do
  let raw := (← rawIndex s index).toInt
  let bound := if atEnd then l.items.size + 1 else l.items.size
  if 0 ≤ raw ∧ raw < bound then return raw.toNat
  else throw (.indexOutOfBounds raw l.items.size)

/-- The list with a value at its end. -/
def push (l : ListCell) (v : Value) : ListCell := { l with items := l.items.push v }

/-- The list with another value at a position. -/
def put (l : ListCell) (i : Nat) (v : Value) : ListCell :=
  { l with items := l.items.setIfInBounds i v }

/-- The list with values inserted at a position. -/
def insertAt (l : ListCell) (i : Nat) (vs : List Value) : ListCell :=
  { l with items := l.items.take i ++ vs ++ l.items.drop i }

/-- The items other than a value. -/
def without (s : Store) (l : ListCell) (v : Value) : ListCell :=
  { l with items := l.items.filter fun x => !s.eq x v }

/-- Distinct positions in descending order. -/
def descending (ps : List Nat) : List Nat :=
  (ps.mergeSort (fun a b => decide (b ≤ a))).eraseReps

/-- Removes the items at positions in descending order. -/
def eraseAll (l : ListCell) (ps : List Nat) : ListCell :=
  { l with items := ps.foldl Array.eraseIdxIfInBounds l.items }

/-- What a request comes to. A change does not refer to the list it was found for, so that the
list can change in place. -/
def edit (s : Store) (l : ListCell) : Edit → Except ContainerError (Change ListCell)
  | .add v => .ok ⟨.done, (·.push v)⟩
  | .insert i v => (l.position s i true).map fun p => ⟨.done, (·.insertAt p [v])⟩
  | .addAll none vs => .ok ⟨.done, fun l => { l with items := l.items ++ vs }⟩
  | .addAll (some i) vs => (l.position s i true).map fun p => ⟨.done, (·.insertAt p vs)⟩
  | .put i v => (l.position s i false).map fun p => ⟨.done, (·.put p v)⟩
  | .fill v => .ok ⟨.done, fun l => { l with items := l.items.map fun _ => v }⟩
  | .remove v =>
    match l.items.findIdx? fun x => s.eq x v with
    | some p => .ok ⟨.found true, (·.eraseAll [p])⟩
    | none => .ok ⟨.found false, id⟩
  | .removeEvery v =>
    let rest := l.without s v
    .ok ⟨.removed (l.items.size - rest.items.size), fun _ => rest⟩
  | .removeAll vs =>
    let rest := vs.foldl (fun l v => l.without s v) l
    .ok ⟨.done, fun _ => rest⟩
  | .removeAt i => (l.position s i false).map fun p => ⟨.done, (·.eraseAll [p])⟩
  | .removeAllAt is =>
    (is.mapM fun i => l.position s i false).map fun ps => ⟨.done, (·.eraseAll (descending ps))⟩
  | .clear => .ok ⟨.done, fun l => { l with items := #[] }⟩

/-- Replaces the items from `start` up to and without `stop` by a value, or by the elements of a
list. -/
def replaceRange (s : Store) (l : ListCell) (start stop : Int64) (v : Value) :
    Except ContainerError ListCell :=
  let length := l.items.size
  if start < 0 ∨ (length : Int) < stop.toInt then
    .error (.indexOutOfBounds (if start < 0 then start.toInt else stop.toInt) length)
  else if stop < start then .error (.invalidRange start.toInt stop.toInt)
  else
    let vs := match v with
      | .list r => (s.lists.get r).items
      | _ => #[v]
    .ok { l with items :=
      l.items.take start.toInt.toNat ++ vs ++ l.items.drop stop.toInt.toNat }

end Habitat.ListCell
