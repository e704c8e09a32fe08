import Habitat.Error
import Habitat.Store.Tree
import Habitat.Store.Equality

/-!
# Changing containers

All kinds of containers answer the same requests. A request is a value of type `Edit`, so that a
run of requests is a list.

Lists and matrices carry a request out as a whole or not at all: the request comes to a `Change`,
or to a failure. Editing a map or a graph keeps what it has reached when it fails, since a request
for several changes may fail at any of them; that is `Editing`.
-/
namespace Habitat

/-- A request to change a container. -/
inductive Edit where
  /-- Append a value. -/
  | add (value : Value)
  /-- Insert a value at an index. -/
  | insert (index value : Value)
  /-- Append several values, or insert them at an index. -/
  | addAll (index : Option Value) (values : List Value)
  /-- Replace the value at an index. -/
  | put (index value : Value)
  /-- Replace every value. -/
  | fill (value : Value)
  /-- Remove the first occurrence of a value. -/
  | remove (value : Value)
  /-- Remove every occurrence of a value. -/
  | removeEvery (value : Value)
  /-- Remove every occurrence of each value. -/
  | removeAll (values : List Value)
  /-- Remove the element at an index. -/
  | removeAt (index : Value)
  /-- Remove the elements at several indexes. -/
  | removeAllAt (indexes : List Value)
  /-- Remove every element. -/
  | clear

/-- What a request answers. -/
inductive EditReply where
  | done
  | found (b : Bool)
  | removed (count : Nat)

/-- What a request comes to that is carried out as a whole: its answer, and what becomes of the
container. -/
structure Change (α : Type) where
  reply : EditReply
  apply : α → α

/-- A change of a container of type `α`, which may fail and then keeps what was changed so
far. -/
abbrev Editing (α : Type) := EStateM ContainerError α

/-- A request that is carried out as a whole or not at all. -/
def editWhole {α : Type} (r : Except ContainerError α) : Editing α EditReply := do
  match r with
  | .ok a => set a; return .done
  | .error e => throw e

/-- Applies a change for each value in turn, up to the first failure. -/
def editEach {α β : Type} (change : β → Editing α Unit) : List β → Editing α Unit
  | [] => pure ()
  | b :: rest => do change b; editEach change rest

end Habitat
