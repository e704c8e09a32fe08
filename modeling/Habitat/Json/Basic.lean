/-!
# Documents

The tree of a JSON document. Objects keep the order of their fields, and whole numbers stay apart
from floats.

A node can be well formed and still stand for no value: a number beyond the floats, a text with
half a surrogate pair, a nesting of 128 levels. Such a node is `unreadable`; it does no harm where
nobody looks at it.
-/
namespace Habitat

/-- A JSON document. -/
inductive Json where
  | null
  | bool (b : Bool)
  | int (n : Int)
  | float (x : Float)
  | str (s : String)
  | arr (items : List Json)
  | obj (fields : List (String × Json))
  | unreadable

namespace Json

instance : Inhabited Json := ⟨.null⟩

/-- Puts a field into an object: the last value given for a name counts, at the place where the
name first stood. -/
def putField (name : String) (value : Json) : List (String × Json) → List (String × Json)
  | [] => [(name, value)]
  | (k, v) :: rest => if k = name then (name, value) :: rest else (k, v) :: putField name value rest

mutual

/-- Whether every node stands for a value. -/
def readable : Json → Bool
  | .unreadable => false
  | .arr items => readableItems items
  | .obj fields => readableFields fields
  | _ => true

def readableItems : List Json → Bool
  | [] => true
  | j :: rest => j.readable && readableItems rest

def readableFields : List (String × Json) → Bool
  | [] => true
  | (_, j) :: rest => j.readable && readableFields rest

end

mutual

/-- The document with one field a name in every object. -/
def settle : Json → Json
  | .arr items => .arr (settleItems items)
  | .obj fields => .obj (settleFields fields [])
  | j => j

def settleItems : List Json → List Json
  | [] => []
  | j :: rest => j.settle :: settleItems rest

def settleFields : List (String × Json) → List (String × Json) → List (String × Json)
  | [], done => done
  | (k, j) :: rest, done => settleFields rest (putField k j.settle done)

end

mutual

/-- The number of nested arrays and objects. -/
def depth : Json → Nat
  | .arr items => depthItems items + 1
  | .obj fields => depthFields fields + 1
  | _ => 0

def depthItems : List Json → Nat
  | [] => 0
  | j :: rest => max j.depth (depthItems rest)

def depthFields : List (String × Json) → Nat
  | [] => 0
  | (_, j) :: rest => max j.depth (depthFields rest)

end

/-- A float in a document; what is not a finite number is `null`. -/
def ofFloat (x : Float) : Json := if x.isFinite then .float x else .null

end Json
end Habitat
