import Habitat.Json.Basic
import Habitat.Decimal.Word

/-!
# Records and variants in documents

The conventions that descriptions follow.

* A record is an object, or the array of its fields in order with the last ones left out. A field
  may not be repeated; fields that the record does not have are ignored.
* A variant without contents is its name; any other variant is an object with one field.
* Inside a statement, the contents of a variant that has none may also be an empty object.
-/
namespace Habitat.Json

/-- Where a node stands. -/
inductive Place where
  | outer
  | nested
  deriving DecidableEq

/-- Whether a name occurs twice. -/
def repeated (name : String) (fields : List (String × Json)) : Bool :=
  1 < (fields.filter fun f => f.1 == name).length

/-- The fields of a record, each one present or not. -/
def record? (names : List String) : Json → Option (List (Option Json))
  | .obj fields =>
    if names.any (repeated · fields) then none else some (names.map fun n => fields.lookup n)
  | .arr items =>
    if items.length ≤ names.length then
      some (items.map some ++ List.replicate (names.length - items.length) none)
    else none
  | _ => none

/-- A field that must be there. -/
def required {α : Type} (read : Json → Option α) : Option Json → Option α
  | some j => read j
  | none => none

/-- A field that may be absent or `null`. -/
def optional {α : Type} (read : Json → Option α) : Option Json → Option (Option α)
  | none | some .null => some none
  | some j => (read j).map some

/-- A field with a value to take when it is absent. -/
def defaulted {α : Type} (value : α) (read : Json → Option α) : Option Json → Option α
  | none => some value
  | some j => read j

/-- The name of a variant, and its contents if there are any. -/
def variant? : Json → Option (String × Option Json)
  | .str name => some (name, none)
  | .obj [(name, j)] => some (name, some j)
  | _ => none

/-- Whether these may be the contents of a variant that has none. -/
def isUnit (place : Place) : Option Json → Bool
  | none | some .null => true
  | some (.obj []) => place == .nested
  | _ => false

/-- One of several names. -/
def choice? {α : Type} (place : Place) (table : List (String × α)) (j : Json) : Option α :=
  match variant? j with
  | some (name, contents) => if isUnit place contents then table.lookup name else none
  | none => none

def str? : Json → Option String
  | .str s => some s
  | _ => none

def bool? : Json → Option Bool
  | .bool b => some b
  | _ => none

/-- A signed integer of 64 bits. -/
def int64? : Json → Option Int64
  | .int n => Decimal.toInt64? n
  | _ => none

/-- An integer that is not negative. -/
def nat? : Json → Option Nat
  | .int n => if 0 ≤ n then some n.toNat else none
  | _ => none

/-- The float of an integer in a document. -/
def floatOfInt (n : Int) : Float :=
  if 0 ≤ n then (UInt64.ofNat n.toNat).toFloat else (Int64.ofInt n).toFloat

/-- A float; integers are floats too. -/
def float? : Json → Option Float
  | .int n => some (floatOfInt n)
  | .float x => some x
  | _ => none

/-- Reads every item. -/
def each? {α : Type} (read : Json → Option α) : List Json → Option (List α)
  | [] => some []
  | j :: rest =>
    match read j, each? read rest with
    | some a, some as => some (a :: as)
    | _, _ => none

/-- An array. -/
def list? {α : Type} (read : Json → Option α) : Json → Option (List α)
  | .arr items => each? read items
  | _ => none

/-- An array of two. -/
def pair? {α β : Type} (first : Json → Option α) (second : Json → Option β) : Json → Option (α × β)
  | .arr [a, b] =>
    match first a, second b with
    | some x, some y => some (x, y)
    | _, _ => none
  | _ => none

/-- An object of any fields, one a name. -/
def object? : Json → Option (List (String × Json))
  | .obj fields => if readableFields fields then some (settleFields fields []) else none
  | _ => none

/-- The document of an optional part. -/
def ofOption {α : Type} (write : α → Json) : Option α → Json
  | none => .null
  | some a => write a

end Habitat.Json
