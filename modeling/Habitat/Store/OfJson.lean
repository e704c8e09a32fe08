import Habitat.Container.Access
import Habitat.Json.Schema

/-!
# Values from documents

Arrays become lists and objects maps with texts as keys. A number is an integer if 64 bits hold
it, and a float otherwise.
-/
namespace Habitat.Store

/-- The number that an integer of a document stands for. -/
def numberOf (n : Int) : Value :=
  match Decimal.toInt64? n with
  | some k => .int k
  | none => .float (Json.floatOfInt n)

mutual

/-- The value of a document. -/
def ofJson (s : Store) : Json → Value × Store
  | .null | .unreadable => (.nil, s)
  | .bool b => (.bool b, s)
  | .int n => (numberOf n, s)
  | .float x => (.float x, s)
  | .str t => (.str t, s)
  | .arr items =>
    let (vs, s) := ofItems s items
    s.newList .any vs
  | .obj fields =>
    let (es, s) := ofFields s fields
    s.newMapOf es

def ofItems (s : Store) : List Json → List Value × Store
  | [] => ([], s)
  | j :: rest =>
    let (v, s) := ofJson s j
    let (vs, s) := ofItems s rest
    (v :: vs, s)

def ofFields (s : Store) : List (String × Json) → List (Value × Value) × Store
  | [] => ([], s)
  | (k, j) :: rest =>
    let (v, s) := ofJson s j
    let (es, s) := ofFields s rest
    ((.str k, v) :: es, s)

end
end Habitat.Store
