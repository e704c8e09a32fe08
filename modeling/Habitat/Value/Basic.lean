import Habitat.Decimal.Word
import Habitat.Value.Kind

/-!
# Values

Scalars are plain data. Containers live in a store and a value only refers to them, so that two
variables can hold the same list. Agents live in a world; a reference also carries the agent's
name, which never changes.
-/
namespace Habitat

/-- A reference to an agent: its number in the world, and its name. -/
structure AgentRef where
  id : Nat
  name : String

/-- A value of a program. The number in a container is its place in the store. -/
inductive Value where
  | nil
  | bool (b : Bool)
  | int (n : Int64)
  | float (x : Float)
  | str (s : String)
  | point (x y : Float)
  | pair (key value : Value)
  | list (ref : Nat)
  | map (ref : Nat)
  | matrix (ref : Nat)
  | graph (ref : Nat)
  | agent (a : AgentRef)
  | species (name : String)

namespace Value

instance : Inhabited Value := ⟨.nil⟩

/-- The type of a value. -/
def type : Value → BaseType
  | .nil => .nil
  | .bool _ => .bool
  | .int _ => .int
  | .float _ => .float
  | .str _ => .string
  | .point .. => .point
  | .pair .. => .pair
  | .list _ => .list
  | .map _ => .map
  | .matrix _ => .matrix
  | .graph _ => .graph
  | .agent _ => .agent
  | .species _ => .species

def isNil : Value → Bool
  | .nil => true
  | _ => false

/-- Whether a condition with this value holds. -/
def truthy : Value → Bool
  | .nil => false
  | .bool b => b
  | .int n => n != 0
  | .float x => x != 0.0
  | .str s => s == "true"
  | _ => true

/-- The integer seen in a number or a boolean; a float is truncated and kept within 64 bits. -/
def asInt : Value → Option Int64
  | .int n => some n
  | .float x => some (Decimal.truncate x)
  | .bool b => some (if b then 1 else 0)
  | _ => none

/-- The float seen in a number. -/
def asFloat : Value → Option Float
  | .int n => some n.toFloat
  | .float x => some x
  | _ => none

/-- The text of a string or of a species name. -/
def asText : Value → Option String
  | .str s => some s
  | .species s => some s
  | _ => none

def asAgent : Value → Option AgentRef
  | .agent a => some a
  | _ => none

/-- Whether the value refers to a container. -/
def isContainer (v : Value) : Bool := v.type.isContainer

/-- Whether the value refers to no container, not even in a pair. -/
def isFlat : Value → Bool
  | .pair k v => k.isFlat && v.isFlat
  | v => !v.isContainer

end Value
end Habitat
