/-!
# Types of values

A `BaseType` is the coarse type of a value. A `StaticType` adds, for containers, the declared
types of their keys and contents.
-/
namespace Habitat

/-- The coarse type of a value; `any` is unconstrained. -/
inductive BaseType where
  | any | nil | bool | int | float | string | point | pair | list | map | matrix | graph | agent
  | species
  deriving DecidableEq

namespace BaseType

/-- All types, in the order in which they are listed. -/
def all : List BaseType :=
  [.any, .nil, .bool, .int, .float, .string, .point, .pair, .list, .map, .matrix, .graph, .agent,
    .species]

/-- The name in messages. -/
def name : BaseType → String
  | .any => "unknown"
  | .nil => "nil"
  | .bool => "bool"
  | .int => "int"
  | .float => "float"
  | .string => "string"
  | .point => "point"
  | .pair => "pair"
  | .list => "list"
  | .map => "map"
  | .matrix => "matrix"
  | .graph => "graph"
  | .agent => "agent"
  | .species => "species"

/-- The name in descriptions. -/
def tag : BaseType → String
  | .any => "any"
  | t => t.name

def isContainer : BaseType → Bool
  | .list | .map | .matrix | .graph => true
  | _ => false

def isNumeric : BaseType → Bool
  | .int | .float => true
  | _ => false

/-- Whether a value of type `t` may stand where `target` is expected without a cast. -/
def isTranslatableInto (t target : BaseType) : Bool :=
  t == target || t == .any || target == .any || t == .nil || (t.isNumeric && target.isNumeric)

/-- The type of the indexes of a container type. -/
def defaultKey : BaseType → BaseType
  | .list => .int
  | .matrix => .point
  | .graph => .pair
  | _ => .any

end BaseType

/-- What is known about a value before it is computed. -/
structure StaticType where
  base : BaseType
  key : BaseType
  content : BaseType
  deriving DecidableEq

namespace StaticType

def any : StaticType := ⟨.any, .any, .any⟩

/-- A type without further constraints on its contents. -/
def of (base : BaseType) : StaticType := ⟨base, base.defaultKey, .any⟩

/-- A container type with a declared content type. -/
def container (base content : BaseType) : StaticType := ⟨base, base.defaultKey, content⟩

/-- A map type with declared key and content types. -/
def map (key content : BaseType) : StaticType := ⟨.map, key, content⟩

def isContainer (t : StaticType) : Bool := t.base.isContainer

/-- Whether no element can be added or removed. -/
def isFixedLength (t : StaticType) : Bool :=
  match t.base with
  | .matrix | .pair | .point => true
  | _ => false

/-- The text of a type. -/
def text (t : StaticType) : String :=
  match t.base with
  | .map => "map<" ++ t.key.name ++ ", " ++ t.content.name ++ ">"
  | base => if base.isContainer then base.name ++ "<" ++ t.content.name ++ ">" else base.name

end StaticType
end Habitat
