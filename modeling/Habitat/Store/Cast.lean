import Habitat.Store.Tree
import Habitat.Text.Blank
import Habitat.Decimal.Reader

/-!
# Casts

The best conversion of a value into another type, if there is a sensible one. A cast to a list
makes a new list; no other cast touches the store.
-/
namespace Habitat.Store

/-- Converts to an integer. -/
def castInt : Value → Option Value
  | .nil => some (.int 0)
  | .float x => some (.int (Decimal.truncate x))
  | .bool b => some (.int (if b then 1 else 0))
  | .str s => (Decimal.int64? (Text.trim s.toList)).map .int
  | _ => none

/-- Converts to a float. -/
def castFloat : Value → Option Value
  | .nil => some (.float 0.0)
  | .int n => some (.float n.toFloat)
  | .bool b => some (.float (if b then 1.0 else 0.0))
  | .str s => (Decimal.float? (Text.trim s.toList)).map .float
  | _ => none

/-- Converts a number, or a container of two numbers, to a point. -/
def castPoint (s : Store) (v : Value) : Option Value :=
  match v.asFloat with
  | some x => some (.point x x)
  | none =>
    if v.isContainer then
      match s.elements v with
      | [x, y] => do return .point (← x.asFloat) (← y.asFloat)
      | _ => none
    else none

/-- Converts a container of two values to a pair. -/
def castPair (s : Store) (v : Value) : Option Value :=
  if v.isContainer then
    match s.elements v with
    | [k, x] => some (.pair k x)
    | _ => none
  else none

/-- Converts a name, or an agent of a species, to the species. -/
def castSpecies (speciesOf : AgentRef → String) : Value → Option Value
  | .str name => some (.species name)
  | .agent a => some (.species (speciesOf a))
  | _ => none

/-- Converts a value; `speciesOf` tells the species of agents. -/
def cast (speciesOf : AgentRef → String) (s : Store) (target : BaseType) (v : Value) :
    Option (Value × Store) :=
  if target = .any ∨ v.type = target then some (v, s) else
  match target with
  | .int => (castInt v).map (·, s)
  | .float => (castFloat v).map (·, s)
  | .bool => some (.bool v.truthy, s)
  | .string => some (.str (s.text v), s)
  | .point => (castPoint s v).map (·, s)
  | .pair => (castPair s v).map (·, s)
  | .list => some (s.newList .any (s.elements v))
  | .species => (castSpecies speciesOf v).map (·, s)
  | _ => none

end Habitat.Store
