import Habitat.Run.Exec

/-!
# Arguments

Arguments are computed in the scope of the caller, before the frame of the action exists. A formal
takes its actual, or else its default, or else `nil`, and casts it to its type where it can.
-/
namespace Habitat

/-- Computed arguments, in order. -/
abbrev BoundArguments := List (String × Value)

namespace Arguments

/-- Sets an argument, in its place or at the end. -/
def insert (name : String) (e : Expr) : Arguments → Arguments
  | [] => [(name, e)]
  | (k, e') :: rest => if k = name then (k, e) :: rest else (k, e') :: insert name e rest

/-- The values of all arguments. -/
def evaluate : Arguments → Exec BoundArguments
  | [] => return []
  | (name, e) :: rest => do
    let v ← Exec.eval e
    let vs ← evaluate rest
    return (name, v) :: vs

/-- Casts an argument to the type of its formal, where that is possible. -/
def castArgument (type : BaseType) (v : Value) : Exec Value := do
  if v.isNil then return v
  let s ← get
  match Store.cast s.machine.world.speciesOf s.machine.store type v with
  | some (w, store) =>
    Exec.modifyStore fun _ => store
    return w
  | none => return v

/-- The arguments of the formals. -/
def bindFormals (args : Arguments) : List Formal → Exec BoundArguments
  | [] => return []
  | f :: rest => do
    let e := match args.lookup f.name with
      | some e => some e
      | none => f.fallback
    let v ← castArgument f.type.base (← Exec.evalOrNil e)
    let vs ← bindFormals args rest
    return (f.name, v) :: vs

/-- The arguments of the formals, then those that no formal declares. -/
def bind (args : Arguments) (formals : List Formal) : Exec BoundArguments := do
  let bound ← bindFormals args formals
  let others ← evaluate (args.filter fun a => !formals.any fun f => f.name == a.1)
  return bound ++ others

end Arguments
end Habitat
