import Habitat.Expr.Operators
import Habitat.Store.Cast

/-!
# Computing expressions

An expression sees the world through an `Env` and may make new containers. It changes nothing
else.
-/
namespace Habitat

/-- What an expression can see. -/
structure Env where
  /-- The variables of the frames. -/
  frameVar : String → Option Value
  /-- The executing agent. -/
  agent : Option AgentRef
  /-- The caller of the innermost remote sequence. -/
  myself : Option AgentRef
  /-- The attributes of agents. -/
  attributeOf : AgentRef → String → Option Value
  dead : AgentRef → Bool
  speciesOf : AgentRef → String
  /-- The live agents of a species that the executing agent reaches, with the containers there
  are. -/
  population : Store → String → List AgentRef

namespace Expr

/-- The value, or a failure. -/
def orFail (v : Option Value) (e : ExecError) : Eval Value :=
  match v with
  | some v => pure v
  | none => throw e

/-- A variable of the frames, or else an attribute of the executing agent. -/
def lookup? (env : Env) (name : String) : Option Value :=
  match env.frameVar name with
  | some v => some v
  | none => env.agent.bind (env.attributeOf · name)

/-- An attribute of an agent, or an entry of a map. -/
def attrOf (env : Env) (name : String) (target : Value) : Eval Value := fun s =>
  match target with
  | .agent a => orFail (env.attributeOf a name) (.unknownVariable (a.name ++ "." ++ name)) s
  | .map r => .ok (((s.maps.get r).get? s.eq (.str name)).getD .nil) s
  | .nil => .error (.nilAgent ("access to " ++ name)) s
  | v => .error (.notAnAgent ("access to " ++ name) (s.text v)) s

/-- The point of two numbers. -/
def pointOf (x y : Value) : Eval Value := fun s =>
  match x.asFloat, y.asFloat with
  | some a, some b => .ok (.point a b) s
  | _, _ =>
    .error (.invalidOperation "point" ("\x7b" ++ s.text x ++ ", " ++ s.text y ++ "\x7d")) s

/-- The number of columns or rows that a value asks for. -/
def extent (v : Value) : Nat := (v.asInt.getD 0).toInt.toNat

def castTo (env : Env) (target : BaseType) (v : Value) : Eval Value := fun s =>
  match Store.cast env.speciesOf s target v with
  | some (w, s) => .ok w s
  | none =>
    .error (.invalidOperation "cast" ("cannot cast " ++ v.type.name ++ " to " ++ target.name)) s

mutual

/-- The value of an expression. -/
def eval (env : Env) : Expr → Eval Value
  | .nil => pure .nil
  | .bool b => pure (.bool b)
  | .int n => pure (.int n)
  | .float x => pure (.float x)
  | .str s => pure (.str s)
  | .species name => pure (.species name)
  | .var name _ => orFail (lookup? env name) (.unknownVariable name)
  | .selfAgent => pure ((env.agent.map Value.agent).getD .nil)
  | .myself => pure ((env.myself.map Value.agent).getD .nil)
  | .attr target name => do attrOf env name (← eval env target)
  | .unary op e => do
    let v ← eval env e
    Eval.lift (Operators.unary op v)
  | .binary .and l r => do
    let a ← eval env l
    if !a.truthy then return .bool false
    return .bool (← eval env r).truthy
  | .binary .or l r => do
    let a ← eval env l
    if a.truthy then return .bool true
    return .bool (← eval env r).truthy
  | .binary op l r => do
    let a ← eval env l
    let b ← eval env r
    Operators.binary op a b
  | .list items content => do
    let vs ← evalAll env items
    Eval.allocate (·.newList content vs)
  | .map entries => do
    let es ← evalEntries env entries
    Eval.allocate (·.newMapOf es)
  | .pair k v => do
    let k ← eval env k
    let v ← eval env v
    return .pair k v
  | .point x y => do
    let x ← eval env x
    let y ← eval env y
    pointOf x y
  | .matrix cols rows fill => do
    let cols := extent (← eval env cols)
    let rows := extent (← eval env rows)
    let fill ← eval env fill
    Eval.allocate (·.newMatrix (.filled cols rows fill))
  | .graph => Eval.allocate (·.newGraph ⟨[], []⟩)
  | .population name =>
    Eval.allocate fun s => s.newList .agent ((env.population s name).map .agent)
  | .cast target e => do castTo env target (← eval env e)
  | .call function args => do Operators.call env.dead function (← evalAll env args)
  | .embedded inner _ _ _ => eval env inner

/-- The values of expressions, from left to right. -/
def evalAll (env : Env) : List Expr → Eval (List Value)
  | [] => pure []
  | e :: rest => do
    let v ← eval env e
    let vs ← evalAll env rest
    return v :: vs

/-- The keys and values of a map, from left to right. -/
def evalEntries (env : Env) : List (Expr × Expr) → Eval (List (Value × Value))
  | [] => pure []
  | (k, v) :: rest => do
    let k ← eval env k
    let v ← eval env v
    let es ← evalEntries env rest
    return (k, v) :: es

end
end Expr
end Habitat
