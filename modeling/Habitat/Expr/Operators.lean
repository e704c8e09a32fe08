import Habitat.Expr.Basic
import Habitat.Container.Access
import Habitat.Decimal.Binary

/-!
# Operators and built-in functions

What they compute from values. Integers wrap at 64 bits, a quotient is always a float, and both
kinds of numbers compare as floats.
-/
namespace Habitat

/-- A computation that may make new containers. -/
abbrev Eval := EStateM ExecError Store

namespace Eval

/-- The result, or the error as a failure. -/
def lift {α : Type} : Except ExecError α → Eval α
  | .ok a => pure a
  | .error e => throw e

/-- Makes a new container. -/
def allocate (make : Store → Value × Store) : Eval Value := fun s =>
  let (v, s) := make s
  .ok v s

/-- Drops the containers that a computation made, unless its value refers to one. -/
def releasing (x : Eval Value) : Eval Value := fun s =>
  let sizes := s.sizes
  match x s with
  | .ok v s => .ok v (if v.isFlat then s.shrink sizes else s)
  | .error e s => .error e (s.shrink sizes)

/-- The result and the containers, if the computation does not fail. -/
def run? {α : Type} (x : Eval α) (s : Store) : Option (α × Store) :=
  match x s with
  | .ok a s => some (a, s)
  | .error _ _ => none

end Eval

namespace Operators

/-- The failure of an operation on unsuitable operands. -/
def invalid {α : Type} (operation detail : String) : Except ExecError α :=
  .error (.invalidOperation operation detail)

def unary : UnaryOp → Value → Except ExecError Value
  | .not, v => .ok (.bool (!v.truthy))
  | .neg, .int n => .ok (.int (-n))
  | .neg, .float x => .ok (.float (-x))
  | .neg, .point x y => .ok (.point (-x) (-y))
  | .neg, v => invalid "-" ("cannot negate " ++ v.type.name)

def compareFloats (a b : Float) : Option Ordering :=
  if a < b then some .lt else if a == b then some .eq else if b < a then some .gt else none

/-- The order of two strings or two numbers. -/
def order (left right : Value) : Option Ordering :=
  match left, right with
  | .str a, .str b => some (if a < b then .lt else if a = b then .eq else .gt)
  | a, b => do compareFloats (← a.asFloat) (← b.asFloat)

/-- Whether an order satisfies a comparison. -/
def holds : BinaryOp → Ordering → Bool
  | .lt, o => o == .lt
  | .le, o => o != .gt
  | .gt, o => o == .gt
  | _, o => o != .lt

def compare (op : BinaryOp) (left right : Value) : Except ExecError Value :=
  match order left right with
  | some o => .ok (.bool (holds op o))
  | none => invalid op.symbol ("cannot compare " ++ left.type.name ++ " and " ++ right.type.name)

/-- Arithmetic on integers. -/
def intResult (op : BinaryOp) (a b : Int64) : Value :=
  match op with
  | .add => .int (a + b)
  | .sub => .int (a - b)
  | .mul => .int (a * b)
  | .div => .float (a.toFloat / b.toFloat)
  | _ => .int (a % b)

/-- Arithmetic on floats. -/
def floatResult (op : BinaryOp) (a b : Float) : Float :=
  match op with
  | .add => a + b
  | .sub => a - b
  | .mul => a * b
  | .div => a / b
  | _ => Decimal.remainder a b

/-- Whether the operation divides by zero. -/
def dividesByZero (op : BinaryOp) (right : Value) : Bool :=
  match op with
  | .div | .mod => match right.asFloat with
    | some y => y == 0.0
    | none => false
  | _ => false

/-- Arithmetic on numbers. -/
def numeric (op : BinaryOp) (left right : Value) : Except ExecError Value :=
  if dividesByZero op right then invalid op.symbol "division by zero" else
  match left, right with
  | .int a, .int b => .ok (intResult op a b)
  | a, b =>
    match a.asFloat, b.asFloat with
    | some x, some y => .ok (.float (floatResult op x y))
    | _, _ => invalid op.symbol (left.type.name ++ " and " ++ right.type.name)

/-- Arithmetic, and the sums of strings, lists and points. -/
def arithmetic (op : BinaryOp) (left right : Value) : Eval Value := fun s =>
  match op, left, right with
  | .add, .str a, b => .ok (.str (a ++ s.text b)) s
  | .add, .list r, b =>
    let more := match b with
      | .list q => (s.lists.get q).items
      | v => #[v]
    Eval.allocate (·.addList ⟨.any, (s.lists.get r).items ++ more⟩) s
  | .add, .point a b, .point c d => .ok (.point (a + c) (b + d)) s
  | .sub, .point a b, .point c d => .ok (.point (a - c) (b - d)) s
  | op, a, b => Eval.lift (numeric op a b) s

/-- A binary operation on computed operands. -/
def binary (op : BinaryOp) (left right : Value) : Eval Value := fun s =>
  match op with
  | .eq => .ok (.bool (s.eq left right)) s
  | .ne => .ok (.bool (!s.eq left right)) s
  | .lt | .le | .gt | .ge => Eval.lift (compare op left right) s
  | .and => .ok (.bool (left.truthy && right.truthy)) s
  | .or => .ok (.bool (left.truthy || right.truthy)) s
  | _ => arithmetic op left right s

/-- The sum of values, one after another. -/
def sum : List Value → Value → Eval Value
  | [], acc => pure acc
  | v :: rest, acc => do sum rest (← binary .add acc v)

/-- A call of a built-in function; `dead` tells which agents are. -/
def call (dead : AgentRef → Bool) (function : Builtin) (args : List Value) : Eval Value := fun s =>
  match function, args with
  | .length, [.str t] => .ok (.int (Int64.ofNat t.length)) s
  | .length, [v] => .ok (.int (Int64.ofNat (s.length v))) s
  | .contains, [c, v] => .ok (.bool ((s.elements c).any fun x => s.eq x v)) s
  | .at, [c, i] =>
    if c.isContainer then .ok ((s.at? c i).getD .nil) s
    else .error (.invalidOperation "at" (c.type.name ++ " is not a container")) s
  | .dead, [.nil] => .ok (.bool true) s
  | .dead, [.agent a] => .ok (.bool (dead a)) s
  | .dead, [v] => .error (.invalidOperation "dead" (v.type.name ++ " is not an agent")) s
  | .sum, [c] => sum (s.elements c) (.int 0) s
  | f, _ => .error (.invalidOperation f.name "wrong number of arguments") s

end Operators
end Habitat
