import Habitat.Value.Kind
import Habitat.Decimal.Format

/-!
# Expressions

The syntax of expressions, their text, and the type that is known before they are computed.

* `Expr.text`: the text in messages
* `Expr.staticType`: what the syntax tells about the value
-/
namespace Habitat

inductive UnaryOp where
  | not | neg
  deriving DecidableEq

inductive BinaryOp where
  | add | sub | mul | div | mod | eq | ne | lt | le | gt | ge | and | or
  deriving DecidableEq

namespace BinaryOp

def symbol : BinaryOp → String
  | .add => "+"
  | .sub => "-"
  | .mul => "*"
  | .div => "/"
  | .mod => "mod"
  | .eq => "="
  | .ne => "!="
  | .lt => "<"
  | .le => "<="
  | .gt => ">"
  | .ge => ">="
  | .and => "and"
  | .or => "or"

/-- Whether the result is a boolean. -/
def isComparison : BinaryOp → Bool
  | .add | .sub | .mul | .div | .mod => false
  | _ => true

end BinaryOp

/-- Functions that every program can call. -/
inductive Builtin where
  | length | contains | at | dead | sum
  deriving DecidableEq

def Builtin.name : Builtin → String
  | .length => "length"
  | .contains => "contains"
  | .at => "at"
  | .dead => "dead"
  | .sum => "sum"

/-- An expression. `embedded` is an expression that the program around a model supplies: it is
computed like `inner`, and says of itself how it reads, its type, and whether it is constant. -/
inductive Expr where
  | nil
  | bool (b : Bool)
  | int (n : Int64)
  | float (x : Float)
  | str (s : String)
  | var (name : String) (type : StaticType)
  | selfAgent
  | myself
  | attr (target : Expr) (name : String)
  | unary (op : UnaryOp) (operand : Expr)
  | binary (op : BinaryOp) (left right : Expr)
  | list (items : List Expr) (content : BaseType)
  | map (entries : List (Expr × Expr))
  | pair (key value : Expr)
  | point (x y : Expr)
  | matrix (cols rows fill : Expr)
  | graph
  | species (name : String)
  | population (name : String)
  | cast (target : BaseType) (operand : Expr)
  | call (function : Builtin) (args : List Expr)
  | embedded (inner : Expr) (literal : String) (type : StaticType) (constant : Bool)

namespace Expr

mutual

/-- The text of an expression. -/
def text : Expr → String
  | .nil => "nil"
  | .bool b => if b then "true" else "false"
  | .int n => toString n.toInt
  | .float x => Decimal.FloatFormat.display.text x
  | .str s => "'" ++ s ++ "'"
  | .var name _ => name
  | .selfAgent => "self"
  | .myself => "myself"
  | .attr target name => target.text ++ "." ++ name
  | .unary .not operand => "!" ++ operand.text
  | .unary .neg operand => "-" ++ operand.text
  | .binary op left right => "(" ++ left.text ++ " " ++ op.symbol ++ " " ++ right.text ++ ")"
  | .list items _ => "[" ++ ",".intercalate (texts items) ++ "]"
  | .map entries => "[" ++ ",".intercalate (entryTexts entries) ++ "]"
  | .pair key value => key.text ++ "::" ++ value.text
  | .point x y => "\x7b" ++ x.text ++ "," ++ y.text ++ "\x7d"
  | .matrix cols rows fill => "matrix(" ++ cols.text ++ ", " ++ rows.text ++ ", " ++ fill.text ++ ")"
  | .graph => "graph([])"
  | .species name => name
  | .population name => name
  | .cast target operand => target.name ++ "(" ++ operand.text ++ ")"
  | .call function args => function.name ++ "(" ++ ", ".intercalate (texts args) ++ ")"
  | .embedded _ literal _ _ => literal

def texts : List Expr → List String
  | [] => []
  | e :: rest => e.text :: texts rest

def entryTexts : List (Expr × Expr) → List String
  | [] => []
  | (k, v) :: rest => (k.text ++ "::" ++ v.text) :: entryTexts rest

end

/-- The type of an arithmetic operation on operands of these types. -/
def arithmeticType (op : BinaryOp) (left right : BaseType) : BaseType :=
  match op, left, right with
  | .div, _, _ => .float
  | .add, .string, _ => .string
  | .add, .list, _ => .list
  | _, .int, .int => .int
  | _, .point, .point => .point
  | _, a, b => if a.isNumeric && b.isNumeric then .float else .any

/-- The type of an expression as far as its syntax tells. -/
def staticType : Expr → StaticType
  | .nil => .of .nil
  | .bool _ => .of .bool
  | .int _ => .of .int
  | .float _ => .of .float
  | .str _ => .of .string
  | .var _ type => type
  | .selfAgent | .myself => .of .agent
  | .attr .. => .any
  | .unary .not _ => .of .bool
  | .unary .neg operand => operand.staticType
  | .binary op left right =>
    if op.isComparison then .of .bool
    else .of (arithmeticType op left.staticType.base right.staticType.base)
  | .list _ content => .container .list content
  | .map _ => .of .map
  | .pair .. => .of .pair
  | .point .. => .of .point
  | .matrix _ _ fill => .container .matrix fill.staticType.base
  | .graph => .of .graph
  | .species _ => .of .species
  | .population _ => .container .list .agent
  | .cast target _ => .of target
  | .call .length _ => .of .int
  | .call .contains _ | .call .dead _ => .of .bool
  | .call .at _ | .call .sum _ => .any
  | .embedded _ _ type _ => type

end Expr
end Habitat
