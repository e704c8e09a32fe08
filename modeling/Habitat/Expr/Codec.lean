import Habitat.Expr.Basic
import Habitat.Json.Schema

/-!
# Expressions as documents

* `Expr.ofJson?` reads a description
* `Expr.toJson` writes it
-/
namespace Habitat

open Json (Place record? required optional defaulted variant? isUnit choice? ofOption)

/-- The types by the names they have in descriptions. -/
def BaseType.table : List (String × BaseType) := BaseType.all.map fun t => (t.tag, t)

def BaseType.ofJson? (place : Place) (j : Json) : Option BaseType := choice? place table j

def BaseType.toJson (t : BaseType) : Json := .str t.tag

def StaticType.ofJson? (place : Place) (j : Json) : Option StaticType := do
  match ← record? ["base", "key", "content"] j with
  | [base, key, content] =>
    return ⟨← required (BaseType.ofJson? place) base,
      ← defaulted .any (BaseType.ofJson? place) key,
      ← defaulted .any (BaseType.ofJson? place) content⟩
  | _ => none

def StaticType.toJson (t : StaticType) : Json :=
  .obj [("base", t.base.toJson), ("key", t.key.toJson), ("content", t.content.toJson)]

namespace UnaryOp

def tag : UnaryOp → String
  | .not => "not"
  | .neg => "neg"

def table : List (String × UnaryOp) := [.not, .neg].map fun op => (op.tag, op)

end UnaryOp

namespace BinaryOp

def tag : BinaryOp → String
  | .add => "add"
  | .sub => "sub"
  | .mul => "mul"
  | .div => "div"
  | .mod => "mod"
  | .eq => "eq"
  | .ne => "ne"
  | .lt => "lt"
  | .le => "le"
  | .gt => "gt"
  | .ge => "ge"
  | .and => "and"
  | .or => "or"

def table : List (String × BinaryOp) :=
  [.add, .sub, .mul, .div, .mod, .eq, .ne, .lt, .le, .gt, .ge, .and, .or].map fun op => (op.tag, op)

end BinaryOp

def Builtin.table : List (String × Builtin) :=
  [.length, .contains, .at, .dead, .sum].map fun f => (f.name, f)

namespace Expr

/-- Reads the contents of a variant, given a reader for the expressions inside. -/
def ofVariant? (place : Place) (sub : Json → Option Expr) (name : String)
    (contents : Option Json) : Option Expr :=
  match name, contents with
  | "nil", c => if isUnit place c then some .nil else none
  | "self_agent", c => if isUnit place c then some .selfAgent else none
  | "myself", c => if isUnit place c then some .myself else none
  | "graph", c => if isUnit place c then some .graph else none
  | "bool", some j => j.bool?.map .bool
  | "int", some j => j.int64?.map .int
  | "float", some j => j.float?.map .float
  | "str", some j => j.str?.map .str
  | "species", some j => j.str?.map .species
  | "population", some j => j.str?.map .population
  | "var", some j => do
    match ← record? ["name", "ty"] j with
    | [name, type] =>
      return .var (← required Json.str? name) (← defaulted .any (StaticType.ofJson? place) type)
    | _ => none
  | "attribute", some j => do
    match ← record? ["target", "name"] j with
    | [target, name] => return .attr (← required sub target) (← required Json.str? name)
    | _ => none
  | "unary", some j => do
    match ← record? ["op", "operand"] j with
    | [op, operand] =>
      return .unary (← required (choice? place UnaryOp.table) op) (← required sub operand)
    | _ => none
  | "binary", some j => do
    match ← record? ["op", "left", "right"] j with
    | [op, left, right] =>
      return .binary (← required (choice? place BinaryOp.table) op) (← required sub left)
        (← required sub right)
    | _ => none
  | "list", some j => do
    match ← record? ["items", "content"] j with
    | [items, content] =>
      return .list (← required (Json.list? sub) items)
        (← defaulted .any (BaseType.ofJson? place) content)
    | _ => none
  | "map", some j => do
    match ← record? ["entries"] j with
    | [entries] => return .map (← required (Json.list? (Json.pair? sub sub)) entries)
    | _ => none
  | "pair", some j => do
    match ← record? ["key", "value"] j with
    | [key, value] => return .pair (← required sub key) (← required sub value)
    | _ => none
  | "point", some j => do
    match ← record? ["x", "y"] j with
    | [x, y] => return .point (← required sub x) (← required sub y)
    | _ => none
  | "matrix", some j => do
    match ← record? ["cols", "rows", "fill"] j with
    | [cols, rows, fill] =>
      return .matrix (← required sub cols) (← required sub rows) (← required sub fill)
    | _ => none
  | "cast", some j => do
    match ← record? ["to", "expr"] j with
    | [target, operand] =>
      return .cast (← required (BaseType.ofJson? place) target) (← required sub operand)
    | _ => none
  | "call", some j => do
    match ← record? ["function", "args"] j with
    | [function, args] =>
      return .call (← required (choice? place Builtin.table) function)
        (← required (Json.list? sub) args)
    | _ => none
  | _, _ => none

/-- Reads an expression of at most the given depth. -/
def ofJsonAt? (place : Place) : Nat → Json → Option Expr
  | 0, _ => none
  | n + 1, j =>
    match variant? j with
    | some (name, contents) => ofVariant? place (ofJsonAt? place n) name contents
    | none => none

/-- Reads an expression. -/
def ofJson? (place : Place) (j : Json) : Option Expr := ofJsonAt? place (j.depth + 1) j

/-- A variant with contents. -/
def tagged (name : String) (contents : Json) : Json := .obj [(name, contents)]

mutual

/-- Writes an expression. Embedded expressions have no description. -/
def toJson : Expr → Json
  | .nil => .str "nil"
  | .bool b => tagged "bool" (.bool b)
  | .int n => tagged "int" (.int n.toInt)
  | .float x => tagged "float" (.ofFloat x)
  | .str s => tagged "str" (.str s)
  | .var name type => tagged "var" (.obj [("name", .str name), ("ty", type.toJson)])
  | .selfAgent => .str "self_agent"
  | .myself => .str "myself"
  | .attr target name =>
    tagged "attribute" (.obj [("target", target.toJson), ("name", .str name)])
  | .unary op operand =>
    tagged "unary" (.obj [("op", .str op.tag), ("operand", operand.toJson)])
  | .binary op left right =>
    tagged "binary" (.obj [("op", .str op.tag), ("left", left.toJson), ("right", right.toJson)])
  | .list items content =>
    tagged "list" (.obj [("items", .arr (toJsons items)), ("content", content.toJson)])
  | .map entries => tagged "map" (.obj [("entries", .arr (toJsonEntries entries))])
  | .pair key value => tagged "pair" (.obj [("key", key.toJson), ("value", value.toJson)])
  | .point x y => tagged "point" (.obj [("x", x.toJson), ("y", y.toJson)])
  | .matrix cols rows fill =>
    tagged "matrix" (.obj [("cols", cols.toJson), ("rows", rows.toJson), ("fill", fill.toJson)])
  | .graph => .str "graph"
  | .species name => tagged "species" (.str name)
  | .population name => tagged "population" (.str name)
  | .cast target operand =>
    tagged "cast" (.obj [("to", target.toJson), ("expr", operand.toJson)])
  | .call function args =>
    tagged "call" (.obj [("function", .str function.name), ("args", .arr (toJsons args))])
  | .embedded .. => .null

def toJsons : List Expr → List Json
  | [] => []
  | e :: rest => e.toJson :: toJsons rest

def toJsonEntries : List (Expr × Expr) → List Json
  | [] => []
  | (k, v) :: rest => .arr [k.toJson, v.toJson] :: toJsonEntries rest

end
end Expr
end Habitat
