import Habitat.Description.Basic
import Habitat.Expr.Codec

/-!
# Reading drafts

A statement carries its keyword in the field `kind`, or as the first item of an array. Everything
inside a statement has to be readable, also what the statement ignores. A statement inside another
one may give the keyword by its number.
-/
namespace Habitat

open Json (Place record? required optional defaulted)

def Formal.ofJson? (place : Place) (j : Json) : Option Formal := do
  match ← record? ["name", "ty", "default"] j with
  | [name, type, fallback] =>
    return ⟨← required Json.str? name, ← defaulted .any (StaticType.ofJson? place) type,
      ← optional (Expr.ofJson? place) fallback⟩
  | _ => none

def argumentsOfJson? (place : Place) (j : Json) : Option Arguments :=
  Json.list? (Json.pair? Json.str? (Expr.ofJson? place)) j

def ItemRole.tag : ItemRole → String
  | .value => "value"
  | .node => "node"
  | .edge => "edge"

def ItemRole.table : List (String × ItemRole) := [.value, .node, .edge].map fun r => (r.tag, r)

def EditFacets.ofJson? (place : Place) (j : Json) : Option EditFacets := do
  match ← record? ["container", "item", "index", "all", "role", "weight"] j with
  | [container, item, index, all, role, weight] =>
    return ⟨← required (Expr.ofJson? place) container, ← optional (Expr.ofJson? place) item,
      ← optional (Expr.ofJson? place) index, ← defaulted false Json.bool? all,
      ← defaulted .value (Json.choice? place ItemRole.table) role,
      ← optional (Expr.ofJson? place) weight⟩
  | _ => none

def CallFacets.ofJson? (place : Place) (j : Json) : Option CallFacets := do
  match ← record? ["action", "args", "target", "returns"] j with
  | [action, args, target, returns] =>
    return ⟨← required Json.str? action, ← defaulted [] (argumentsOfJson? place) args,
      ← optional (Expr.ofJson? place) target, ← optional Json.str? returns⟩
  | _ => none

/-- A loop with its body, given a reader for the body. -/
def LoopFacets.ofJson? (place : Place) (body? : Json → Option (List Draft)) (j : Json) :
    Option (LoopFacets × List Draft) := do
  match ← record? ["var", "times", "over", "while", "from", "to", "step", "body"] j with
  | [var, times, each, condition, start, stop, step, body] =>
    return (⟨← optional Json.str? var, ← optional (Expr.ofJson? place) times,
      ← optional (Expr.ofJson? place) each, ← optional (Expr.ofJson? place) condition,
      ← optional (Expr.ofJson? place) start, ← optional (Expr.ofJson? place) stop,
      ← optional (Expr.ofJson? place) step⟩, ← defaulted [] body? body)
  | _ => none

/-- A creation with its body, given a reader for the body. -/
def CreateFacets.ofJson? (place : Place) (body? : Json → Option (List Draft)) (j : Json) :
    Option (CreateFacets × List Draft) := do
  match ← record? ["species", "number", "from", "with", "parallel", "returns", "body"] j with
  | [species, number, source, init, parallel, returns, body] =>
    return (⟨← optional (Expr.ofJson? place) species, ← optional (Expr.ofJson? place) number,
      ← optional (Expr.ofJson? place) source, ← defaulted [] (argumentsOfJson? place) init,
      ← optional (Expr.ofJson? place) parallel, ← optional Json.str? returns⟩,
      ← defaulted [] body? body)
  | _ => none

namespace Draft

/-- The keywords, in the order of their numbers. -/
def keywords : List String :=
  ["let", "set", "if", "block", "loop", "ask", "create", "capture", "release", "migrate", "do",
    "invoke", "add", "remove", "put", "try", "break", "continue", "return", "die", "write", "warn",
    "error"]

/-- The keyword that a tag stands for. -/
def keyword? (place : Place) : Json → Option String
  | .str s => some s
  | .int n => if place = .nested ∧ 0 ≤ n then keywords[n.toNat]? else none
  | _ => none

/-- The keyword of a statement and the rest of it. -/
def split? (place : Place) : Json → Option (String × Json)
  | .obj fields =>
    if Json.repeated "kind" fields then none else
    match fields.lookup "kind" with
    | none => none
    | some tag =>
      let rest := fields.filter fun f => f.1 != "kind"
      if Json.readableFields rest then (keyword? place tag).map (·, .obj rest) else none
  | .arr (tag :: rest) =>
    if Json.readableItems rest then (keyword? place tag).map (·, .arr rest) else none
  | _ => none

/-- A statement without facets ignores fields, but not items. -/
def bare? (d : Draft) : Json → Option Draft
  | .obj _ => some d
  | .arr [] => some d
  | _ => none

/-- Reads the facets of a statement, given a reader for the statements inside. -/
def ofFacets? (body? : Json → Option (List Draft)) (keyword : String) (j : Json) : Option Draft :=
  let expr? := Expr.ofJson? .nested
  match keyword with
  | "let" => do
    match ← record? ["name", "value"] j with
    | [name, value] => return .declare (← required Json.str? name) (← optional expr? value)
    | _ => none
  | "set" => do
    match ← record? ["target", "name", "value"] j with
    | [target, name, value] =>
      return .assign (← optional expr? target) (← required Json.str? name) (← required expr? value)
    | _ => none
  | "if" => do
    match ← record? ["condition", "then", "otherwise"] j with
    | [condition, yes, no] =>
      return .branch (← required expr? condition) (← required body? yes) (← optional body? no)
    | _ => none
  | "block" => do
    match ← record? ["body"] j with
    | [body] => return .block (← required body? body)
    | _ => none
  | "loop" => (LoopFacets.ofJson? .nested body? j).map fun (f, body) => .loop f body
  | "ask" => do
    match ← record? ["target", "parallel", "body"] j with
    | [target, parallel, body] =>
      return .ask (← required expr? target) (← optional expr? parallel) (← defaulted [] body? body)
    | _ => none
  | "create" => (CreateFacets.ofJson? .nested body? j).map fun (f, body) => .create f body
  | "capture" => do
    match ← record? ["target", "as", "returns", "body"] j with
    | [target, species, returns, body] =>
      return .capture (← required expr? target) (← optional Json.str? species)
        (← optional Json.str? returns) (← defaulted [] body? body)
    | _ => none
  | "release" => do
    match ← record? ["target", "as", "in", "returns", "body"] j with
    | [target, species, host, returns, body] =>
      return .release (← required expr? target) (← optional Json.str? species)
        (← optional expr? host) (← optional Json.str? returns) (← defaulted [] body? body)
    | _ => none
  | "migrate" => do
    match ← record? ["source", "target", "returns", "body"] j with
    | [source, target, returns, body] =>
      return .migrate (← required Json.str? source) (← required Json.str? target)
        (← optional Json.str? returns) (← defaulted [] body? body)
    | _ => none
  | "do" => (CallFacets.ofJson? .nested j).map .call
  | "invoke" => (CallFacets.ofJson? .nested j).map .invoke
  | "add" => (EditFacets.ofJson? .nested j).map (.edit .add)
  | "remove" => (EditFacets.ofJson? .nested j).map (.edit .remove)
  | "put" => (EditFacets.ofJson? .nested j).map (.edit .put)
  | "try" => do
    match ← record? ["body", "catch"] j with
    | [body, rescue] => return .attempt (← required body? body) (← optional body? rescue)
    | _ => none
  | "break" => bare? .leave j
  | "continue" => bare? .skip j
  | "return" => do
    match ← record? ["value"] j with
    | [value] => return .yield (← optional expr? value)
    | _ => none
  | "die" => bare? .die j
  | "write" => do
    match ← record? ["message"] j with
    | [message] => return .write (← required expr? message)
    | _ => none
  | "warn" => do
    match ← record? ["message"] j with
    | [message] => return .warn (← required expr? message)
    | _ => none
  | "error" => do
    match ← record? ["message"] j with
    | [message] => return .raise (← required expr? message)
    | _ => none
  | _ => none

/-- Reads a statement of at most the given depth. -/
def ofJsonAt? : Nat → Place → Json → Option Draft
  | 0, _, _ => none
  | n + 1, place, j =>
    match split? place j with
    | some (keyword, rest) => ofFacets? (Json.list? (ofJsonAt? n .nested)) keyword rest
    | none => none

/-- Reads a statement. -/
def ofJson? (j : Json) : Option Draft := ofJsonAt? (j.depth + 1) .outer j

/-- Reads a sequence of statements. -/
def sequenceOfJson? (j : Json) : Option (List Draft) := Json.list? ofJson? j

end Draft

def ActionDraft.ofJson? (j : Json) : Option ActionDraft := do
  match ← record? ["name", "args", "body"] j with
  | [name, formals, body] =>
    return ⟨← required Json.str? name, ← defaulted [] (Json.list? (Formal.ofJson? .outer)) formals,
      ← defaulted [] Draft.sequenceOfJson? body⟩
  | _ => none

def SpeciesDraft.ofJson? (j : Json) : Option SpeciesDraft := do
  match ← record?
      ["name", "parent", "micro_species", "abstract", "attributes", "actions", "reflex"] j with
  | [name, parent, micro, isAbstract, attributes, actions, reflex] =>
    return ⟨← required Json.str? name, ← optional Json.str? parent,
      ← defaulted [] (Json.list? Json.str?) micro, ← defaulted false Json.bool? isAbstract,
      ← defaulted [] Json.object? attributes,
      ← defaulted [] (Json.list? ActionDraft.ofJson?) actions,
      ← defaulted [] Draft.sequenceOfJson? reflex⟩
  | _ => none

def ModelDraft.ofJson? (j : Json) : Option ModelDraft := do
  match ← record? ["name", "world", "species", "init"] j with
  | [name, root, species, init] =>
    return ⟨← required Json.str? name, ← required SpeciesDraft.ofJson? root,
      ← defaulted [] (Json.list? SpeciesDraft.ofJson?) species,
      ← defaulted [] Draft.sequenceOfJson? init⟩
  | _ => none

end Habitat
