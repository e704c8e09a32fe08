import Habitat.Description.Basic
import Habitat.Expr.Fold

/-!
# Statements

Statements that have been checked and can be run. Bounds of loops that are constant are known
here, and a loop over numbers has chosen its kind of numbers.
-/
namespace Habitat

/-- A bound of a loop: known, or computed when the loop starts. -/
inductive Bound (α : Type) where
  | constant (a : α)
  | dynamic (e : Expr)

/-- The integer that a bound must be. -/
def intBound? : Value → Option Int64
  | .int n => some n
  | _ => none

/-- The bound that an expression gives. It is known if the expression is a constant of the right
kind. -/
def Bound.ofExpr {α : Type} (read : Value → Option α) (e : Expr) : Bound α :=
  match e.constScalar.bind read with
  | some a => .constant a
  | none => .dynamic e

/-- A bound of integers. -/
def Bound.int (e : Expr) : Bound Int64 := .ofExpr intBound? e

/-- A bound of floats. -/
def Bound.float (e : Expr) : Bound Float := .ofExpr Value.asFloat e

/-- First value, last value and step of a loop over numbers. -/
structure Range (α : Type) where
  start : α
  stop : α
  step : Option α

/-- How a loop iterates. -/
inductive LoopKind where
  | times (count : Bound Int64)
  | loopWhile (condition : Expr)
  | each (source : Expr)
  | intRange (r : Range (Bound Int64))
  | floatRange (r : Range (Bound Float))
  | anyRange (r : Range Expr)

/-- The loop over a range: over integers or floats if the types of all bounds are known to be, and
decided by the values otherwise. -/
def LoopKind.ofRange (r : Range Expr) : LoopKind :=
  let types := (r.start :: r.stop :: r.step.toList).map fun e => e.staticType.base
  if types.all (· == .int) then
    .intRange ⟨.int r.start, .int r.stop, r.step.map .int⟩
  else if types.all BaseType.isNumeric then
    .floatRange ⟨.float r.start, .float r.stop, r.step.map .float⟩
  else .anyRange r

/-- The call of an action. With `species`, the action is the one of that species instead of the
agent's. -/
structure ActionCall where
  action : String
  args : Arguments
  target : Option Expr
  species : Option String
  returns : Option String

/-- A statement that can be run. -/
inductive Statement where
  | declare (name : String) (value : Option Expr)
  | assign (target : Option Expr) (name : String) (value : Expr)
  | branch (condition : Expr) (yes : List Statement) (no : Option (List Statement))
  | block (body : List Statement)
  | loop (var : Option String) (kind : LoopKind) (body : List Statement)
  | ask (target : Expr) (parallel : Option Expr) (body : List Statement)
  | create (facets : CreateFacets) (body : List Statement)
  | capture (target : Expr) (species returns : Option String) (body : List Statement)
  | release (target : Expr) (species : Option String) (host : Option Expr)
      (returns : Option String) (body : List Statement)
  | migrate (source target : String) (returns : Option String) (body : List Statement)
  | call (c : ActionCall)
  | edit (kind : EditKind) (facets : EditFacets) (warnings : List String)
  | attempt (body : List Statement) (rescue : Option (List Statement))
  | leave
  | skip
  | yield (value : Option Expr)
  | die
  | write (message : Expr)
  | warn (message : Expr)
  | raise (message : Expr)

/-- Statements that run one after another. -/
abbrev Sequence := List Statement

/-- The keyword in traces and diagnostics. -/
def Statement.keyword : Statement → String
  | .declare .. => "let"
  | .assign .. => "set"
  | .branch .. => "if"
  | .block _ => "block"
  | .loop .. => "loop"
  | .ask .. => "ask"
  | .create .. => "create"
  | .capture .. => "capture"
  | .release .. => "release"
  | .migrate .. => "migrate"
  | .call _ => "do"
  | .edit kind .. => kind.keyword
  | .attempt .. => "try"
  | .leave => "break"
  | .skip => "continue"
  | .yield _ => "return"
  | .die => "die"
  | .write _ => "write"
  | .warn _ => "warn"
  | .raise _ => "error"

end Habitat
