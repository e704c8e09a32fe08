import Habitat.Expr.Basic
import Habitat.Json.Basic

/-!
# Drafts

Statements, species and models as they are written, before anything about them is checked.
-/
namespace Habitat

/-- An argument that an action declares. -/
structure Formal where
  name : String
  type : StaticType
  fallback : Option Expr

/-- Named expressions, in order. -/
abbrev Arguments := List (String × Expr)

/-- The three statements that change a container. -/
inductive EditKind where
  | add | remove | put
  deriving DecidableEq

def EditKind.keyword : EditKind → String
  | .add => "add"
  | .remove => "remove"
  | .put => "put"

/-- What an item is to a graph. -/
inductive ItemRole where
  | value | node | edge
  deriving DecidableEq

/-- The facets of a statement that changes a container. -/
structure EditFacets where
  container : Expr
  item : Option Expr
  index : Option Expr
  all : Bool
  role : ItemRole
  weight : Option Expr

/-- The facets of a loop; the first kind of iteration that is given counts. -/
structure LoopFacets where
  var : Option String
  times : Option Expr
  each : Option Expr
  condition : Option Expr
  start : Option Expr
  stop : Option Expr
  step : Option Expr

/-- The facets of a creation. -/
structure CreateFacets where
  species : Option Expr
  number : Option Expr
  source : Option Expr
  init : Arguments
  parallel : Option Expr
  returns : Option String

/-- The facets of an action call. -/
structure CallFacets where
  action : String
  args : Arguments
  target : Option Expr
  returns : Option String

/-- A statement as it is written. -/
inductive Draft where
  | declare (name : String) (value : Option Expr)
  | assign (target : Option Expr) (name : String) (value : Expr)
  | branch (condition : Expr) (yes : List Draft) (no : Option (List Draft))
  | block (body : List Draft)
  | loop (facets : LoopFacets) (body : List Draft)
  | ask (target : Expr) (parallel : Option Expr) (body : List Draft)
  | create (facets : CreateFacets) (body : List Draft)
  | capture (target : Expr) (species returns : Option String) (body : List Draft)
  | release (target : Expr) (species : Option String) (host : Option Expr)
      (returns : Option String) (body : List Draft)
  | migrate (source target : String) (returns : Option String) (body : List Draft)
  | call (facets : CallFacets)
  | invoke (facets : CallFacets)
  | edit (kind : EditKind) (facets : EditFacets)
  | attempt (body : List Draft) (rescue : Option (List Draft))
  | leave
  | skip
  | yield (value : Option Expr)
  | die
  | write (message : Expr)
  | warn (message : Expr)
  | raise (message : Expr)

/-- An action as it is written. -/
structure ActionDraft where
  name : String
  formals : List Formal
  body : List Draft

/-- A species as it is written. -/
structure SpeciesDraft where
  name : String
  parent : Option String
  micro : List String
  isAbstract : Bool
  attributes : List (String × Json)
  actions : List ActionDraft
  reflex : List Draft

/-- A model as it is written: the species of the root agent, the other species, and what the root
agent does before the first step. -/
structure ModelDraft where
  name : String
  root : SpeciesDraft
  species : List SpeciesDraft
  init : List Draft

/-- The draft of a species; the root species comes first. -/
def ModelDraft.find? (m : ModelDraft) (name : String) : Option SpeciesDraft :=
  (m.root :: m.species).find? fun s => s.name == name

end Habitat
