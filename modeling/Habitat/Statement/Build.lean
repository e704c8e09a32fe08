import Habitat.Statement.Basic
import Habitat.Error

/-!
# Building statements

Drafts become statements once their structure is right: loops that say how they iterate, facets
that fit together, actions that exist. What only looks wrong is noted as a diagnostic and does not
stop the building. Diagnostics stay when building fails.
-/
namespace Habitat

/-- A remark on a statement that could be built. -/
structure Diagnostic where
  statement : String
  message : String

/-- Building collects diagnostics, oldest first. -/
abbrev Build := EStateM BuildError (List Diagnostic)

/-- What is known about the place of the statements: the model, and the species whose code they
are. -/
structure BuildContext where
  model : Option ModelDraft
  species : Option String

namespace Build

/-- Notes a remark. -/
def diagnose (statement message : String) : Build Unit :=
  modify fun ds => ds ++ [⟨statement, message⟩]

def incomplete {α : Type} (statement detail : String) : Build α :=
  throw (.incomplete statement detail)

/-- An action of a species or of one of its parents, looking at no more than `n` species. -/
def findActionAt (m : ModelDraft) (action : String) : Nat → String → Option ActionDraft
  | 0, _ => none
  | n + 1, species =>
    match m.find? species with
    | none => none
    | some s =>
      match s.actions.find? fun a => a.name == action with
      | some a => some a
      | none => s.parent.bind (findActionAt m action n)

/-- An action of a species or of one of its parents. -/
def findAction (m : ModelDraft) (species action : String) : Option ActionDraft :=
  findActionAt m action (m.species.length + 1) species

/-! ## Calls -/

/-- The parent of the species whose code is built. -/
def parentSpecies (c : BuildContext) : Build String := do
  match c.species with
  | none => incomplete "invoke" "only available inside a species"
  | some name =>
    match (c.model.bind (·.find? name)).bind (·.parent) with
    | none => incomplete "invoke" (name ++ " has no parent species")
    | some parent => return parent

/-- Checks that a species has an action, and that the action declares the arguments. -/
def checkCall (m : ModelDraft) (species : String) (f : CallFacets) : Build Unit := do
  match findAction m species f.action with
  | none => throw (.unknownAction f.action species)
  | some a =>
    match f.args.find? fun arg => !a.formals.any fun formal => formal.name == arg.1 with
    | some arg => throw (.unknownArgument f.action arg.1)
    | none => return ()

/-- A call of an action. Without a target the action must be one of the species at hand; with one
the target decides when the call runs. -/
def call (c : BuildContext) (f : CallFacets) : Build Statement := do
  match c.model, (if f.target.isNone then c.species else none) with
  | some m, some species => checkCall m species f
  | _, _ => pure ()
  return .call ⟨f.action, f.args, f.target, none, f.returns⟩

/-- A call of the action as the parent species has it. -/
def invoke (c : BuildContext) (f : CallFacets) : Build Statement := do
  let parent ← parentSpecies c
  match c.model with
  | some m => checkCall m parent f
  | none => pure ()
  return .call ⟨f.action, f.args, f.target, some parent, f.returns⟩

/-! ## Containers -/

/-- The facets that must and must not be there. -/
def checkFacets (kind : EditKind) (f : EditFacets) : Except BuildError Unit :=
  match kind with
  | .add =>
    if f.item.isNone then .error (.incomplete "add" "an item to add is required") else .ok ()
  | .put =>
    if f.item.isNone then .error (.incomplete "put" "a value to put is required")
    else if f.all && f.index.isSome then .error (.conflictingFacets "put" "all" "at")
    else if !f.all && f.index.isNone then
      .error (.incomplete "put" "either 'at' or 'all' is required")
    else .ok ()
  | .remove =>
    if f.item.isNone && f.index.isNone && !f.all then
      .error (.incomplete "remove" "an item, an index or 'all' is required")
    else .ok ()

/-- The remark on an item whose type is not the one of the contents. -/
def itemWarning (kind : EditKind) (f : EditFacets) (container : StaticType) : List String :=
  match f.item with
  | none => []
  | some item =>
    let type := item.staticType
    let checked := if f.all && kind != .put && type.isContainer then type.content else type.base
    if container.base != .graph && !checked.isTranslatableInto container.content then
      ["the type of the contents of " ++ f.container.text ++ " (" ++ container.content.name ++
        ") does not match the type of " ++ item.text ++ " (" ++ checked.name ++
        "); it will be casted"]
    else []

/-- Whether an index of this type suits a container. -/
def indexAllowed (kind : EditKind) (container : StaticType) (index : BaseType) : Bool :=
  match container.base with
  | .list => index.isTranslatableInto .int || (kind == .put && index == .pair)
  | .matrix => [BaseType.any, .point, .list, .pair, .int].contains index
  | .graph => [BaseType.any, .pair].contains index
  | _ => index.isTranslatableInto container.key

/-- The remark on an index whose type does not suit the container. -/
def indexWarning (kind : EditKind) (f : EditFacets) (container : StaticType) : List String :=
  match f.index with
  | none => []
  | some index =>
    let type := index.staticType.base
    if indexAllowed kind container type then []
    else
      ["the type of the index of " ++ f.container.text ++ " (" ++ container.key.name ++
        ") does not match the type of " ++ index.text ++ " (" ++ type.name ++ ")"]

/-- The remarks on the types of a statement that changes a container. -/
def typeWarnings (kind : EditKind) (f : EditFacets) : List String :=
  let container := f.container.staticType
  if container.base != .any && !container.isContainer then
    [f.container.text ++ " is of type " ++ container.text ++ " and cannot be used as a container"]
  else itemWarning kind f container ++ indexWarning kind f container

/-- A statement that changes a container. -/
def edit (kind : EditKind) (f : EditFacets) : Build Statement := do
  match checkFacets kind f with
  | .error e => throw e
  | .ok () =>
    let type := f.container.staticType
    if kind != .put && type.isFixedLength then
      throw (.fixedLengthContainer (f.container.text ++ " (" ++ type.text ++ ")"))
    let warnings := typeWarnings kind f
    warnings.forM (diagnose kind.keyword)
    return .edit kind f warnings

/-! ## Loops -/

/-- How many kinds of iteration are given. -/
def kindCount (f : LoopFacets) : Nat :=
  ([f.times.isSome, f.each.isSome, f.condition.isSome, f.start.isSome || f.stop.isSome].filter
    id).length

/-- The variable that a kind of iteration needs. -/
def loopVar (f : LoopFacets) (kind : String) : Build String :=
  match f.var with
  | some v => pure v
  | none => incomplete "loop" ("a loop variable is required with '" ++ kind ++ "'")

/-- A loop: the first given of `times`, `over`, `while` and `from`/`to` counts. -/
def loop (f : LoopFacets) (body : Sequence) : Build Statement := do
  match f.times, f.each, f.condition with
  | some count, _, _ => return .loop none (.times (.int count.folded)) body
  | none, some source, _ =>
    let var ← loopVar f "over"
    return .loop (some var) (.each source) body
  | none, none, some condition => return .loop none (.loopWhile condition) body
  | none, none, none =>
    match f.start, f.stop with
    | some start, some stop =>
      let var ← loopVar f "from"
      let kind := LoopKind.ofRange ⟨start.folded, stop.folded, f.step.map Expr.folded⟩
      return .loop (some var) kind body
    | some _, none => incomplete "loop" "'from' requires 'to'"
    | none, some _ => incomplete "loop" "'to' requires 'from'"
    | none, none =>
      incomplete "loop" "one of 'times', 'over', 'while' or 'from'/'to' is required"

/-- The remark on a loop that gives several kinds of iteration. -/
def checkKinds (f : LoopFacets) : Build Unit := do
  if 1 < kindCount f then
    diagnose "loop" ("several iteration kinds given; only the first of times, over, while, " ++
      "from/to is used")

/-! ## Statements -/

mutual

/-- Builds a statement. -/
def statement (c : BuildContext) : Draft → Build Statement
  | .declare name value => return .declare name (value.map Expr.folded)
  | .assign target name value => return .assign target name value.folded
  | .branch condition yes no => do
    let yes ← sequence c yes
    let no ← optionalSequence c no
    return .branch condition yes no
  | .block body => return .block (← sequence c body)
  | .loop f body => do
    checkKinds f
    let body ← sequence c body
    loop f body
  | .ask target parallel body => return .ask target parallel (← sequence c body)
  | .create f body => do
    let body ← sequence c body
    return .create { f with number := f.number.map Expr.folded } body
  | .capture target species returns body =>
    return .capture target species returns (← sequence c body)
  | .release target species host returns body =>
    return .release target species host returns (← sequence c body)
  | .migrate source target returns body =>
    return .migrate source target returns (← sequence c body)
  | .call f => call c f
  | .invoke f => invoke c f
  | .edit kind f => edit kind f
  | .attempt body rescue => do
    let body ← sequence c body
    let rescue ← optionalSequence c rescue
    return .attempt body rescue
  | .leave => return .leave
  | .skip => return .skip
  | .yield value => return .yield value
  | .die => return .die
  | .write message => return .write message
  | .warn message => return .warn message
  | .raise message => return .raise message

/-- Builds statements in order. -/
def sequence (c : BuildContext) : List Draft → Build Sequence
  | [] => return []
  | d :: rest => do
    let s ← statement c d
    let ss ← sequence c rest
    return s :: ss

/-- Builds a sequence that may be absent. -/
def optionalSequence (c : BuildContext) : Option (List Draft) → Build (Option Sequence)
  | none => return none
  | some body => return some (← sequence c body)

end
end Build
end Habitat
