import Habitat.Description.Decode

/-!
# Writing drafts

All facets are written; the absent ones are `null`.
-/
namespace Habitat

open Json (ofOption)

def Formal.toJson (f : Formal) : Json :=
  .obj [("name", .str f.name), ("ty", f.type.toJson), ("default", ofOption Expr.toJson f.fallback)]

def argumentsToJson (args : Arguments) : Json :=
  .arr (args.map fun (name, e) => .arr [.str name, e.toJson])

namespace Draft

/-- A statement with its keyword. -/
def kind (keyword : String) (facets : List (String × Json)) : Json :=
  .obj (("kind", .str keyword) :: facets)

def exprOption (e : Option Expr) : Json := ofOption Expr.toJson e

def textOption (s : Option String) : Json := ofOption Json.str s

def callFacets (f : CallFacets) : List (String × Json) :=
  [("action", .str f.action), ("args", argumentsToJson f.args), ("target", exprOption f.target),
    ("returns", textOption f.returns)]

def editFacets (f : EditFacets) : List (String × Json) :=
  [("container", f.container.toJson), ("item", exprOption f.item), ("index", exprOption f.index),
    ("all", .bool f.all), ("role", .str f.role.tag), ("weight", exprOption f.weight)]

/-- The facets of a loop with what is written for its body. -/
def loopFacets (f : LoopFacets) (body : List Json) : List (String × Json) :=
  [("var", textOption f.var), ("times", exprOption f.times), ("over", exprOption f.each),
    ("while", exprOption f.condition), ("from", exprOption f.start), ("to", exprOption f.stop),
    ("step", exprOption f.step), ("body", .arr body)]

/-- The facets of a creation with what is written for its body. -/
def createFacets (f : CreateFacets) (body : List Json) : List (String × Json) :=
  [("species", exprOption f.species), ("number", exprOption f.number),
    ("from", exprOption f.source), ("with", argumentsToJson f.init),
    ("parallel", exprOption f.parallel), ("returns", textOption f.returns), ("body", .arr body)]

mutual

/-- Writes a statement. -/
def toJson : Draft → Json
  | .declare name value => kind "let" [("name", .str name), ("value", exprOption value)]
  | .assign target name value =>
    kind "set" [("target", exprOption target), ("name", .str name), ("value", value.toJson)]
  | .branch condition yes no =>
    kind "if" [("condition", condition.toJson), ("then", .arr (toJsons yes)),
      ("otherwise", toJsonOption no)]
  | .block body => kind "block" [("body", .arr (toJsons body))]
  | .loop f body => kind "loop" (loopFacets f (toJsons body))
  | .ask target parallel body =>
    kind "ask" [("target", target.toJson), ("parallel", exprOption parallel),
      ("body", .arr (toJsons body))]
  | .create f body => kind "create" (createFacets f (toJsons body))
  | .capture target species returns body =>
    kind "capture" [("target", target.toJson), ("as", textOption species),
      ("returns", textOption returns), ("body", .arr (toJsons body))]
  | .release target species host returns body =>
    kind "release" [("target", target.toJson), ("as", textOption species),
      ("in", exprOption host), ("returns", textOption returns), ("body", .arr (toJsons body))]
  | .migrate source target returns body =>
    kind "migrate" [("source", .str source), ("target", .str target),
      ("returns", textOption returns), ("body", .arr (toJsons body))]
  | .call f => kind "do" (callFacets f)
  | .invoke f => kind "invoke" (callFacets f)
  | .edit k f => kind k.keyword (editFacets f)
  | .attempt body rescue =>
    kind "try" [("body", .arr (toJsons body)), ("catch", toJsonOption rescue)]
  | .leave => kind "break" []
  | .skip => kind "continue" []
  | .yield value => kind "return" [("value", exprOption value)]
  | .die => kind "die" []
  | .write message => kind "write" [("message", message.toJson)]
  | .warn message => kind "warn" [("message", message.toJson)]
  | .raise message => kind "error" [("message", message.toJson)]

def toJsons : List Draft → List Json
  | [] => []
  | d :: rest => d.toJson :: toJsons rest

def toJsonOption : Option (List Draft) → Json
  | none => .null
  | some body => .arr (toJsons body)

end
end Draft

def ActionDraft.toJson (a : ActionDraft) : Json :=
  .obj [("name", .str a.name), ("args", .arr (a.formals.map Formal.toJson)),
    ("body", .arr (Draft.toJsons a.body))]

def SpeciesDraft.toJson (s : SpeciesDraft) : Json :=
  .obj [("name", .str s.name), ("parent", Draft.textOption s.parent),
    ("micro_species", .arr (s.micro.map .str)), ("abstract", .bool s.isAbstract),
    ("attributes", .obj s.attributes), ("actions", .arr (s.actions.map ActionDraft.toJson)),
    ("reflex", .arr (Draft.toJsons s.reflex))]

def ModelDraft.toJson (m : ModelDraft) : Json :=
  .obj [("name", .str m.name), ("world", m.root.toJson),
    ("species", .arr (m.species.map SpeciesDraft.toJson)), ("init", .arr (Draft.toJsons m.init))]

end Habitat
