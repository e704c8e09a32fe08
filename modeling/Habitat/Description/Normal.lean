import Habitat.Description.Encode
import Habitat.Run.Codec

/-!
# Normal forms of documents

A document of a known kind, read and written again. The normal form has every field, in the order
of declaration, and is its own normal form.
-/
namespace Habitat.Json

/-- The normal form of a document of the named kind. -/
def normalForm? (kind : String) (j : Json) : Option Json :=
  match kind with
  | "expr" => (Expr.ofJson? .outer j).map Expr.toJson
  | "statement" => (Draft.ofJson? j).map Draft.toJson
  | "body" => (Draft.sequenceOfJson? j).map fun ds => .arr (Draft.toJsons ds)
  | "model" => (ModelDraft.ofJson? j).map ModelDraft.toJson
  | "config" => (Config.ofJson? j).map Config.toJson
  | "formal" => (Formal.ofJson? .outer j).map Formal.toJson
  | "arguments" => (argumentsOfJson? .outer j).map argumentsToJson
  | "type" => (StaticType.ofJson? .outer j).map StaticType.toJson
  | "flow" => (Flow.ofJson? j).map fun f => .str f.name
  | "report" => (Report.ofJson? j).map Report.toJson
  | "diagnostic" => (Diagnostic.ofJson? j).map Diagnostic.toJson
  | "stats" => (ScopeStats.ofJson? j).map ScopeStats.toJson
  | _ => none

end Habitat.Json
