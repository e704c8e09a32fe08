import Habitat.Container.Access
import Habitat.World.Record

/-!
# Sources of agents

Agents can be created from a source. The first delegate that accepts the source turns it into
records, one for each agent. Delegates registered later come first, and the one that reads records
comes last.
-/
namespace Habitat

/-- Something that turns a source into records. -/
inductive Delegate where
  /-- Reads a map, or a list of maps. -/
  | records
  /-- Makes records tagged with a text. -/
  | tagged (name : String)
  /-- Makes as many empty records as a number says. -/
  | counter (name : String)
  /-- Accepts booleans, and fails on them. -/
  | refusing (name : String)

namespace Delegate

def name : Delegate → String
  | .records => "records"
  | .tagged name | .counter name | .refusing name => name

/-- The delegate that can be registered under a name; names without a meaning refuse. -/
def named : String → Delegate
  | "repeat" => .tagged "repeat"
  | "counter" => .counter "counter"
  | name => .refusing name

def isMap : Value → Bool
  | .map _ => true
  | _ => false

/-- Whether a delegate understands a source. -/
def accepts (s : Store) : Delegate → Value → Bool
  | .records, .map _ => true
  | .records, .list r =>
    let items := (s.lists.get r).items
    !items.isEmpty && items.all isMap
  | .tagged _, .str _ => true
  | .counter _, .int _ | .counter _, .map _ => true
  | .refusing _, .bool _ => true
  | _, _ => false

/-- The record of a map; keys that are no texts are rendered. -/
def recordOf? (s : Store) : Value → Option Record
  | .map r =>
    some (.ofList ((s.maps.get r).entries.map fun (k, v) => (k.asText.getD (s.text k), v)))
  | _ => none

/-- The records of maps. -/
def recordsOf (s : Store) : List Value → Except String (List Record)
  | [] => .ok []
  | v :: rest =>
    match recordOf? s v with
    | none => .error (s.text v ++ " is not a record")
    | some r => (recordsOf s rest).map (r :: ·)

/-- The records of a source, at most `limit`, or why there are none. -/
def create (s : Store) (limit : Option Nat) (source : Value) :
    Delegate → Except String (List Record)
  | .records =>
    let maps := match source with
      | .map _ => [source]
      | v => s.elements v
    recordsOf s (maps.take (limit.getD maps.length))
  | .tagged _ => .ok (List.replicate (limit.getD 1) (Record.empty.insert "tag" source))
  | .counter _ =>
    let n := (source.asInt.getD 1).toInt.toNat
    .ok (List.replicate (min (limit.getD n) n) .empty)
  | .refusing _ => .error ("delegate refused " ++ s.text source)

end Delegate
end Habitat
