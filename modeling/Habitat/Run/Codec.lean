import Habitat.Run.Machine
import Habitat.Statement.Build
import Habitat.Json.Schema

/-!
# Configurations and reports as documents
-/
namespace Habitat

open Json (record? required optional defaulted choice?)

def Config.ofJson? (j : Json) : Option Config := do
  match ← record? ["parallel_threshold", "worker_threads", "trace", "fail_on_warnings"] j with
  | [threshold, threads, trace, fail] =>
    let c := Config.standard
    return ⟨← defaulted c.parallelThreshold Json.nat? threshold,
      ← defaulted c.workerThreads Json.nat? threads, ← defaulted c.trace Json.bool? trace,
      ← defaulted c.failOnWarnings Json.bool? fail⟩
  | _ => none

def Config.toJson (c : Config) : Json :=
  .obj [("parallel_threshold", .int c.parallelThreshold), ("worker_threads", .int c.workerThreads),
    ("trace", .bool c.trace), ("fail_on_warnings", .bool c.failOnWarnings)]

def Flow.table : List (String × Flow) := Flow.all.map fun f => (f.name, f)

def Flow.ofJson? (j : Json) : Option Flow := choice? .outer table j

def Severity.name : Severity → String
  | .warning => "warning"
  | .error => "error"

def Severity.table : List (String × Severity) := [.warning, .error].map fun s => (s.name, s)

/-- As an object a report may leave its agent out; as an array it may not. -/
def Report.ofJson? (j : Json) : Option Report := do
  match j with
  | .arr items => if items.length = 3 then pure () else none
  | _ => pure ()
  match ← record? ["severity", "message", "agent"] j with
  | [severity, message, agent] =>
    return ⟨← required (choice? .outer Severity.table) severity, ← required Json.str? message,
      ← optional Json.str? agent⟩
  | _ => none

def Report.toJson (r : Report) : Json :=
  .obj [("severity", .str r.severity.name), ("message", .str r.message),
    ("agent", Json.ofOption Json.str r.agent)]

def Diagnostic.ofJson? (j : Json) : Option Diagnostic := do
  match ← record? ["statement", "message"] j with
  | [statement, message] => return ⟨← required Json.str? statement, ← required Json.str? message⟩
  | _ => none

def Diagnostic.toJson (d : Diagnostic) : Json :=
  .obj [("statement", .str d.statement), ("message", .str d.message)]

def ScopeStats.ofJson? (j : Json) : Option ScopeStats := do
  match ← record? ["pushes", "pops", "max_depth"] j with
  | [pushes, pops, maxDepth] =>
    return ⟨← required Json.nat? pushes, ← required Json.nat? pops, ← required Json.nat? maxDepth⟩
  | _ => none

def ScopeStats.toJson (s : ScopeStats) : Json :=
  .obj [("pushes", .int s.pushes), ("pops", .int s.pops), ("max_depth", .int s.maxDepth)]

end Habitat
