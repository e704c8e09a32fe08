import Habitat.Run.Machine
import Habitat.Text.Quoted

/-!
# Inspection

Scopes, worlds, machines and actions as one line of text, for people who look for a fault.
-/
namespace Habitat

/-- A record with a name. -/
def inspectRecord (name : String) (fields : List (String × String)) : String :=
  name ++ " \x7b " ++ ", ".intercalate (fields.map fun (k, v) => k ++ ": " ++ v) ++ " \x7d"

def inspectBool (b : Bool) : String := if b then "true" else "false"

def inspectOption (s : Option String) : String :=
  match s with
  | some t => "Some(" ++ t ++ ")"
  | none => "None"

def Flow.inspect : Flow → String
  | .normal => "Normal"
  | .leave => "Break"
  | .skip => "Continue"
  | .yield => "Return"
  | .die => "Die"
  | .dispose => "Dispose"

def Scope.inspect (s : Scope) : String :=
  inspectRecord "Scope" [("name", Text.quote s.name), ("depth", toString s.depth),
    ("agent", inspectOption (s.agent.map fun a => Text.quote a.name)), ("flow", s.flow.inspect),
    ("try_depth", toString s.tryDepth)]

def World.inspect (w : World) : String :=
  inspectRecord "World" [("root", Text.quote w.root.name),
    ("species", Text.quoteList w.speciesNames), ("populations", toString w.slots.length)]

def Config.inspect (c : Config) : String :=
  inspectRecord "RuntimeConfig" [("parallel_threshold", toString c.parallelThreshold),
    ("worker_threads", toString c.workerThreads), ("trace", inspectBool c.trace),
    ("fail_on_warnings", inspectBool c.failOnWarnings)]

def Machine.inspect (m : Machine) : String :=
  inspectRecord "Engine" [("config", m.config.inspect),
    ("pool", inspectRecord "WorkerPool" [("threads", toString (max 1 m.config.workerThreads))]),
    ("delegates", inspectRecord "DelegateRegistry"
      [("delegates", Text.quoteList (m.delegateList.map Delegate.name))]),
    ("cancelled", inspectBool m.cancelled)]

def ActionBody.inspect : ActionBody → String
  | .statements body => Text.quote (toString body.length ++ " statements")
  | .native _ => Text.quote "native"

def Action.inspect (a : Action) : String :=
  inspectRecord "Action" [("name", Text.quote a.name),
    ("formals", Text.quoteList (a.formals.map Formal.name)), ("body", a.body.inspect)]

/-- An action that may not have been found. -/
def Action.inspectOption (a : Option Action) : String := Habitat.inspectOption (a.map Action.inspect)

end Habitat
