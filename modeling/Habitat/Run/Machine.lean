import Habitat.Run.Scope
import Habitat.Run.Delegate
import Habitat.World.Population

/-!
# The machine

What all scopes share: the world and the containers, the configuration, the sources of agents, the
request to stop, and everything that was reported.
-/
namespace Habitat

/-- The configuration of a machine. -/
structure Config where
  /-- More targets than this run in parallel when a dispatch asks for it. -/
  parallelThreshold : Nat
  workerThreads : Nat
  trace : Bool
  /-- Whether warnings count as errors. -/
  failOnWarnings : Bool

def Config.standard : Config := ⟨20, 4, false, false⟩

inductive Severity where
  | warning | error
  deriving DecidableEq

/-- A problem that did not stop the run. -/
structure Report where
  severity : Severity
  message : String
  agent : Option String

/-- Something that can be seen from outside while statements run. -/
inductive Event where
  | report (r : Report)
  | write (agent : Option String) (message : String)
  /-- A statement is about to run. -/
  | execute (scope keyword : String)
  /-- A frame is about to be pushed onto so many others. -/
  | push (scope owner : String) (depth : Nat)

/-- Whether the event is a report of a severity. -/
def Event.isReport (severity : Severity) : Event → Bool
  | .report r => r.severity == severity
  | _ => false

/-- What the program around a model keeps from the machine: agents that cannot be moved, and
whether stepping a species forgets the dead. -/
structure Policy where
  stuck : List String
  sweeps : Bool

def Policy.free : Policy := ⟨[], true⟩

/-- What all scopes share. -/
structure Machine where
  config : Config
  world : World
  store : Store
  delegates : List Delegate
  cancelled : Bool
  policy : Policy
  /-- The newest first. -/
  events : List Event
  /-- What is held outside the running scope, one group for each that holds; the newest first. -/
  held : List (List Value)

namespace Machine

def start (config : Config) (world : World) (store : Store) : Machine :=
  ⟨config, world, store, [], false, .free, [], []⟩

def emit (m : Machine) (e : Event) : Machine := { m with events := e :: m.events }

/-- The delegates in the order in which they are asked. -/
def delegateList (m : Machine) : List Delegate := m.delegates ++ [.records]

/-- The reports, oldest first. -/
def reports (m : Machine) : List Report :=
  m.events.reverse.filterMap fun e =>
    match e with
    | .report r => some r
    | _ => none

end Machine

/-- The number of targets from which on a dispatch runs in parallel, as a hint asks; zero is
never. -/
def parallelThreshold (hint : Value) (config : Config) : Nat :=
  match hint with
  | .bool true => config.parallelThreshold
  | .int n => n.toInt.natAbs
  | .float x => x.abs.toUInt64.toNat
  | _ => 0

/-- Whether so many targets run in parallel. -/
def runsInParallel (threshold targets : Nat) : Bool := 0 < threshold && threshold < targets

end Habitat
