import Habitat.Run.Reach
import Habitat.Expr.Eval

/-!
# Execution

Statements run in a scope on a machine. A failure keeps the state that was reached: errors do not
undo what happened before them.

Whatever is pushed is popped by the combinator that pushed it, on every way out: `withFrame`,
`withAgent`, `withTry` and `withHeld` are the only places that touch the stacks.
-/
namespace Habitat

/-- Why a run stopped: an error of the program, or no more fuel for its recursion. -/
inductive Fault where
  | error (e : ExecError)
  | outOfFuel

/-- A scope on a machine. -/
structure State where
  scope : Scope
  machine : Machine

/-- A step of execution. -/
abbrev Exec := EStateM Fault State

namespace Exec

/-! ## Access -/

def scope : Exec Scope := return (← get).scope

def machine : Exec Machine := return (← get).machine

def modifyScope (f : Scope → Scope) : Exec Unit := modify fun s => { s with scope := f s.scope }

def modifyMachine (f : Machine → Machine) : Exec Unit :=
  modify fun s => { s with machine := f s.machine }

def modifyStore (f : Store → Store) : Exec Unit :=
  modifyMachine fun m => { m with store := f m.store }

/-- Changes the containers, with a result. -/
def onStore {α : Type} (f : Store → α × Store) : Exec α := fun ⟨scope, machine⟩ =>
  let (a, store) := f machine.store
  .ok a ⟨scope, { machine with store := store }⟩

/-- Fails with an error of the program. -/
def fail {α : Type} (e : ExecError) : Exec α := throw (.error e)

/-- The result, or the error as a failure. -/
def lift {α : Type} : Except ExecError α → Exec α
  | .ok a => pure a
  | .error e => fail e

/-- Runs a step and gives its error back as a value. Running out of fuel is not caught. -/
def attempt {α : Type} (x : Exec α) : Exec (Except ExecError α) := fun s =>
  match x s with
  | .ok a s => .ok (.ok a) s
  | .error (.error e) s => .ok (.error e) s
  | .error .outOfFuel s => .error .outOfFuel s

/-! ## Brackets -/

/-- Runs a step between two changes of the state; the second happens on every way out. -/
def bracket {α : Type} (enter leave : State → State) (x : Exec α) : Exec α := fun s =>
  match x (enter s) with
  | .ok a s => .ok a (leave s)
  | .error e s => .error e (leave s)

/-- Pushes a frame; a trace tells it. -/
def pushFrame (owner : String) (caller : Option AgentRef) (s : State) : State :=
  let machine :=
    if s.machine.config.trace then s.machine.emit (.push s.scope.name owner s.scope.depth)
    else s.machine
  ⟨s.scope.push owner caller, machine⟩

/-- Runs a step in a frame of its own. -/
def withFrame {α : Type} (owner : String) (caller : Option AgentRef) (x : Exec α) : Exec α :=
  bracket (pushFrame owner caller) (fun s => { s with scope := s.scope.pop }) x

/-- Runs a step on behalf of an agent. For the agent that is executing already nothing is pushed,
so its death reaches the place where it was pushed. -/
def withAgent {α : Type} (a : AgentRef) (x : Exec α) : Exec α := fun s =>
  if s.scope.isNewAgent a then
    bracket (fun s => { s with scope := s.scope.pushAgent a })
      (fun s => { s with scope := s.scope.popAgent }) x s
  else x s

/-- Runs a step whose errors unwind to here. -/
def withTry {α : Type} (x : Exec α) : Exec α :=
  bracket (fun s => { s with scope := { s.scope with tryDepth := s.scope.tryDepth + 1 } })
    (fun s => { s with scope := { s.scope with tryDepth := s.scope.tryDepth - 1 } }) x

/-- Runs a step while values are held outside the scope. -/
def withHeld {α : Type} (vs : List Value) (x : Exec α) : Exec α :=
  bracket (fun s => { s with machine := { s.machine with held := vs :: s.machine.held } })
    (fun s => { s with machine := { s.machine with held := s.machine.held.tail } }) x

/-- Runs a step in a private copy of the scope, which is dropped afterwards. -/
def forked {α : Type} (name : String) (x : Exec α) : Exec (Except ExecError α) := fun s =>
  match attempt (withHeld s.scope.holdings x) ⟨s.scope.fork name, s.machine⟩ with
  | .ok r t => .ok r ⟨s.scope, t.machine⟩
  | .error e t => .error e ⟨s.scope, t.machine⟩

/-! ## Signals -/

def setFlow (f : Flow) : Exec Unit := modifyScope fun s => { s with flow := f }

/-- The pending signal; the owned one is cleared. -/
def takeFlow (owned : Flow) : Exec Flow := do
  let f := (← scope).flow
  modifyScope fun s => { s with flow := s.flow.clear owned }
  return f

/-- Whether nothing more must run: a signal is pending, or the run was cancelled. -/
def interrupted : Exec Bool := do
  let s ← get
  return s.scope.flow.isInterrupting || s.machine.cancelled

/-! ## Variables and agents -/

def declare (name : String) (v : Value) : Exec Unit := modifyScope (·.declare name v)

def recordValue (v : Value) : Exec Unit := modifyScope fun s => { s with lastValue := v }

/-- Declares a variable if a name is given. -/
def store (name : Option String) (v : Value) : Exec Unit :=
  match name with
  | some n => declare n v
  | none => pure ()

/-- The executing agent. -/
def currentAgent (statement : String) : Exec AgentRef := do
  match (← scope).agent with
  | some a => return a
  | none => fail (.noAgent statement)

/-- Whether an agent is held by the machine or by the running scope. -/
def holds (s : State) (a : AgentRef) : Bool := s.machine.holds s.scope.holdings a

/-! ## Expressions -/

/-- What expressions see. -/
def env (scope : Scope) (m : Machine) : Env :=
  { frameVar := scope.getVar
    agent := scope.agent
    myself := scope.myself
    attributeOf := m.world.attribute?
    dead := m.world.isDead
    speciesOf := m.world.speciesOf
    population := fun store =>
      m.world.reachable ({ m with store := store }.holds scope.holdings) scope.agent }

/-- Runs a computation that may make containers. It is handed the containers, and sees the machine
without them. -/
def compute {α : Type} (f : Env → Eval α) : Exec α := fun ⟨scope, machine⟩ =>
  let store := machine.store
  let machine := { machine with store := .empty }
  match f (env scope machine) store with
  | .ok a store => .ok a ⟨scope, { machine with store := store }⟩
  | .error e store => .error (.error e) ⟨scope, { machine with store := store }⟩

/-- The value of an expression. Containers that were made on the way are dropped where the value
does not need them. -/
def eval (e : Expr) : Exec Value := compute fun env => (e.eval env).releasing

/-- The value of an expression that may be absent. -/
def evalOption : Option Expr → Exec (Option Value)
  | some e => return some (← eval e)
  | none => return none

/-- The value of an expression, or `nil` without one. -/
def evalOrNil (e : Option Expr) : Exec Value := return (← evalOption e).getD .nil

/-- The text of a value. -/
def text (v : Value) : Exec String := return (← machine).store.text v

/-- Makes a new container. -/
def allocate (make : Store → Value × Store) : Exec Value := onStore make

/-- A new list of agents. -/
def agentList (as : List AgentRef) : Exec Value := allocate (·.newList .agent (as.map .agent))

/-! ## Reports -/

/-- Reports a problem on behalf of the executing agent. -/
def report (severity : Severity) (message : String) : Exec Unit := do
  let agent := (← scope).agent.map (·.name)
  modifyMachine (·.emit (.report ⟨severity, message, agent⟩))

/-- Reports a warning, which the configuration may make an error. -/
def warn (message : String) : Exec Unit := do
  report (if (← machine).config.failOnWarnings then .error else .warning) message

end Exec
end Habitat
