import Habitat.Model

/-!
# Sessions

Whoever looks at a model from outside can hold on to agents, and can keep scopes open between one
request and the next. A session is a machine together with what is held that way. While it works
in one scope, the scopes it came from wait; they hold on to their agents too.
-/
namespace Habitat

/-- A machine, and the agents and scopes that are held from outside. -/
structure Session where
  model : Model
  machine : Machine
  /-- Agents that are held until the end. -/
  kept : List AgentRef
  /-- Scopes that are open and not in use. -/
  opened : List (String × Scope)
  /-- The scopes in use, the innermost first. -/
  active : List Scope

namespace Session

def start (model : Model) (config : Config) (policy : Policy) : Session :=
  ⟨model, { model.machine config with policy := policy }, [], [], []⟩

/-- The scope at work. -/
def current? (s : Session) : Option Scope := s.active.head?

/-- What is held outside the scope at work. -/
def outside (s : Session) : List Value :=
  s.kept.map .agent ++ (s.opened.map (·.2) ++ s.active.tail).flatMap Scope.holdings

/-- Everything that is held from outside. -/
def holdings (s : Session) : List Value :=
  s.kept.map .agent ++ (s.opened.map (·.2) ++ s.active).flatMap Scope.holdings

/-- Whether an agent is held. -/
def holds (s : Session) (a : AgentRef) : Bool := s.machine.holds s.holdings a

/-- The agent of a name: one that is kept, the root, or a live agent. -/
def find? (s : Session) (name : String) : Option AgentRef :=
  (s.kept ++ Model.liveAgents s.machine.world).find? fun a => a.name == name

def keep (s : Session) (a : AgentRef) : Session := { s with kept := s.kept ++ [a] }

/-! ## Scopes -/

/-- Drops an open scope. -/
def close (s : Session) (id : String) : Session :=
  { s with opened := s.opened.filter fun o => o.1 != id }

/-- Opens a scope for an agent, in place of one of the same name. -/
def openScope (s : Session) (id : String) (a : AgentRef) : Session :=
  let s := s.close id
  { s with opened := (id, .start a id) :: s.opened }

/-- Puts a scope to work. -/
def enter (s : Session) (scope : Scope) : Session := { s with active := scope :: s.active }

/-- Puts an open scope to work. -/
def resume? (s : Session) (id : String) : Option Session :=
  (s.opened.lookup id).map fun scope => (s.close id).enter scope

/-- Drops the scope at work, and returns to the one before. -/
def leave (s : Session) : Session := { s with active := s.active.tail }

/-- Lays the scope at work aside, in place of one of the same name, and returns to the one
before. -/
def suspend (s : Session) (id : String) : Session :=
  let t := s.leave.close id
  { t with opened := s.current?.toList.map (id, ·) ++ t.opened }

/-- Changes the scope at work. -/
def modifyScope (s : Session) (f : Scope → Scope) : Session :=
  match s.active with
  | scope :: rest => { s with active := f scope :: rest }
  | [] => s

/-! ## Execution -/

/-- Executes in the scope at work. -/
def exec {α : Type} (s : Session) (x : Exec α) : Option (Except Fault α × Session) :=
  match s.active with
  | [] => none
  | scope :: rest =>
    let put (t : State) : Session :=
      { s with active := t.scope :: rest, machine := { t.machine with held := [] } }
    match x ⟨scope, { s.machine with held := [s.outside] }⟩ with
    | .ok a t => some (.ok a, put t)
    | .error e t => some (.error e, put t)

/-- Runs the machine outside of all scopes. -/
def onMachine {α : Type} (s : Session) (f : Machine → α × Machine) : α × Session :=
  let (a, m) := f { s.machine with held := [s.holdings] }
  (a, { s with machine := { m with held := [] } })

/-- The events since the last time they were taken, oldest first. -/
def takeEvents (s : Session) : List Event × Session :=
  (s.machine.events.reverse, { s with machine := { s.machine with events := [] } })

end Session
end Habitat
