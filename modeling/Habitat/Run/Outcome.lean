import Habitat.Run.Statement

/-!
# Runs

A run executes a sequence for an agent in a scope of its own, and ends in an outcome. A machine
steps a species by running a sequence for each of its agents.
-/
namespace Habitat

/-- How a run ended. -/
inductive Outcome where
  | completed (v : Value)
  /-- A signal was left pending. -/
  | stopped (f : Flow) (v : Value)
  | failed (e : ExecError)
  /-- The fuel of the recursion was used up. -/
  | unfinished

/-- What an outcome holds on to. -/
def Outcome.holdings : Outcome → List Value
  | .completed v | .stopped _ v => [v]
  | _ => []

namespace Machine

/-- Enough fuel for every run that ends in a lifetime. -/
def fuel : Nat := 1000000000000000000

/-- Runs a sequence for an agent. The dead do nothing. -/
def runFor (m : Machine) (body : Sequence) (a : AgentRef) : Outcome × Machine :=
  if m.world.isDead a then (.stopped .die .nil, m) else
  match Exec.sequence fuel body ⟨.start a a.name, m⟩ with
  | .ok v s => (if s.scope.flow = .normal then .completed v else .stopped s.scope.flow v, s.machine)
  | .error (.error e) s => (.failed e, s.machine)
  | .error .outOfFuel s => (.unfinished, s.machine)

/-- Holds values during a change of the machine. -/
def holding {α : Type} (m : Machine) (vs : List Value) (f : Machine → α × Machine) : α × Machine :=
  let held := m.held
  let (a, m) := f { m with held := vs :: held }
  (a, { m with held := held })

/-- Runs a sequence for agents one after another, until the run is cancelled. -/
def runForEach (body : Sequence) : List AgentRef → Machine → List (AgentRef × Outcome) × Machine
  | [], m => ([], m)
  | a :: rest, m =>
    if m.cancelled then ([], m) else
    let (o, m) := m.runFor body a
    let (os, m) := m.holding (.agent a :: o.holdings) (runForEach body rest)
    ((a, o) :: os, m)

/-- Runs a sequence for every live agent of a species. The dead are forgotten first. -/
def stepSpecies (m : Machine) (species : String) (body : Sequence) :
    List (AgentRef × Outcome) × Machine :=
  let m := if m.policy.sweeps then { m with world := m.world.sweep } else m
  let as := m.world.agentsOf species
  m.holding (as.map .agent) (runForEach body as)

end Machine
end Habitat
