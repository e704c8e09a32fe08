import Habitat.Run.Machine

/-!
# What is still held

An agent or container is kept as long as something that is kept refers to it: the world, a scope,
or another agent or container. What refers to each other in a circle keeps itself. So the kept
objects are the largest set in which each one is referred to from outside or from the set.

`Machine.holds` computes that set: it starts from all objects and drops, round by round, those to
which nothing refers any more.
-/
namespace Habitat

/-- A set of agents and containers. -/
structure Marks where
  agents : Array Bool
  lists : Array Bool
  maps : Array Bool
  matrices : Array Bool
  graphs : Array Bool

namespace Marks

/-- No object, or all of them. -/
def uniform (m : Machine) (b : Bool) : Marks :=
  ⟨Array.replicate m.world.agents.size b, Array.replicate m.store.lists.size b,
    Array.replicate m.store.maps.size b, Array.replicate m.store.matrices.size b,
    Array.replicate m.store.graphs.size b⟩

/-- Adds what a value refers to. -/
def add (k : Marks) : Value → Marks
  | .pair a b => (k.add a).add b
  | .list r => { k with lists := k.lists.setIfInBounds r true }
  | .map r => { k with maps := k.maps.setIfInBounds r true }
  | .matrix r => { k with matrices := k.matrices.setIfInBounds r true }
  | .graph r => { k with graphs := k.graphs.setIfInBounds r true }
  | .agent a => { k with agents := k.agents.setIfInBounds a.id true }
  | _ => k

def addAll (k : Marks) (vs : List Value) : Marks := vs.foldl add k

def count (k : Marks) : Nat :=
  k.agents.count true + k.lists.count true + k.maps.count true + k.matrices.count true +
    k.graphs.count true

end Marks

/-- The cells of a heap that a set contains. -/
def Heap.marked {α : Type} (h : Heap α) (marks : Array Bool) : List α :=
  ((h.cells.zip marks).toList.filter (·.2)).map (·.1)

namespace Machine

/-- What is referred to from outside: by the world, by species, and by whatever is held. -/
def roots (m : Machine) : List Value :=
  .agent m.world.root :: m.held.flatten ++ m.world.slots.flatMap (fun s => s.members.toList.map .agent) ++
    m.world.species.flatMap fun s => s.attributes.map (·.2)

/-- What the objects of a set refer to. -/
def references (m : Machine) (k : Marks) : List Value :=
  (m.world.agents.marked k.agents).flatMap (fun a => a.attributes.fields.map (·.2)) ++
  (m.store.lists.marked k.lists).flatMap (·.items.toList) ++
  (m.store.maps.marked k.maps).flatMap (fun c => c.entries.flatMap fun (a, b) => [a, b]) ++
  (m.store.matrices.marked k.matrices).flatMap (·.cells.toList) ++
  (m.store.graphs.marked k.graphs).flatMap fun c =>
    c.vertices ++ c.edges.flatMap fun e => [e.source, e.target]

/-- One round: the objects referred to from outside or from the set. -/
def retain (m : Machine) (outside : Marks) (k : Marks) : Marks := outside.addAll (m.references k)

/-- Rounds until nothing is dropped any more. -/
def retained (m : Machine) (outside : Marks) : Nat → Marks → Marks
  | 0, k => k
  | n + 1, k =>
    let next := m.retain outside k
    if next.count = k.count then next else retained m outside n next

/-- Whether an agent is kept, if `also` is held as well. -/
def holds (m : Machine) (also : List Value) (a : AgentRef) : Bool :=
  let outside := ((Marks.uniform m false).addAll m.roots).addAll also
  let all := Marks.uniform m true
  (m.retained outside (all.count + 1) all).agents.getD a.id false

end Machine
end Habitat
