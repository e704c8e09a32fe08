import Habitat.World.Record
import Habitat.World.Species
import Habitat.Store.Basic
import Habitat.Error

/-!
# The world

Agents by number, species by name, and the populations: for a host and a species, the agents of
that species that the host holds.

An agent knows its host without keeping it. A host that has died is known only as long as
something else holds it; the lookups below therefore take a test `held` for that. What a change of
the world has found to be held by nothing stays `gone`. Walks along parents and hosts look at no
more species and agents than there are, so they end.
-/
namespace Habitat

/-- An agent. Its name never changes; its species and host do. -/
structure Agent where
  name : String
  species : String
  host : Option AgentRef
  attributes : Record
  dead : Bool
  /-- Whether it is known that nothing holds the agent any more. -/
  gone : Bool

instance : Inhabited Agent := ⟨⟨"", "", none, .empty, true, true⟩⟩

/-- The agents of one species that one host holds. The capacity is how many fit before the dead
among them are forgotten or room is made. -/
structure Slot where
  host : Nat
  species : String
  members : Array AgentRef
  capacity : Nat

/-- The members that are not dead. -/
def Slot.live (s : Slot) (dead : AgentRef → Bool) : List AgentRef :=
  (s.members.filter fun a => !dead a).toList

/-- The agents, the species and the populations. -/
structure World where
  agents : Heap Agent
  root : AgentRef
  species : List Species
  slots : List Slot
  /-- How many agents of a species have been named. -/
  counters : List (String × Nat)

/-- A population that agents can be put into. -/
structure Population where
  host : AgentRef
  species : Species

namespace World

/-- A world with a root agent only. The root has the attributes that its species declares
itself. -/
def start (root : Species) : World :=
  { agents := Heap.empty.push ⟨root.name, root.name, none, .ofList root.attributes, false, false⟩
    root := ⟨0, root.name⟩
    species := [root]
    slots := []
    counters := [] }

def agent (w : World) (a : AgentRef) : Agent := w.agents.get a.id

def isDead (w : World) (a : AgentRef) : Bool := (w.agent a).dead

def speciesOf (w : World) (a : AgentRef) : String := (w.agent a).species

def attribute? (w : World) (a : AgentRef) (name : String) : Option Value :=
  (w.agent a).attributes.get? name

/-- Changes an agent. -/
def update (w : World) (a : AgentRef) (f : Agent → Agent) : World :=
  { w with agents := w.agents.modify a.id f }

def kill (w : World) (a : AgentRef) : World := w.update a fun x => { x with dead := true }

def setAttribute (w : World) (a : AgentRef) (name : String) (v : Value) : World :=
  w.update a fun x => { x with attributes := x.attributes.insert name v }

/-! ## Species -/

def find? (w : World) (name : String) : Option Species := w.species.find? fun s => s.name == name

/-- Adds a species in place of one of the same name. -/
def putSpecies (s : Species) : List Species → List Species
  | [] => [s]
  | t :: rest => if t.name = s.name then s :: rest else t :: putSpecies s rest

def register (w : World) (s : Species) : World := { w with species := putSpecies s w.species }

/-- The names of the species, in ascending order. -/
def speciesNames (w : World) : List String :=
  (w.species.map (·.name)).mergeSort fun a b => decide (a ≤ b)

/-- A name, the name of its parent, and so on, at most `n` names. -/
def ancestryAt (w : World) : Nat → String → List String
  | 0, _ => []
  | n + 1, name =>
    name :: (match (w.find? name).bind (·.parent) with
      | some parent => ancestryAt w n parent
      | none => [])

/-- A name and the names of its ancestors, nearest first. -/
def ancestry (w : World) (name : String) : List String := w.ancestryAt (w.species.length + 1) name

/-- A species and its ancestors, nearest first. -/
def lineage (w : World) (name : String) : List Species := (w.ancestry name).filterMap w.find?

def isKindOf (w : World) (species ancestor : String) : Bool :=
  (w.ancestry species).contains ancestor

/-- A species that agents of `host` hold populations of. -/
def microSpecies? (w : World) (host micro : String) : Option Species :=
  if (w.lineage host).any fun s => s.micro.contains micro then w.find? micro else none

/-- An action of a species or of its nearest ancestor that has it. -/
def findAction? (w : World) (species action : String) : Option Action :=
  (w.lineage species).findSome? fun s => s.action? action

/-! ## Hosts -/

/-- The host that an agent knows, whether something holds it or not. -/
def knownHost? (w : World) (a : AgentRef) : Option AgentRef :=
  match (w.agent a).host with
  | some h => if (w.agent h).gone then none else some h
  | none => none

/-- The host of an agent, if it is alive or still held. -/
def host? (held : AgentRef → Bool) (w : World) (a : AgentRef) : Option AgentRef :=
  match w.knownHost? a with
  | some h => if w.isDead h && !held h then none else some h
  | none => none

/-- An agent, its host, and so on, at most `n` agents. A walk along hosts that form no tree does not
end; it is cut here. -/
def hostChainAt (held : AgentRef → Bool) (w : World) : Nat → AgentRef → List AgentRef
  | 0, _ => []
  | n + 1, a =>
    a :: (match w.host? held a with
      | some h => hostChainAt held w n h
      | none => [])

/-- An agent and its hosts, innermost first. Where hosts form a tree there are never more of them
than agents, so the walk is complete (`Tree.hostChainAt_eq`). -/
def hostChain (held : AgentRef → Bool) (w : World) (a : AgentRef) : List AgentRef :=
  w.hostChainAt held (w.agents.size + 1) a

/-- Whether `other` is the agent or one of its hosts. -/
def isInHostChain (held : AgentRef → Bool) (w : World) (a other : AgentRef) : Bool :=
  (w.hostChain held a).any fun x => x.id == other.id

/-- The host that an agent knows, the host of that one, and so on, at most `n` of them. -/
def trailAt (w : World) : Nat → AgentRef → List AgentRef
  | 0, _ => []
  | n + 1, a =>
    match w.knownHost? a with
    | some h => h :: trailAt w n h
    | none => []

/-- The nearest host above an agent that has died and that nothing holds is gone from now on. -/
def forget (held : AgentRef → Bool) (w : World) (a : AgentRef) : World :=
  match (w.trailAt w.agents.size a).find? fun h => w.isDead h && !held h with
  | some h => w.update h fun x => { x with gone := true }
  | none => w

/-! ## Populations -/

/-- The population of a species that an agent of the world holds. -/
def population? (w : World) (host : AgentRef) (species : String) : Option Population :=
  if host.id < w.agents.size then
    (w.microSpecies? (w.speciesOf host) species).map fun s => ⟨host, s⟩
  else none

/-- The population of a species that the nearest host holds, starting from an agent itself. -/
def populationFor? (held : AgentRef → Bool) (w : World) (a : AgentRef) (species : String) :
    Option Population :=
  (w.hostChain held a).findSome? fun h => w.population? h species

/-- The live agents of a population. -/
def members (w : World) (host : AgentRef) (species : String) : List AgentRef :=
  (w.slots.filter fun s => s.host == host.id && s.species == species).flatMap (·.live w.isDead)

/-- The live agents of a species. -/
def agentsOf (w : World) (species : String) : List AgentRef :=
  (w.slots.filter fun s => s.species == species).flatMap (·.live w.isDead)

/-- The live agents that a species name means to an agent: those of the nearest population, or
else all of them. -/
def reachable (held : AgentRef → Bool) (w : World) (a : Option AgentRef) (species : String) :
    List AgentRef :=
  match a.bind (w.populationFor? held · species) with
  | some p => w.members p.host species
  | none => w.agentsOf species

end World
end Habitat
