import Habitat.World.Basic

/-!
# Births, moves and forgetting

Every agent but the root is put into the slot of its host and species. The dead leave a slot when
the world is swept, or when the slot is full and another agent comes in.
-/
namespace Habitat.World

/-! ## Slots -/

/-- Room for one more: a full slot doubles, and has at least four places. -/
def grown (length capacity : Nat) : Nat :=
  if length < capacity then capacity else max 4 (max (2 * capacity) (length + 1))

/-- The slot without its dead. -/
def sweepSlot (dead : AgentRef → Bool) (s : Slot) : Slot :=
  { s with members := s.members.filter fun m => !dead m }

/-- Puts an agent into a slot; a full slot forgets its dead first. -/
def joinSlot (dead : AgentRef → Bool) (a : AgentRef) (s : Slot) : Slot :=
  let s := if s.members.size = s.capacity then sweepSlot dead s else s
  let capacity := grown s.members.size s.capacity
  { s with members := s.members.push a, capacity := capacity }

/-- Puts an agent into the slot of a host and a species, or into a new one. -/
def joinSlots (dead : AgentRef → Bool) (host : Nat) (species : String) (a : AgentRef) :
    List Slot → List Slot
  | [] => [⟨host, species, #[a], 1⟩]
  | s :: rest =>
    if s.host = host ∧ s.species = species then joinSlot dead a s :: rest
    else s :: joinSlots dead host species a rest

def insertMember (w : World) (host : Nat) (species : String) (a : AgentRef) : World :=
  let agents := w.agents
  { w with slots := joinSlots (fun m => (agents.get m.id).dead) host species a w.slots }

/-- Takes an agent out of the slots of a host and a species. -/
def leaveSlots (host : Nat) (species : String) (a : AgentRef) (slots : List Slot) : List Slot :=
  slots.map fun s =>
    if s.host = host ∧ s.species = species then
      { s with members := s.members.filter fun m => m.id != a.id }
    else s

/-- Forgets the dead agents, and then the slots without agents. -/
def sweep (w : World) : World :=
  { w with slots := (w.slots.map (sweepSlot w.isDead)).filter fun s => !s.members.isEmpty }

/-! ## Names -/

/-- Counts one more agent of a species. -/
def countUp (species : String) : List (String × Nat) → List (String × Nat)
  | [] => [(species, 1)]
  | (k, n) :: rest => if k = species then (k, n + 1) :: rest else (k, n) :: countUp species rest

/-- The name of the next agent of a species. -/
def nextName (w : World) (species : String) : String :=
  species ++ toString ((w.counters.lookup species).getD 0)

/-! ## Defaults -/

/-- Copies the containers of default values. -/
def copyDefaults (s : Store) : List (String × Value) → List (String × Value) × Store
  | [] => ([], s)
  | (name, v) :: rest =>
    let (v, s) := s.copy v
    let (fields, s) := copyDefaults s rest
    ((name, v) :: fields, s)

/-- The declared attributes of a species and its ancestors, farthest first. -/
def declared (w : World) (s : Species) : List (String × Value) :=
  (s :: ((s.parent.map w.lineage).getD [])).reverse.flatMap (·.attributes)

/-- The attributes of a new agent of a species; the nearest declaration of a name counts. -/
def defaults (w : World) (s : Store) (species : Species) : Record × Store :=
  let (fields, s) := copyDefaults s (w.declared species)
  (.ofList fields, s)

/-! ## Births -/

/-- A new agent of a population. -/
def birth (w : World) (p : Population) (attributes : Record) : AgentRef × World :=
  let name := w.nextName p.species.name
  let a : AgentRef := ⟨w.agents.size, name⟩
  let w := { w with
    agents := w.agents.push ⟨name, p.species.name, some p.host, attributes, false, false⟩
    counters := countUp p.species.name w.counters }
  (a, w.insertMember p.host.id p.species.name a)

/-- One new agent for each set of initial values. -/
def births (p : Population) (defaults : Record) :
    List Record → World → List AgentRef × World
  | [], w => ([], w)
  | init :: rest, w =>
    let (a, w) := w.birth p (defaults.extend init.fields)
    let (as, w) := births p defaults rest w
    (a :: as, w)

/-- Puts new agents into a population. All of them start from the same copy of the defaults. -/
def populate (w : World) (s : Store) (p : Population) (inits : List Record) :
    List AgentRef × World × Store :=
  let (defaults, s) := w.defaults s p.species
  let (as, w) := births p defaults inits w
  (as, w, s)

/-- Creates agents in a population, unless its species is abstract. -/
def create (w : World) (s : Store) (p : Population) (inits : List Record) :
    Except ExecError (List AgentRef × World × Store) :=
  if p.species.isAbstract then .error (.abstractSpecies p.species.name)
  else .ok (w.populate s p inits)

/-- Creates agents of a species under the root. -/
def spawn (w : World) (s : Store) (species : String) (count : Nat) :
    Except ExecError (List AgentRef × World × Store) :=
  match w.population? w.root species with
  | none => .error (.noPopulation species w.root.name)
  | some p => w.create s p (List.replicate count .empty)

/-! ## Moves -/

/-- Gives an agent the attributes that it lacks. -/
def addMissing (attributes : Record) (defaults : Record) : Record :=
  defaults.fields.foldl
    (fun r f => if r.contains f.1 then r else r.insert f.1 f.2) attributes

/-- Moves an agent into a population. It leaves the slot of its host, if that host is still known,
and keeps its attributes. -/
def move (held : AgentRef → Bool) (w : World) (s : Store) (a : AgentRef) (p : Population) :
    World × Store :=
  let w := w.forget held a
  let species := w.speciesOf a
  let slots := match w.host? held a with
    | some h => leaveSlots h.id species a w.slots
    | none => w.slots
  let (defaults, s) := w.defaults s p.species
  let w := { w with slots := slots }.update a fun x =>
    { x with
      host := some p.host
      species := p.species.name
      attributes := addMissing x.attributes defaults }
  (w.insertMember p.host.id p.species.name a, s)

end Habitat.World
