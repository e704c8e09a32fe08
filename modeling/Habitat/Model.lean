import Habitat.Run.Outcome
import Habitat.Statement.Build
import Habitat.Store.OfJson

/-!
# Models

A model is built from its draft: every species with its actions, what each species does in a step,
and what the root agent does at the start.
-/
namespace Habitat

/-- A model that can be run. -/
structure Model where
  name : String
  world : World
  store : Store
  init : Sequence
  /-- What each species does in a step, in the order of declaration. -/
  reflexes : List (String × Sequence)
  diagnostics : List Diagnostic

namespace Model

/-- A parent or micro-species that the model does not declare. -/
def unknownReference? (d : ModelDraft) : Option String :=
  ((d.root :: d.species).flatMap fun s => s.parent.toList ++ s.micro).find? fun name =>
    (d.find? name).isNone

/-- The values of attributes. -/
def attributeValues (s : Store) : List (String × Json) → List (String × Value) × Store
  | [] => ([], s)
  | (name, j) :: rest =>
    let (v, s) := s.ofJson j
    let (vs, s) := attributeValues s rest
    ((name, v) :: vs, s)

/-- Builds the actions of a species; of two with one name the last counts. -/
def buildActions (c : BuildContext) : List ActionDraft → List Action → Build (List Action)
  | [], done => return done
  | a :: rest, done => do
    let body ← Build.sequence c a.body
    buildActions c rest (Species.putAction ⟨a.name, a.formals, .statements body⟩ done)

/-- Builds a species and its part of a step. -/
def buildSpecies (d : ModelDraft) (s : SpeciesDraft) (store : Store) :
    Build (Species × Sequence × Store) := do
  let c : BuildContext := ⟨some d, some s.name⟩
  let (attributes, store) := attributeValues store s.attributes
  let actions ← buildActions c s.actions []
  let reflex ← Build.sequence c s.reflex
  return (⟨s.name, s.parent, s.micro, s.isAbstract, attributes, actions⟩, reflex, store)

/-- Builds and registers species. -/
def buildAll (d : ModelDraft) : List SpeciesDraft → World → Store →
    Build (World × Store × List (String × Sequence))
  | [], w, store => return (w, store, [])
  | s :: rest, w, store => do
    let (species, reflex, store) ← buildSpecies d s store
    let (w, store, reflexes) ← buildAll d rest (w.register species) store
    return (w, store, (species.name, reflex) :: reflexes)

/-- Builds the parts of a model. -/
def assemble (d : ModelDraft) : Build Model := do
  match unknownReference? d with
  | some name => throw (.unknownSpecies name)
  | none =>
    let (root, reflex, store) ← buildSpecies d d.root .empty
    let (world, store, reflexes) ← buildAll d d.species (.start root) store
    let init ← Build.sequence ⟨some d, some d.root.name⟩ d.init
    return ⟨d.name, world, store, init, (root.name, reflex) :: reflexes, ← get⟩

/-- Builds a model. -/
def build (d : ModelDraft) : Except BuildError Model :=
  match assemble d [] with
  | .ok m _ => .ok m
  | .error e _ => .error e

/-- The machine before the first run. -/
def machine (model : Model) (config : Config) : Machine := .start config model.world model.store

/-- Runs the start of the model for the root agent. -/
def begin (model : Model) (m : Machine) : Outcome × Machine := m.runFor model.init m.world.root

/-- Runs the parts of a step. -/
def stepAll : List (String × Sequence) → Machine → List (AgentRef × Outcome) × Machine
  | [], m => ([], m)
  | (species, reflex) :: rest, m =>
    let root := m.world.root
    let (os, m) :=
      if reflex.isEmpty then ([], m)
      else if species = m.world.speciesOf root then
        let (o, m) := m.runFor reflex root
        ([(root, o)], m)
      else m.stepSpecies species reflex
    let (more, m) := m.holding (os.flatMap fun (a, o) => .agent a :: o.holdings) (stepAll rest)
    (os ++ more, m)

/-- Runs one step: each species does its part for each of its live agents. -/
def step (model : Model) (m : Machine) : List (AgentRef × Outcome) × Machine :=
  stepAll model.reflexes { m with world := m.world.sweep }

/-- The root and the live agents of each species, by the names of the species. -/
def liveAgents (w : World) : List AgentRef := w.root :: w.speciesNames.flatMap w.agentsOf

/-- An agent as a document. -/
def agentJson (m : Machine) (a : AgentRef) : Json :=
  let x := m.world.agent a
  .obj [("name", .str a.name), ("species", .str x.species),
    ("attributes", .obj (x.attributes.fields.map fun (name, v) => (name, m.store.json v)))]

/-- The live agents as a document. -/
def snapshot (model : Model) (m : Machine) : Json :=
  .obj [("model", .str model.name), ("agents", .arr ((liveAgents m.world).map (agentJson m)))]

end Model
end Habitat
