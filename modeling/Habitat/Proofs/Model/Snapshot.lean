import Habitat.Proofs.Model.Calls
import Habitat.Proofs.World.Census

/-!
# Snapshots

A snapshot shows the root and the live agents of each species, with the species and the attributes
that they have. In no state that a model comes to does it miss a live agent, and of the dead it can
only show the root.

The root is shown without being looked at. So a root that has died is still shown, and one that has
been moved into a population is shown once more as a member of that.

* `World.Regular`: what every model keeps of its world.
* `Model.after_keeps`: what runs, sweeps and the building of a model keep, is true after any number
  of steps.
* `snapshot_lists_live_iff`: which agents a snapshot shows.
-/
namespace Habitat

open Discipline

/-! ## What models keep of their worlds -/

/-- A world that comes about, with its live agents where they belong. -/
structure World.Regular (w : World) : Prop extends World.Enrolled w where
  reachable : w.Reachable

theorem regular_mobile : Mobile (ofWorld World.Regular) where
  toLawful := ofWorld_lawful _
  born s m p inits hs hp hm := by
    simp only [ofWorld, hm]
    exact ⟨hs.toEnrolled.populate hp _ inits, hs.reachable.change (.born _ _ p inits hp.host)⟩
  assigned s m a name v hs hm := by
    simp only [ofWorld, hm]
    exact ⟨hs.toEnrolled.of_update a fun _ => ⟨rfl, rfl, id⟩,
      hs.reachable.change (.assigned _ a name v)⟩
  lost s m held a hs hm := by
    simp only [ofWorld, hm]
    exact ⟨hs.toEnrolled.forget held a, hs.reachable.change (.lost _ held a)⟩
  moved s m held a p hs hid ha hp hm := by
    simp only [ofWorld, hm]
    exact ⟨hs.toEnrolled.move held _ ha hp.species,
      hs.reachable.change (.moved _ held hid _ a p ha hp.host)⟩

theorem regular_active : Active (ofWorld World.Regular) where
  toPeopled := regular_mobile.toPeopled
  died s m a hs hm := by
    simp only [ofWorld, hm]
    exact ⟨hs.toEnrolled.of_update a fun _ => ⟨rfl, rfl, by simp⟩,
      hs.reachable.change (.death _ a)⟩
  signal _ _ hs := hs
  record _ _ hs := hs

/-- Every sequence leaves the world regular. -/
theorem regular_sequence (body : Sequence) :
    (ofWorld World.Regular).Safe (Exec.sequence Machine.fuel body) :=
  regular_active.safe_sequenceWith regular_mobile (runNative_homely.safe _) Machine.fuel body

/-! ## Runs of models -/

section
variable {P : World → Prop}

/-- What registrations keep, registering the species of a model keeps. -/
theorem world_of_buildAll {d : ModelDraft} (hregister : ∀ w s, P w → P (w.register s))
    {drafts : List SpeciesDraft} {w w' : World} {s s' : Store}
    {reflexes : List (String × Sequence)} {ds ds' : List Diagnostic} (hw : P w)
    (h : Model.buildAll d drafts w s ds = .ok (w', s', reflexes) ds') : P w' := by
  induction drafts generalizing w s reflexes ds with
  | nil =>
    cases h
    exact hw
  | cons draft rest ih =>
    rw [Model.buildAll] at h
    obtain ⟨⟨sp, reflex, s₁⟩, ds₁, -, h⟩ := Build.bind_eq_ok h
    obtain ⟨⟨w₁, s₂, reflexes₁⟩, ds₂, hrest, h⟩ := Build.bind_eq_ok h
    cases h
    exact ih (hregister w sp hw) hrest

/-- What is true of a world with a root only, and kept by registrations, is true of the world of a
model. -/
theorem world_of_build {d : ModelDraft} {model : Model} (hstart : ∀ s, P (.start s))
    (hregister : ∀ w s, P w → P (w.register s)) (h : Model.build d = .ok model) :
    P model.world := by
  obtain ⟨root, reflex, store, reflexes, ds₁, ds₂, ds₃, -, hall, -, -⟩ := steps_of_build h
  exact world_of_buildAll hregister (hstart root) hall

variable (hrun : ∀ body, (ofWorld P).Safe (Exec.sequence Machine.fuel body))
include hrun

theorem Machine.runFor_keeps {m : Machine} (hm : P m.world) (body : Sequence) (a : AgentRef) :
    P (m.runFor body a).2.world := by
  have hkept := (hrun body ⟨.start a a.name, m⟩ hm).kept
  unfold runFor
  split
  · exact hm
  · cases h : Exec.sequence fuel body ⟨.start a a.name, m⟩ with
    | ok v s =>
      rw [Exec.after_ok h] at hkept
      exact hkept
    | error e s =>
      rw [Exec.after_error h] at hkept
      cases e <;> exact hkept

theorem Machine.runForEach_keeps (body : Sequence) (as : List AgentRef) {m : Machine}
    (hm : P m.world) : P (runForEach body as m).2.world := by
  induction as generalizing m with
  | nil => exact hm
  | cons a rest ih =>
    unfold runForEach
    split
    · exact hm
    · exact ih (m := { (m.runFor body a).2 with
        held := (.agent a :: (m.runFor body a).1.holdings) :: (m.runFor body a).2.held })
        (Machine.runFor_keeps hrun hm body a)

variable (hsweep : ∀ w, P w → P w.sweep)
include hsweep

theorem Machine.stepSpecies_keeps {m : Machine} (hm : P m.world) (species : String)
    (body : Sequence) : P (m.stepSpecies species body).2.world := by
  unfold stepSpecies holding
  have hswept : P (if m.policy.sweeps then { m with world := m.world.sweep } else m).world := by
    split
    · exact hsweep _ hm
    · exact hm
  generalize (if m.policy.sweeps then { m with world := m.world.sweep } else m) = m' at *
  exact Machine.runForEach_keeps hrun body _
    (m := { m' with held := (m'.world.agentsOf species).map .agent :: m'.held }) hswept

theorem Model.stepAll_keeps (reflexes : List (String × Sequence)) {m : Machine}
    (hm : P m.world) : P (stepAll reflexes m).2.world := by
  induction reflexes generalizing m with
  | nil => exact hm
  | cons r rest ih =>
    obtain ⟨name, reflex⟩ := r
    -- Whichever part ran, the others follow it.
    have hgoes : ∀ (vs : List Value) (m : Machine), P m.world →
        P (m.holding vs (stepAll rest)).2.world := fun vs m hm =>
      ih (m := { m with held := vs :: m.held }) hm
    unfold stepAll
    dsimp only
    split
    · exact hgoes _ m hm
    · split
      · exact hgoes _ _ (Machine.runFor_keeps hrun hm reflex m.world.root)
      · exact hgoes _ _ (Machine.stepSpecies_keeps hrun hsweep hm name reflex)

/-- What runs and sweeps keep of the world of a model, is true after any number of steps. -/
theorem Model.after_keeps {model : Model} (hmodel : P model.world) (config : Config) (k : Nat) :
    P (model.after config k).world := by
  induction k with
  | zero => exact Machine.runFor_keeps hrun (m := model.machine config) hmodel model.init _
  | succ k ih =>
    exact Model.stepAll_keeps hrun hsweep model.reflexes
      (m := { model.after config k with world := (model.after config k).world.sweep })
      (hsweep _ ih)

end

/-- The world of a model is regular after the start and any number of steps. -/
theorem regular_after {d : ModelDraft} {model : Model} (hbuild : Model.build d = .ok model)
    (config : Config) (k : Nat) : (model.after config k).world.Regular := by
  have hmodel : model.world.Regular := world_of_build
    (fun root => ⟨.start root, .start root⟩)
    (fun _ s hw => ⟨hw.toEnrolled.register s, hw.reachable.register s⟩) hbuild
  exact Model.after_keeps regular_sequence (fun _ hw => ⟨hw.toEnrolled.sweep, hw.reachable.sweep⟩)
    hmodel config k

/-! ## Snapshots -/

/-- After the start of a model and any number of steps, a snapshot shows agents with the species
and attributes that they have. Every live agent is among them, and of the dead at most the root. The
live agents are shown once each, and nobody else is, exactly if the root lives and has not been
moved, nobody is left behind in a slot of a host that is gone, and no slot lists a live agent
twice. -/
theorem snapshot_lists_live_iff {d : ModelDraft} {model : Model}
    (hbuild : Model.build d = .ok model) (config : Config) (k : Nat) :
    let m := model.after config k
    let w := m.world
    let shown := Model.liveAgents w
    model.snapshot m = .obj [("model", .str model.name), ("agents", .arr (shown.map fun a =>
        .obj [("name", .str a.name), ("species", .str (w.speciesOf a)),
          ("attributes", .obj ((w.agent a).attributes.fields.map fun f =>
            (f.1, m.store.json f.2)))]))] ∧
      (∀ a : AgentRef, w.isDead a = false → a.id ∈ shown.map (·.id)) ∧
      (∀ a ∈ shown, a = w.root ∨ w.isDead a = false) ∧
      (w.ListsLive shown ↔ w.Orderly) := by
  intro m w shown
  have hw := regular_after hbuild config k
  exact ⟨rfl, fun a => World.mem_liveAgents hw.reachable hw.toEnrolled,
    fun a => World.eq_root_or_alive hw.reachable hw.toEnrolled,
    World.listsLive_liveAgents_iff hw.reachable hw.toEnrolled⟩

/-- The root dies at the start. -/
def dyingRoot : ModelDraft where
  name := "m"
  root := ⟨"world", none, [], false, [], [], []⟩
  species := []
  init := [.die]

/-- The snapshot shows the dead root. -/
theorem snapshot_lists_live_dyingRoot :
    ∃ model, Model.build dyingRoot = .ok model ∧
      let w := (model.after .standard 0).world
      (Model.liveAgents w).map (·.id) = [0] ∧ w.isDead w.root = true ∧
        ¬w.ListsLive (Model.liveAgents w) := by
  have hrun : ((Model.build dyingRoot).toOption.map fun model =>
      let w := (model.after .standard 0).world
      ((Model.liveAgents w).map (·.id), w.isDead w.root)) = some ([0], true) := by
    decide +kernel
  cases hbuild : Model.build dyingRoot with
  | error e =>
    rw [hbuild] at hrun
    cases hrun
  | ok model =>
    rw [hbuild] at hrun
    obtain ⟨hshown, hdead⟩ := Prod.mk.inj (Option.some.inj hrun)
    refine ⟨model, rfl, hshown, hdead, fun hl => ?_⟩
    have horderly := (snapshot_lists_live_iff hbuild .standard 0).2.2.2.mp hl
    rw [horderly.alive] at hdead
    cases hdead

end Habitat
