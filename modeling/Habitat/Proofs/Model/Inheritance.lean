import Habitat.Proofs.Model.Code
import Habitat.Proofs.Store.Made
import Habitat.Proofs.World.Births

/-!
# What the root inherits

A created agent has a copy of the default of each attribute that its species or one of the ancestors
declares, the nearest declaration counting. The root is made when its species is the only one
there is, and has the attributes that the species declares itself.

* `World.Founded`: the attributes that the species of a model declare are finite trees.
* `root_inherits_iff`: the root has what an agent of its species would be created with exactly if
  no ancestor declares an attribute that the species does not declare.
-/
namespace Habitat

open Store (Extends Ends)

namespace World

/-- The chains of containers inside the values that species declare end. -/
def Founded (w : World) (s : Store) : Prop := ∀ sp ∈ w.species, ∀ f ∈ sp.attributes, s.Ends f.2

/-! ## Copies of the defaults -/

/-- The copies of defaults look like the defaults. -/
theorem tree_copyDefaults {s s₁ : Store} (hs : s.Extends s₁) {fields : List (String × Value)}
    (h : ∀ f ∈ fields, s.Ends f.2) :
    List.Forall₂ (fun f f' => f'.1 = f.1 ∧ (copyDefaults s₁ fields).2.tree f'.2 = s.tree f.2)
      fields (copyDefaults s₁ fields).1 := by
  induction fields generalizing s₁ with
  | nil => exact .nil
  | cons f rest ih =>
    obtain ⟨hf, hrest⟩ := List.forall_mem_cons.mp h
    have hf₁ : s₁.Ends f.2 := hf.mono hs
    have hlater : (s₁.copy f.2).2.Extends (copyDefaults s₁ (f :: rest)).2 :=
      extends_copyDefaults _ rest
    have htree : (copyDefaults s₁ (f :: rest)).2.tree (s₁.copy f.2).1 = s.tree f.2 :=
      calc (copyDefaults s₁ (f :: rest)).2.tree (s₁.copy f.2).1
          = (s₁.copy f.2).2.tree (s₁.copy f.2).1 := hf₁.copy.tree_eq hlater
        _ = (s₁.copy f.2).2.tree f.2 := Store.treeAt_copy hf₁.within _
        _ = s₁.tree f.2 := hf₁.tree_eq (s₁.extends_copy f.2)
        _ = s.tree f.2 := hf.tree_eq hs
    exact .cons ⟨rfl, htree⟩ (ih (hs.trans (s₁.extends_copy f.2)) hrest)

/-- What a new agent has for a name looks like the default. -/
theorem tree_defaults {w : World} {s : Store} {sp : Species}
    (h : ∀ f ∈ w.declared sp, s.Ends f.2) (name : String) :
    ((w.defaults s sp).1.get? name).map (w.defaults s sp).2.tree =
      (w.default? sp name).map s.tree := by
  have hcopies := List.forall₂_reverse_iff.mpr (tree_copyDefaults (.refl s) h)
  have hget : (w.defaults s sp).1.get? name =
      (copyDefaults s (w.declared sp)).1.reverse.lookup name := Record.get?_ofList _ name
  have hstore : (w.defaults s sp).2 = (copyDefaults s (w.declared sp)).2 := rfl
  rw [← lookup_declared, hget, hstore]
  rcases Record.lookup_forall₂
      (R := fun d v => (copyDefaults s (w.declared sp)).2.tree v = s.tree d) hcopies name with ⟨hnone, hnone'⟩ | ⟨d, v, hd, hv, htree⟩
  · rw [hnone, hnone']
    rfl
  · rw [hd, hv, Option.map_some, Option.map_some, htree]

/-- An agent that is created without initial values has what looks like the defaults. -/
theorem tree_populate {w : World} {s : Store} {sp : Species}
    (h : ∀ f ∈ w.declared sp, s.Ends f.2) (host : AgentRef) :
    ∃ a w' s', w.populate s ⟨host, sp⟩ [.empty] = ([a], w', s') ∧
      ∀ name, (w'.attribute? a name).map s'.tree = (w.default? sp name).map s.tree := by
  refine ⟨_, _, _, rfl, fun name => ?_⟩
  have hempty : [Record.empty][0]? = some .empty := rfl
  have hattributes := attributes_births ⟨host, sp⟩ (w.defaults s sp).1 (w := w) hempty
  rw [← tree_defaults h, attribute?, agent]
  exact congrArg (fun r : Record => (r.get? name).map _) hattributes

/-! ## Own and inherited -/

/-- The nearest declaration of a name is that of the species, or else that of an ancestor. -/
theorem default?_eq_or (w : World) (sp : Species) (name : String) :
    w.default? sp name = (sp.attributes.reverse.lookup name).or
      ((w.kin sp).tail.findSome? fun a => a.attributes.reverse.lookup name) := by
  unfold default? kin
  rw [List.findSome?_cons, List.tail_cons]
  cases sp.attributes.reverse.lookup name <;> rfl

theorem mem_species_of_mem_kin {w : World} {sp a : Species} (hsp : sp ∈ w.species)
    (ha : a ∈ w.kin sp) : a ∈ w.species := by
  unfold kin at ha
  rcases List.mem_cons.mp ha with rfl | ha
  · exact hsp
  · cases hparent : sp.parent with
    | none =>
      rw [hparent] at ha
      exact absurd ha List.not_mem_nil
    | some parent =>
      rw [hparent] at ha
      obtain ⟨name, -, hfind⟩ := List.mem_filterMap.mp ha
      exact List.mem_of_find?_eq_some hfind

/-- Every attribute that an ancestor declares the species declares, too. -/
def Covers (w : World) (sp : Species) : Prop :=
  ∀ a ∈ (w.kin sp).tail, ∀ f ∈ a.attributes, ∃ g ∈ sp.attributes, g.1 = f.1

theorem lookup_reverse_eq_none_iff {fields : List (String × Value)} {name : String} :
    fields.reverse.lookup name = none ↔ ∀ f ∈ fields, f.1 ≠ name := by
  rw [List.lookup_eq_none_iff]
  constructor
  · intro h f hf hname
    exact bne_iff_ne.mp (h f (List.mem_reverse.mpr hf)) hname.symm
  · intro h f hf
    exact bne_iff_ne.mpr (h f (List.mem_reverse.mp hf)).symm

/-- A species covers its ancestors if no name that it does not declare has a default. -/
theorem covers_iff {w : World} {sp : Species} :
    w.Covers sp ↔ ∀ name, sp.attributes.reverse.lookup name = none → w.default? sp name = none := by
  constructor
  · intro h name hown
    rw [default?_eq_or, hown, Option.none_or, List.findSome?_eq_none_iff]
    intro a ha
    rw [lookup_reverse_eq_none_iff] at hown ⊢
    rintro f hf rfl
    obtain ⟨g, hg, hname⟩ := h a ha f hf
    exact hown g hg hname
  · intro h a ha f hf
    refine Classical.byContradiction fun hnone => ?_
    have hown : sp.attributes.reverse.lookup f.1 = none :=
      lookup_reverse_eq_none_iff.mpr fun g hg hname => hnone ⟨g, hg, hname⟩
    have hall := h f.1 hown
    rw [default?_eq_or, hown, Option.none_or, List.findSome?_eq_none_iff] at hall
    exact lookup_reverse_eq_none_iff.mp (hall a ha) f hf rfl

/-- What a species declares itself is all that its agents start with if it covers its ancestors,
and only then. -/
theorem map_default?_eq_iff {α : Type} {w : World} {sp : Species} (look : Value → α) :
    (∀ name, (w.default? sp name).map look = (sp.attributes.reverse.lookup name).map look) ↔
      w.Covers sp := by
  rw [covers_iff]
  refine forall_congr' fun name => ?_
  cases hown : sp.attributes.reverse.lookup name with
  | none => simp
  | some v => simp [default?_eq_or, hown]

/-! ## Models -/

theorem find?_putSpecies_of_ne {s : Species} {species : List Species} {name : String}
    (h : s.name ≠ name) : (putSpecies s species).find? (·.name == name) =
      species.find? (·.name == name) := by
  induction species with
  | nil => simp [putSpecies, h]
  | cons t rest ih =>
    unfold putSpecies
    split
    · rename_i ht
      rw [List.find?_cons_of_neg (by simpa using h), List.find?_cons_of_neg (by simpa [ht] using h)]
    · rw [List.find?_cons, List.find?_cons, ih]

theorem mem_putSpecies {s t : Species} {species : List Species} (h : t ∈ putSpecies s species) :
    t = s ∨ t ∈ species := by
  induction species with
  | nil => exact .inl (List.mem_singleton.mp h)
  | cons u rest ih =>
    unfold putSpecies at h
    split at h
    · exact (List.mem_cons.mp h).imp_right (List.mem_cons_of_mem u)
    · rcases List.mem_cons.mp h with rfl | h
      · exact .inr List.mem_cons_self
      · exact (ih h).imp_right (List.mem_cons_of_mem u)

end World

namespace Model
variable {d : ModelDraft}

theorem ends_attributeValues (s : Store) (fields : List (String × Json)) :
    s.Extends (attributeValues s fields).2 ∧
      ∀ f ∈ (attributeValues s fields).1, (attributeValues s fields).2.Ends f.2 := by
  induction fields generalizing s with
  | nil => exact ⟨.refl s, fun _ hf => absurd hf List.not_mem_nil⟩
  | cons f rest ih =>
    have hmade := Store.yields_ofJson s f.2
    obtain ⟨hgrows, hends⟩ := ih (s.ofJson f.2).2
    exact ⟨hmade.grows.trans hgrows, List.forall_mem_cons.mpr ⟨hmade.ends.mono hgrows, hends⟩⟩

theorem founded_of_buildSpecies {draft : SpeciesDraft} {sp : Species} {reflex : Sequence}
    {store store' : Store} {ds ds' : List Diagnostic}
    (h : buildSpecies d draft store ds = .ok (sp, reflex, store') ds') :
    store.Extends store' ∧ ∀ f ∈ sp.attributes, store'.Ends f.2 := by
  unfold buildSpecies at h
  obtain ⟨actions, ds₁, -, h⟩ := Build.bind_eq_ok h
  obtain ⟨reflex', ds₂, -, h⟩ := Build.bind_eq_ok h
  cases h
  exact ends_attributeValues store draft.attributes

/-- What registering the species of a model leaves of a world. -/
structure Registers (drafts : List SpeciesDraft) (w : World) (s : Store) (w' : World)
    (s' : Store) : Prop where
  grows : s.Extends s'
  agents : w'.agents = w.agents
  root : w'.root = w.root
  find? : ∀ name, (∀ draft ∈ drafts, draft.name ≠ name) → w'.find? name = w.find? name
  founded : w.Founded s → w'.Founded s'

theorem registers_of_buildAll {drafts : List SpeciesDraft} {w w' : World} {s s' : Store}
    {reflexes : List (String × Sequence)} {ds ds' : List Diagnostic}
    (h : buildAll d drafts w s ds = .ok (w', s', reflexes) ds') : Registers drafts w s w' s' := by
  induction drafts generalizing w s reflexes ds with
  | nil =>
    cases h
    exact ⟨.refl _, rfl, rfl, fun _ _ => rfl, id⟩
  | cons draft rest ih =>
    rw [buildAll] at h
    obtain ⟨⟨sp, reflex, s₁⟩, ds₁, hsp, h⟩ := Build.bind_eq_ok h
    obtain ⟨⟨w₁, s₂, reflexes₁⟩, ds₂, hrest, h⟩ := Build.bind_eq_ok h
    cases h
    have hrest := ih hrest
    have hname := (realizes_of_buildSpecies hsp).1.name
    obtain ⟨hgrows, hends⟩ := founded_of_buildSpecies hsp
    refine ⟨hgrows.trans hrest.grows, hrest.agents, hrest.root, fun name hnames => ?_, fun hw => ?_⟩
    · obtain ⟨hne, hnames⟩ := List.forall_mem_cons.mp hnames
      rw [hrest.find? name hnames]
      exact World.find?_putSpecies_of_ne (hname ▸ hne)
    · refine hrest.founded fun t ht f hf => ?_
      rcases World.mem_putSpecies ht with rfl | ht
      · exact hends f hf
      · exact (hw t ht f hf).mono hgrows

/-- The root of a model is that of a world of its species alone, the attributes that species
declare are finite trees, and the species of the root is still the same if no other one has its
name. -/
theorem root_of_build {model : Model} (h : Model.build d = .ok model) :
    ∃ sp, sp.name = d.root.name ∧ model.world.Founded model.store ∧
      (∀ name, model.world.attribute? model.world.root name = sp.attributes.reverse.lookup name) ∧
      ((∀ draft ∈ d.species, draft.name ≠ d.root.name) →
        sp ∈ model.world.species ∧ model.world.find? d.root.name = some sp) := by
  obtain ⟨sp, reflex, store, reflexes, ds₁, ds₂, ds₃, hroot, hall, -, -⟩ := steps_of_build h
  have hname := (realizes_of_buildSpecies hroot).1.name
  obtain ⟨-, hends⟩ := founded_of_buildSpecies hroot
  have hall := registers_of_buildAll hall
  refine ⟨sp, hname, hall.founded ?_, fun name => ?_, fun hnames => ?_⟩
  · intro t ht
    obtain rfl := List.mem_singleton.mp ht
    exact hends
  · rw [World.attribute?, World.agent, hall.agents, hall.root]
    exact Record.get?_ofList sp.attributes name
  · have hfind : model.world.find? d.root.name = some sp := by
      rw [hall.find? d.root.name hnames, ← hname, World.find?]
      exact List.find?_cons_of_pos (beq_self_eq_true sp.name)
    exact ⟨List.mem_of_find?_eq_some hfind, hfind⟩

end Model

/-- The root has the attributes that its species declares itself. An agent that is created for the
species without initial values has, for each name that the species or an ancestor declares, what
looks like the default of the nearest one that does, and nothing else. The two are alike exactly if
the species declares all that its ancestors declare. -/
theorem root_inherits_iff {d : ModelDraft} {model : Model} (hbuild : Model.build d = .ok model)
    (hroot : ∀ draft ∈ d.species, draft.name ≠ d.root.name) :
    ∃ sp, model.world.find? d.root.name = some sp ∧
      (∀ name, model.world.attribute? model.world.root name =
        sp.attributes.reverse.lookup name) ∧
      ∀ host, ∃ a w s, model.world.populate model.store ⟨host, sp⟩ [.empty] = ([a], w, s) ∧
        (∀ name, (w.attribute? a name).map s.tree =
          (model.world.default? sp name).map model.store.tree) ∧
        ((∀ name, (w.attribute? a name).map s.tree =
            (model.world.attribute? model.world.root name).map model.store.tree) ↔
          model.world.Covers sp) := by
  obtain ⟨sp, -, hfounded, hown, hfind⟩ := Model.root_of_build hbuild
  obtain ⟨hmem, hfind⟩ := hfind hroot
  have hends : ∀ f ∈ model.world.declared sp, model.store.Ends f.2 := fun f hf => by
    obtain ⟨a, ha, hf⟩ := List.mem_flatMap.mp hf
    exact hfounded a (World.mem_species_of_mem_kin hmem (List.mem_reverse.mp ha)) f hf
  refine ⟨sp, hfind, hown, fun host => ?_⟩
  obtain ⟨a, w, s, hpopulate, hcreated⟩ := World.tree_populate hends host
  refine ⟨a, w, s, hpopulate, hcreated, ?_⟩
  rw [← World.map_default?_eq_iff model.store.tree]
  exact forall_congr' fun name => by rw [hcreated, hown]

/-- The world is a place, and places have a size. -/
def placedWorld : ModelDraft where
  name := "m"
  root := ⟨"world", some "place", [], false, [("name", .str "here")], [], []⟩
  species := [⟨"place", none, [], false, [("size", .int 1)], [], []⟩]
  init := []

/-- The root has no size, and another world that is created would have one. -/
theorem root_inherits_iff_placedWorld :
    (∀ draft ∈ placedWorld.species, draft.name ≠ placedWorld.root.name) ∧
    ∃ model sp a w s, Model.build placedWorld = .ok model ∧
      model.world.find? "world" = some sp ∧ ¬model.world.Covers sp ∧
      model.world.attribute? model.world.root "size" = none ∧
      model.world.populate model.store ⟨model.world.root, sp⟩ [.empty] = ([a], w, s) ∧
      (w.attribute? a "size").isSome := by
  refine ⟨by decide, ?_⟩
  have hrun : ((Model.build placedWorld).toOption.map fun model =>
      ((model.world.attribute? model.world.root "size").isSome,
        ((model.world.find? "world").bind fun sp => model.world.default? sp "size").isSome)) =
      some (false, true) := by
    decide +kernel
  cases hbuild : Model.build placedWorld with
  | error e =>
    rw [hbuild] at hrun
    cases hrun
  | ok model =>
    rw [hbuild] at hrun
    obtain ⟨hroot, hdefault⟩ := Prod.mk.inj (Option.some.inj hrun)
    have hroot : model.world.attribute? model.world.root "size" = none :=
      Option.not_isSome_iff_eq_none.mp (Bool.eq_false_iff.mp hroot)
    obtain ⟨sp, hfind, -, hhost⟩ := root_inherits_iff hbuild (by decide)
    have hfind : model.world.find? "world" = some sp := hfind
    rw [hfind, Option.bind_some] at hdefault
    obtain ⟨a, w, s, hpopulate, hcreated, hiff⟩ := hhost model.world.root
    have hsize : (w.attribute? a "size").isSome := by
      have hlook := congrArg Option.isSome (hcreated "size")
      rwa [Option.isSome_map, Option.isSome_map, hdefault] at hlook
    refine ⟨model, sp, a, w, s, rfl, hfind, fun hcovers => ?_, hroot, hpopulate, hsize⟩
    have hlook := congrArg Option.isSome (hiff.mpr hcovers "size")
    rw [Option.isSome_map, hsize, hroot] at hlook
    cases hlook

end Habitat
