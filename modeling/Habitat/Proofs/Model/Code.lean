import Habitat.Model
import Habitat.Proofs.Run.Traversal
import Mathlib.Data.List.Forall2

/-!
# The code of a model

Every sequence of a model is the code of one of its species: of the root the one that runs at the
start, and of each species its part of a step and the bodies of its actions. The statements inside
a statement are code of the same species.

* `Coded.inside`: the statements inside a statement, and what building has checked about a call.
* `isCode_of_build`: the code of a model, and the species that it makes of its drafts.
-/
namespace Habitat

/-! ## Statements -/

namespace Build

/-- What could be built was built part by part. -/
theorem bind_eq_ok {α β : Type} {x : Build α} {f : α → Build β} {ds ds' : List Diagnostic} {b : β}
    (h : (x >>= f) ds = .ok b ds') : ∃ a ds₁, x ds = .ok a ds₁ ∧ f a ds₁ = .ok b ds' := by
  simp only [bind, EStateM.bind] at h
  split at h
  · exact ⟨_, _, ‹_›, h⟩
  · cases h

end Build

/-- A statement that is code of a species. -/
def Coded (d : ModelDraft) (home : String) (st : Statement) : Prop :=
  ∃ draft ds ds', Build.statement ⟨some d, some home⟩ draft ds = .ok st ds'

/-- Statements that are code of a species. -/
def CodedAll (d : ModelDraft) (home : String) (body : Sequence) : Prop :=
  ∀ st ∈ body, Coded d home st

variable {d : ModelDraft} {home : String}

theorem codedAll_of_sequence {drafts : List Draft} {body : Sequence} {ds ds' : List Diagnostic}
    (h : Build.sequence ⟨some d, some home⟩ drafts ds = .ok body ds') : CodedAll d home body := by
  induction drafts generalizing body ds with
  | nil =>
    rw [Build.sequence] at h
    cases h
    exact fun _ hst => absurd hst List.not_mem_nil
  | cons draft rest ih =>
    rw [Build.sequence] at h
    obtain ⟨st, ds₁, hst, h⟩ := Build.bind_eq_ok h
    obtain ⟨sts, ds₂, hsts, h⟩ := Build.bind_eq_ok h
    cases h
    exact List.forall_mem_cons.mpr ⟨⟨draft, ds, ds₁, hst⟩, ih hsts⟩

theorem codedAll_of_optionalSequence {drafts : Option (List Draft)} {body : Option Sequence}
    {ds ds' : List Diagnostic}
    (h : Build.optionalSequence ⟨some d, some home⟩ drafts ds = .ok body ds') :
    ∀ b ∈ body.toList, CodedAll d home b := by
  cases drafts with
  | none =>
    rw [Build.optionalSequence] at h
    cases h
    exact fun _ hb => absurd hb List.not_mem_nil
  | some drafts =>
    rw [Build.optionalSequence] at h
    obtain ⟨b, ds₁, hb, h⟩ := Build.bind_eq_ok h
    cases h
    exact List.forall_mem_singleton.mpr (codedAll_of_sequence hb)

/-- A loop is built around its body. -/
theorem loop_of_loop {f : LoopFacets} {body : Sequence} {st : Statement}
    {ds ds' : List Diagnostic} (h : Build.loop f body ds = .ok st ds') :
    ∃ var kind, st = .loop var kind body := by
  unfold Build.loop at h
  cases htimes : f.times with
  | some count =>
    rw [htimes] at h
    cases h
    exact ⟨_, _, rfl⟩
  | none =>
    cases heach : f.each with
    | some source =>
      rw [htimes, heach] at h
      obtain ⟨var, ds₁, -, h⟩ := Build.bind_eq_ok h
      cases h
      exact ⟨_, _, rfl⟩
    | none =>
      cases hcond : f.condition with
      | some condition =>
        rw [htimes, heach, hcond] at h
        cases h
        exact ⟨_, _, rfl⟩
      | none =>
        rw [htimes, heach, hcond] at h
        cases hstart : f.start with
        | some start =>
          cases hstop : f.stop with
          | some stop =>
            rw [hstart, hstop] at h
            obtain ⟨var, ds₁, -, h⟩ := Build.bind_eq_ok h
            cases h
            exact ⟨_, _, rfl⟩
          | none =>
            rw [hstart, hstop] at h
            cases h
        | none => cases hstop : f.stop <;> rw [hstart, hstop] at h <;> cases h

theorem edit_of_edit {kind : EditKind} {f : EditFacets} {st : Statement}
    {ds ds' : List Diagnostic} (h : Build.edit kind f ds = .ok st ds') :
    ∃ warnings, st = .edit kind f warnings := by
  unfold Build.edit at h
  cases hc : Build.checkFacets kind f with
  | error e =>
    rw [hc] at h
    cases h
  | ok _ =>
    rw [hc] at h
    dsimp only at h
    by_cases hfixed : (kind != .put && f.container.staticType.isFixedLength) = true
    · rw [if_pos hfixed] at h
      cases h
    · rw [if_neg hfixed] at h
      obtain ⟨_, ds₁, -, h⟩ := Build.bind_eq_ok h
      cases h
      exact ⟨_, rfl⟩

/-- What building has checked about a call in the code of a species. -/
def Checked (d : ModelDraft) (home : String) (c : ActionCall) : Prop :=
  match c.species with
  | some parent => (Build.findAction d parent c.action).isSome
  | none => c.target = none → (Build.findAction d home c.action).isSome

theorem findAction_of_checkCall {species : String} {f : CallFacets} {ds ds' : List Diagnostic}
    {u : Unit} (h : Build.checkCall d species f ds = .ok u ds') :
    (Build.findAction d species f.action).isSome := by
  unfold Build.checkCall at h
  cases hfind : Build.findAction d species f.action with
  | none =>
    rw [hfind] at h
    cases h
  | some a => rfl

theorem checked_of_call {f : CallFacets} {st : Statement} {ds ds' : List Diagnostic}
    (h : Build.call ⟨some d, some home⟩ f ds = .ok st ds') :
    ∃ c, st = .call c ∧ Checked d home c := by
  unfold Build.call at h
  cases htarget : f.target with
  | none =>
    rw [htarget] at h
    obtain ⟨_, ds₁, hcheck, h⟩ := Build.bind_eq_ok h
    cases h
    exact ⟨_, rfl, fun _ => findAction_of_checkCall hcheck⟩
  | some target =>
    rw [htarget] at h
    cases h
    exact ⟨_, rfl, nofun⟩

theorem checked_of_invoke {f : CallFacets} {st : Statement} {ds ds' : List Diagnostic}
    (h : Build.invoke ⟨some d, some home⟩ f ds = .ok st ds') :
    ∃ c, st = .call c ∧ Checked d home c := by
  unfold Build.invoke at h
  obtain ⟨parent, ds₁, -, h⟩ := Build.bind_eq_ok h
  obtain ⟨_, ds₂, hcheck, h⟩ := Build.bind_eq_ok h
  cases h
  exact ⟨_, rfl, findAction_of_checkCall hcheck⟩

/-- Building around one sequence. -/
theorem codedAll_of_map {drafts : List Draft} {f : Sequence → Statement} {st : Statement}
    {ds ds' : List Diagnostic}
    (h : (do return f (← Build.sequence ⟨some d, some home⟩ drafts) : Build Statement) ds =
      .ok st ds') : ∃ body, st = f body ∧ ∀ b ∈ [body], CodedAll d home b := by
  obtain ⟨body, ds₁, hbody, h⟩ := Build.bind_eq_ok h
  cases h
  exact ⟨body, rfl, List.forall_mem_singleton.mpr (codedAll_of_sequence hbody)⟩

/-- The statements inside a statement are code of the same species, and calls have been checked
for that species. -/
theorem Coded.inside {st : Statement} (h : Coded d home st) :
    (∀ body ∈ st.bodies, CodedAll d home body) ∧ ∀ c, st = .call c → Checked d home c := by
  obtain ⟨draft, ds, ds', h⟩ := h
  have hleaf : ∀ body ∈ ([] : List Sequence), CodedAll d home body := fun _ hb =>
    absurd hb List.not_mem_nil
  cases draft <;> rw [Build.statement] at h
  case branch condition yes no =>
    obtain ⟨yes', ds₁, hyes, h⟩ := Build.bind_eq_ok h
    obtain ⟨no', ds₂, hno, h⟩ := Build.bind_eq_ok h
    cases h
    refine ⟨List.forall_mem_cons.mpr ?_, fun c hc => by cases hc⟩
    exact ⟨codedAll_of_sequence hyes, codedAll_of_optionalSequence hno⟩
  case attempt body rescue =>
    obtain ⟨body', ds₁, hbody, h⟩ := Build.bind_eq_ok h
    obtain ⟨rescue', ds₂, hrescue, h⟩ := Build.bind_eq_ok h
    cases h
    refine ⟨List.forall_mem_cons.mpr ?_, fun c hc => by cases hc⟩
    exact ⟨codedAll_of_sequence hbody, codedAll_of_optionalSequence hrescue⟩
  case loop f body =>
    obtain ⟨_, ds₁, -, h⟩ := Build.bind_eq_ok h
    obtain ⟨body', ds₂, hbody, h⟩ := Build.bind_eq_ok h
    obtain ⟨var, kind, rfl⟩ := loop_of_loop h
    exact ⟨List.forall_mem_singleton.mpr (codedAll_of_sequence hbody), fun c hc => by cases hc⟩
  case call f =>
    obtain ⟨c, rfl, hc⟩ := checked_of_call h
    refine ⟨hleaf, ?_⟩
    rintro c' ⟨⟩
    exact hc
  case invoke f =>
    obtain ⟨c, rfl, hc⟩ := checked_of_invoke h
    refine ⟨hleaf, ?_⟩
    rintro c' ⟨⟩
    exact hc
  case edit kind f =>
    obtain ⟨warnings, rfl⟩ := edit_of_edit h
    exact ⟨hleaf, fun c hc => by cases hc⟩
  case block | ask | create | capture | release | migrate =>
    obtain ⟨body, rfl, hbody⟩ := codedAll_of_map h
    exact ⟨hbody, fun c hc => by cases hc⟩
  all_goals
    cases h
    exact ⟨hleaf, fun c hc => by cases hc⟩

/-! ## Species -/

/-- A species as a draft describes it: the actions have the names of the drafted ones, and their
bodies are code of the species. -/
structure Realizes (d : ModelDraft) (draft : SpeciesDraft) (s : Species) : Prop where
  name : s.name = draft.name
  parent : s.parent = draft.parent
  actions : ∀ a ∈ draft.actions, (s.action? a.name).isSome
  coded : ∀ a ∈ s.actions, ∀ body, a.body = .statements body → CodedAll d s.name body

namespace Species

theorem mem_putAction {a b : Action} {actions : List Action} (h : b ∈ putAction a actions) :
    b = a ∨ b ∈ actions := by
  induction actions with
  | nil => exact .inl (List.mem_singleton.mp h)
  | cons c rest ih =>
    rw [putAction] at h
    split at h
    · rcases List.mem_cons.mp h with h | h
      · exact .inl h
      · exact .inr (List.mem_cons_of_mem _ h)
    · rcases List.mem_cons.mp h with h | h
      · exact .inr (h ▸ List.mem_cons_self)
      · exact (ih h).imp_right (List.mem_cons_of_mem _)

theorem names_putAction (a : Action) (actions : List Action) (name : String) :
    name ∈ (putAction a actions).map (·.name) ↔ name = a.name ∨ name ∈ actions.map (·.name) := by
  induction actions with
  | nil => simp [putAction]
  | cons c rest ih =>
    rw [putAction]
    split
    · simp [‹c.name = a.name›]
    · simp only [List.map_cons, List.mem_cons, ih]
      tauto

theorem isSome_action? {s : Species} {name : String} :
    (s.action? name).isSome ↔ name ∈ s.actions.map (·.name) := by
  simp [action?, List.find?_isSome]

end Species

/-- Actions that were built carry the names of their drafts, and their bodies are code. -/
theorem actions_of_buildActions {drafts : List ActionDraft} {done actions : List Action}
    {ds ds' : List Diagnostic}
    (h : Model.buildActions ⟨some d, some home⟩ drafts done ds = .ok actions ds') :
    (∀ name, name ∈ actions.map (·.name) ↔
      name ∈ done.map (·.name) ∨ name ∈ drafts.map (·.name)) ∧
    ∀ a ∈ actions, a ∈ done ∨ ∀ body, a.body = .statements body → CodedAll d home body := by
  induction drafts generalizing done ds with
  | nil =>
    cases h
    exact ⟨fun name => by simp, fun a ha => .inl ha⟩
  | cons draft rest ih =>
    rw [Model.buildActions] at h
    obtain ⟨body, ds₁, hbody, h⟩ := Build.bind_eq_ok h
    obtain ⟨hnames, hcoded⟩ := ih h
    refine ⟨?_, ?_⟩
    · intro name
      rw [hnames, Species.names_putAction, List.map_cons, List.mem_cons]
      tauto
    · intro a ha
      rcases hcoded a ha with hput | hbodies
      · rcases Species.mem_putAction hput with rfl | hdone
        · right
          rintro b ⟨⟩
          exact codedAll_of_sequence hbody
        · exact .inl hdone
      · exact .inr hbodies

theorem realizes_of_buildSpecies {draft : SpeciesDraft} {s : Species} {reflex : Sequence}
    {store store' : Store} {ds ds' : List Diagnostic}
    (h : Model.buildSpecies d draft store ds = .ok (s, reflex, store') ds') :
    Realizes d draft s ∧ CodedAll d s.name reflex := by
  unfold Model.buildSpecies at h
  obtain ⟨actions, ds₁, hactions, h⟩ := Build.bind_eq_ok h
  obtain ⟨reflex', ds₂, hreflex, h⟩ := Build.bind_eq_ok h
  cases h
  obtain ⟨hnames, hcoded⟩ := actions_of_buildActions hactions
  refine ⟨⟨rfl, rfl, ?_, ?_⟩, codedAll_of_sequence hreflex⟩
  · intro a ha
    rw [Species.isSome_action?, hnames]
    exact .inr (List.mem_map_of_mem ha)
  · intro a ha
    exact (hcoded a ha).resolve_left (List.not_mem_nil)

namespace World

/-- A species of a new name is registered after all others. -/
theorem putSpecies_of_new {s : Species} {species : List Species}
    (h : s.name ∉ species.map (·.name)) : putSpecies s species = species ++ [s] := by
  induction species with
  | nil => rfl
  | cons t rest ih =>
    simp only [List.map_cons, List.mem_cons, not_or] at h
    rw [putSpecies, if_neg (Ne.symm h.1), ih h.2, List.cons_append]

end World

/-- A species is what building makes of a draft. -/
def Makes (d : ModelDraft) (draft : SpeciesDraft) (s : Species) : Prop :=
  ∃ reflex store store' ds ds',
    Model.buildSpecies d draft store ds = .ok (s, reflex, store') ds'

theorem Makes.realizes {draft : SpeciesDraft} {s : Species} (h : Makes d draft s) :
    Realizes d draft s := by
  obtain ⟨_, _, _, _, _, h⟩ := h
  exact (realizes_of_buildSpecies h).1

/-- The species of a model are those of its draft, in their order. -/
theorem makes_of_buildAll {drafts : List SpeciesDraft} {w w' : World} {store store' : Store}
    {reflexes : List (String × Sequence)} {ds ds' : List Diagnostic}
    (h : Model.buildAll d drafts w store ds = .ok (w', store', reflexes) ds')
    (hnames : (w.species.map (·.name) ++ drafts.map (·.name)).Nodup) :
    (∃ built, w'.species = w.species ++ built ∧ List.Forall₂ (Makes d) drafts built) ∧
      ∀ r ∈ reflexes, CodedAll d r.1 r.2 := by
  induction drafts generalizing w store reflexes ds with
  | nil =>
    cases h
    exact ⟨⟨[], (List.append_nil _).symm, .nil⟩, fun _ hr => nomatch hr⟩
  | cons draft rest ih =>
    rw [Model.buildAll] at h
    obtain ⟨⟨s, reflex, store₁⟩, ds₁, hs, h⟩ := Build.bind_eq_ok h
    obtain ⟨⟨w₁, store₂, reflexes₁⟩, ds₂, hrest, h⟩ := Build.bind_eq_ok h
    cases h
    obtain ⟨hreal, hreflex⟩ := realizes_of_buildSpecies hs
    have hnew : s.name ∉ w.species.map (·.name) := by
      rw [hreal.name]
      intro hmem
      exact (List.nodup_append.mp hnames).2.2 _ hmem _ List.mem_cons_self rfl
    have hreg : (w.register s).species = w.species ++ [s] := World.putSpecies_of_new hnew
    have hnames' : ((w.register s).species.map (·.name) ++ rest.map (·.name)).Nodup := by
      rw [hreg, List.map_append, List.append_assoc]
      simpa [hreal.name] using hnames
    obtain ⟨⟨built, hbuilt, hforall⟩, hreflexes⟩ := ih hrest hnames'
    refine ⟨⟨s :: built, ?_, .cons ⟨_, _, _, _, _, hs⟩ hforall⟩, ?_⟩
    · rw [hbuilt, hreg, List.append_assoc, List.singleton_append]
    · exact List.forall_mem_cons.mpr ⟨hreflex, hreflexes⟩

/-- The code of a model: what runs at the start, what each species does in a step, and the
actions of the species, which are those of the draft. -/
structure Model.IsCode (model : Model) (d : ModelDraft) : Prop where
  init : CodedAll d d.root.name model.init
  reflexes : ∀ r ∈ model.reflexes, CodedAll d r.1 r.2
  species : List.Forall₂ (Realizes d) (d.root :: d.species) model.world.species

/-- Building a model builds the root, then the species and then what runs at the start. -/
theorem steps_of_build {model : Model} (h : Model.build d = .ok model) :
    ∃ root reflex store reflexes ds₁ ds₂ ds₃,
      Model.buildSpecies d d.root .empty [] = .ok (root, reflex, store) ds₁ ∧
      Model.buildAll d d.species (.start root) store ds₁ =
        .ok (model.world, model.store, reflexes) ds₂ ∧
      Build.sequence ⟨some d, some d.root.name⟩ d.init ds₂ = .ok model.init ds₃ ∧
      model.reflexes = (root.name, reflex) :: reflexes := by
  unfold Model.build at h
  split at h
  · rename_i m ds hm
    cases h
    unfold Model.assemble at hm
    cases href : Model.unknownReference? d with
    | some name =>
      rw [href] at hm
      cases hm
    | none =>
      rw [href] at hm
      obtain ⟨⟨root, reflex, store⟩, ds₁, hroot, hm⟩ := Build.bind_eq_ok hm
      obtain ⟨⟨world, store', reflexes⟩, ds₂, hall, hm⟩ := Build.bind_eq_ok hm
      obtain ⟨init, ds₃, hinit, hm⟩ := Build.bind_eq_ok hm
      cases hm
      exact ⟨root, reflex, store, reflexes, _, _, _, hroot, hall, hinit, rfl⟩
  · cases h

/-- What a model is made of. -/
theorem parts_of_build {model : Model} (h : Model.build d = .ok model)
    (hnames : ((d.root :: d.species).map (·.name)).Nodup) :
    CodedAll d d.root.name model.init ∧ (∀ r ∈ model.reflexes, CodedAll d r.1 r.2) ∧
      List.Forall₂ (Makes d) (d.root :: d.species) model.world.species := by
  obtain ⟨root, reflex, store, reflexes, ds₁, ds₂, ds₃, hroot, hall, hinit, heq⟩ :=
    steps_of_build h
  obtain ⟨hreal, hreflex⟩ := realizes_of_buildSpecies hroot
  have hnames' : ((World.start root).species.map (·.name) ++ d.species.map (·.name)).Nodup := by
    simpa [World.start, hreal.name] using hnames
  obtain ⟨⟨built, hbuilt, hforall⟩, hreflexes⟩ := makes_of_buildAll hall hnames'
  refine ⟨codedAll_of_sequence hinit, ?_, ?_⟩
  · rw [heq]
    exact List.forall_mem_cons.mpr ⟨hreflex, hreflexes⟩
  · rw [hbuilt]
    exact .cons ⟨_, _, _, _, _, hroot⟩ hforall

theorem isCode_of_build {model : Model} (h : Model.build d = .ok model)
    (hnames : ((d.root :: d.species).map (·.name)).Nodup) : model.IsCode d := by
  obtain ⟨hinit, hreflexes, hspecies⟩ := parts_of_build h hnames
  exact ⟨hinit, hreflexes, hspecies.imp fun _ _ hmakes => hmakes.realizes⟩

end Habitat
