import Habitat.Proofs.Model.Calls

/-!
# Which action a name means

Building looks for an action in the drafts of species, and a run in the species that were made of
them. Both go up along the parents and take the first action of the name. Drafts keep every action
and every species that was written, in order; species are registered by name, and so are their
actions. The two agree where no name is given twice.

Neither looks at more species than there are, and that is enough (`findActionAt_eq_some_iff`).

* `lookupAt_cases`: as far up as building has looked, a run has found the same.
* `resolutions_agree`: the same action, of the same species, with the same arguments.
-/
namespace Habitat

/-! ## What is made of a draft -/

/-- An action is what building makes of a draft in the code of a species. -/
structure Compiles (d : ModelDraft) (home : String) (draft : ActionDraft) (a : Action) : Prop where
  name : a.name = draft.name
  formals : a.formals = draft.formals
  body : ∃ body ds ds', a.body = .statements body ∧
    Build.sequence ⟨some d, some home⟩ draft.body ds = .ok body ds'

namespace Species

/-- An action of a new name is declared after all others. -/
theorem putAction_of_new {a : Action} {actions : List Action}
    (h : a.name ∉ actions.map (·.name)) : putAction a actions = actions ++ [a] := by
  induction actions with
  | nil => rfl
  | cons b rest ih =>
    simp only [List.map_cons, List.mem_cons, not_or] at h
    rw [putAction, if_neg (Ne.symm h.1), ih h.2, List.cons_append]

end Species

variable {d : ModelDraft}

/-- Actions of different names are made of their drafts, in their order. -/
theorem compiles_of_buildActions {home : String} {drafts : List ActionDraft}
    {done actions : List Action} {ds ds' : List Diagnostic}
    (h : Model.buildActions ⟨some d, some home⟩ drafts done ds = .ok actions ds')
    (hnames : (done.map (·.name) ++ drafts.map (·.name)).Nodup) :
    ∃ built, actions = done ++ built ∧ List.Forall₂ (Compiles d home) drafts built := by
  induction drafts generalizing done ds with
  | nil =>
    cases h
    exact ⟨[], (List.append_nil _).symm, .nil⟩
  | cons draft rest ih =>
    rw [Model.buildActions] at h
    obtain ⟨body, ds₁, hbody, h⟩ := Build.bind_eq_ok h
    have hnew : draft.name ∉ done.map (·.name) := fun hmem =>
      (List.nodup_append.mp hnames).2.2 _ hmem _ List.mem_cons_self rfl
    rw [Species.putAction_of_new hnew] at h
    obtain ⟨built, hbuilt, hforall⟩ := ih h (by simpa using hnames)
    rw [List.append_assoc, List.singleton_append] at hbuilt
    exact ⟨_, hbuilt, .cons ⟨rfl, rfl, body, _, _, rfl, hbody⟩ hforall⟩

theorem Makes.compiles {draft : SpeciesDraft} {s : Species} (h : Makes d draft s)
    (hactions : (draft.actions.map (·.name)).Nodup) :
    List.Forall₂ (Compiles d draft.name) draft.actions s.actions := by
  obtain ⟨reflex, store, store', ds, ds', h⟩ := h
  unfold Model.buildSpecies at h
  obtain ⟨actions, ds₁, hbuilt, h⟩ := Build.bind_eq_ok h
  obtain ⟨reflex', ds₂, -, h⟩ := Build.bind_eq_ok h
  cases h
  obtain ⟨built, rfl, hforall⟩ := compiles_of_buildActions hbuilt (by simpa using hactions)
  exact hforall

/-! ## The nearest declaration -/

/-- The nearest species on the way up from a name that declares an action, with the action. -/
inductive ModelDraft.Nearest (d : ModelDraft) (action : String) :
    String → SpeciesDraft → ActionDraft → Prop
  | own {name : String} {s : SpeciesDraft} {a : ActionDraft} (hs : d.find? name = some s)
      (ha : a ∈ s.actions) (hname : a.name = action) : Nearest d action name s a
  | inherited {name parent : String} {s owner : SpeciesDraft} {a : ActionDraft}
      (hs : d.find? name = some s) (hnone : ∀ b ∈ s.actions, b.name ≠ action)
      (hparent : s.parent = some parent) (h : Nearest d action parent owner a) :
      Nearest d action name owner a

theorem ModelDraft.find?_eq_some {name : String} {s : SpeciesDraft} (h : d.find? name = some s) :
    s ∈ d.root :: d.species ∧ s.name = name := by
  refine ⟨List.mem_of_find?_eq_some h, ?_⟩
  have hname := List.find?_some h
  exact beq_iff_eq.mp hname

theorem ModelDraft.Nearest.unique {action name : String} {s t : SpeciesDraft} {a b : ActionDraft}
    (hactions : ∀ s ∈ d.root :: d.species, (s.actions.map (·.name)).Nodup)
    (h : d.Nearest action name s a) (h' : d.Nearest action name t b) : s = t ∧ a = b := by
  induction h with
  | own hs ha hname =>
    cases h' with
    | own hs' ha' hname' =>
      obtain rfl := Option.some.inj (hs.symm.trans hs')
      refine ⟨rfl, ?_⟩
      exact List.inj_on_of_nodup_map (hactions _ (find?_eq_some hs).1) ha ha'
        (hname.trans hname'.symm)
    | inherited hs' hnone =>
      obtain rfl := Option.some.inj (hs.symm.trans hs')
      exact absurd hname (hnone _ ha)
  | inherited hs hnone hparent _ ih =>
    cases h' with
    | own hs' ha' hname' =>
      obtain rfl := Option.some.inj (hs.symm.trans hs')
      exact absurd hname' (hnone _ ha')
    | inherited hs' _ hparent' h' =>
      obtain rfl := Option.some.inj (hs.symm.trans hs')
      obtain rfl := Option.some.inj (hparent.symm.trans hparent')
      exact ih h'

/-! ## Two ways up -/

/-- What a run finds among the first `n` species on the way up. -/
def World.lookupAt (w : World) (action : String) (n : Nat) (species : String) : Option Action :=
  ((w.ancestryAt n species).filterMap w.find?).findSome? fun s => s.action? action

/-- An action is the one that a species of the world declares. -/
def World.Declares (w : World) (species : String) (a : Action) : Prop :=
  ∃ s, w.find? species = some s ∧ s.action? a.name = some a

theorem World.lookupAt_succ (w : World) (action : String) (n : Nat) (species : String) :
    w.lookupAt action (n + 1) species = (w.find? species).bind fun s =>
      (s.action? action).or (s.parent.bind (w.lookupAt action n)) := by
  unfold lookupAt
  rw [ancestryAt_succ, parent?]
  cases hs : w.find? species with
  | none => simp [hs]
  | some s =>
    simp only [List.filterMap_cons, hs, Option.bind_some, List.findSome?_cons]
    cases s.action? action with
    | some a => rfl
    | none => cases s.parent <;> rfl

theorem Build.findActionAt_succ (d : ModelDraft) (action : String) (n : Nat) (species : String) :
    findActionAt d action (n + 1) species = (d.find? species).bind fun s =>
      (s.actions.find? fun a => a.name == action).or (s.parent.bind (findActionAt d action n)) := by
  rw [findActionAt]
  cases d.find? species with
  | none => rfl
  | some s =>
    dsimp only [Option.bind_some]
    cases s.actions.find? fun a => a.name == action <;> rfl

/-- What building finds is the nearest declaration. -/
theorem nearest_of_findActionAt {action name : String} {n : Nat} {a : ActionDraft}
    (h : Build.findActionAt d action n name = some a) : ∃ owner, d.Nearest action name owner a := by
  induction n generalizing name with
  | zero => cases h
  | succ n ih =>
    rw [Build.findActionAt_succ] at h
    obtain ⟨s, hs, h⟩ := Option.bind_eq_some_iff.mp h
    cases hown : s.actions.find? fun a => a.name == action with
    | some b =>
      rw [hown, Option.some_or] at h
      cases h
      exact ⟨s, .own hs (List.mem_of_find?_eq_some hown) (by simpa using List.find?_some hown)⟩
    | none =>
      rw [hown, Option.none_or] at h
      obtain ⟨parent, hparent, h⟩ := Option.bind_eq_some_iff.mp h
      obtain ⟨owner, howner⟩ := ih h
      exact ⟨owner, .inherited hs (by simpa using List.find?_eq_none.mp hown) hparent howner⟩

section
variable {w : World} (hw : List.Forall₂ (Makes d) (d.root :: d.species) w.species)
include hw

/-- A species is there if its draft is. -/
theorem find?_cases (name : String) : (d.find? name = none ∧ w.find? name = none) ∨
    ∃ draft s, d.find? name = some draft ∧ w.find? name = some s ∧ Makes d draft s :=
  find?_of_forall₂ hw fun _ _ hmakes => by rw [hmakes.realizes.name]

theorem parent?_eq (name : String) : w.parent? name = (d.find? name).bind (·.parent) := by
  rw [World.parent?]
  rcases find?_cases hw name with ⟨hd, hs⟩ | ⟨draft, s, hd, hs, hmakes⟩
  · rw [hd, hs]
    rfl
  · rw [hd, hs]
    exact hmakes.realizes.parent

/-- The nearest declaration is some way up. -/
theorem exists_ancestor?_of_nearest {action name : String} {owner : SpeciesDraft} {a : ActionDraft}
    (h : d.Nearest action name owner a) :
    d.find? owner.name = some owner ∧ a ∈ owner.actions ∧ a.name = action ∧
      ∃ i, w.ancestor? i name = some owner.name := by
  induction h with
  | own hs ha hname =>
    obtain rfl := (ModelDraft.find?_eq_some hs).2
    exact ⟨hs, ha, hname, 0, rfl⟩
  | @inherited name parent s owner a hs _ hparent _ ih =>
    obtain ⟨howner, ha, hname, i, hi⟩ := ih
    refine ⟨howner, ha, hname, i + 1, ?_⟩
    rw [World.ancestor?, parent?_eq hw, hs, Option.bind_some, hparent]
    exact hi

/-- What is declared less than `n` steps up is found. -/
theorem isSome_findActionAt {name : String} {owner : SpeciesDraft} {a : ActionDraft} {i n : Nat}
    (howner : d.find? owner.name = some owner) (ha : a ∈ owner.actions)
    (hi : w.ancestor? i name = some owner.name) (hin : i < n) :
    (Build.findActionAt d a.name n name).isSome := by
  obtain ⟨n, rfl⟩ : ∃ m, n = m + 1 := ⟨n - 1, by omega⟩
  rw [Build.findActionAt_succ]
  induction i generalizing n name with
  | zero =>
    obtain rfl := Option.some.inj hi
    have hfind : (owner.actions.find? fun b => b.name == a.name).isSome := by
      rw [List.find?_isSome]
      exact ⟨a, ha, beq_self_eq_true _⟩
    rw [howner, Option.bind_some, Option.isSome_or, hfind, Bool.true_or]
  | succ i ih =>
    rw [World.ancestor?, parent?_eq hw] at hi
    obtain ⟨parent, hparent, hi⟩ := Option.bind_eq_some_iff.mp hi
    obtain ⟨s, hs, hparent⟩ := Option.bind_eq_some_iff.mp hparent
    obtain ⟨n, rfl⟩ : ∃ m, n = m + 1 := ⟨n - 1, by omega⟩
    rw [hs, Option.bind_some, Option.isSome_or, hparent, Option.bind_some,
      Build.findActionAt_succ, ih hi n (by omega), Bool.or_true]

/-- Looking at as many species as there are finds the nearest declaration. -/
theorem findActionAt_eq_some_iff
    (hactions : ∀ s ∈ d.root :: d.species, (s.actions.map (·.name)).Nodup) {action name : String}
    {n : Nat} (hn : w.species.length ≤ n) {a : ActionDraft} :
    Build.findActionAt d action n name = some a ↔ ∃ owner, d.Nearest action name owner a := by
  refine ⟨nearest_of_findActionAt, ?_⟩
  rintro ⟨owner, hnearest⟩
  obtain ⟨howner, ha, rfl, j, hj⟩ := exists_ancestor?_of_nearest hw hnearest
  have hspecies : owner.name ∈ w.names := by
    rcases find?_cases hw owner.name with ⟨hnone, -⟩ | ⟨_, s, -, hs, -⟩
    · rw [howner] at hnone
      cases hnone
    · exact World.mem_names_of_find? (Option.isSome_of_eq_some hs)
  obtain ⟨i, hi, hancestor⟩ := World.exists_ancestor?_lt hj hspecies
  obtain ⟨b, hb⟩ := Option.isSome_iff_exists.mp
    (isSome_findActionAt hw howner ha hancestor (Nat.lt_of_lt_of_le hi hn))
  obtain ⟨owner', hnearest'⟩ := nearest_of_findActionAt hb
  rw [hb, (hnearest.unique hactions hnearest').2]

/-- As far up as building has looked, a run has found the same. -/
theorem lookupAt_cases
    (hactions : ∀ s ∈ d.root :: d.species, (s.actions.map (·.name)).Nodup) (action : String)
    (n : Nat) (name : String) :
    (Build.findActionAt d action n name = none ∧ w.lookupAt action n name = none) ∨
    ∃ owner a b, d.Nearest action name owner a ∧ Build.findActionAt d action n name = some a ∧
      w.lookupAt action n name = some b ∧ w.Declares owner.name b ∧ Compiles d owner.name a b := by
  induction n generalizing name with
  | zero => exact .inl ⟨rfl, rfl⟩
  | succ n ih =>
    rw [Build.findActionAt_succ, World.lookupAt_succ]
    rcases find?_cases hw name with ⟨hd, hs⟩ | ⟨draft, s, hd, hs, hmakes⟩
    · rw [hd, hs]
      exact .inl ⟨rfl, rfl⟩
    · obtain ⟨hmem, rfl⟩ := ModelDraft.find?_eq_some hd
      rw [hd, hs, Option.bind_some, Option.bind_some]
      have hown : (draft.actions.find? (·.name == action) = none ∧ s.action? action = none) ∨
          ∃ a b, draft.actions.find? (·.name == action) = some a ∧ s.action? action = some b ∧
            Compiles d draft.name a b :=
        find?_of_forall₂ (hmakes.compiles (hactions _ hmem)) fun _ _ h => by rw [h.name]
      rcases hown with ⟨ha, hb⟩ | ⟨a, b, ha, hb, hcompiles⟩
      · -- Neither has it, so both go on with the parent.
        rw [ha, hb, Option.none_or, Option.none_or, hmakes.realizes.parent]
        cases hparent : draft.parent with
        | none => exact .inl ⟨rfl, rfl⟩
        | some parent =>
          refine (ih parent).imp_right ?_
          rintro ⟨owner, a, b, hnearest, hrest⟩
          exact ⟨owner, a, b, .inherited hd (by simpa using ha) hparent hnearest, hrest⟩
      · have hname : a.name = action := by simpa using List.find?_some ha
        rw [ha, hb, Option.some_or, Option.some_or]
        refine .inr ⟨draft, a, b, .own hd (List.mem_of_find?_eq_some ha) hname, rfl, rfl, ?_,
          hcompiles⟩
        rw [← hname, ← hcompiles.name] at hb
        exact ⟨s, hs, hb⟩

/-- A run looks one species farther than building, which makes no difference. -/
theorem findAction_cases
    (hactions : ∀ s ∈ d.root :: d.species, (s.actions.map (·.name)).Nodup)
    (species action : String) :
    ((∀ owner a, ¬ d.Nearest action species owner a) ∧
      Build.findAction d species action = none ∧ w.findAction? species action = none) ∨
    ∃ owner a b, d.Nearest action species owner a ∧
      Build.findAction d species action = some a ∧ w.findAction? species action = some b ∧
      w.Declares owner.name b ∧ Compiles d owner.name a b := by
  have hlength : w.species.length = d.species.length + 1 := by
    rw [← hw.length_eq, List.length_cons]
  have hfar : Build.findAction d species action =
      Build.findActionAt d action (w.species.length + 1) species := by
    refine Option.ext fun a => ?_
    rw [Build.findAction, findActionAt_eq_some_iff hw hactions (Nat.le_of_eq hlength),
      findActionAt_eq_some_iff hw hactions (Nat.le_succ _)]
  rw [hfar]
  rcases lookupAt_cases hw hactions action (w.species.length + 1) species with
    ⟨ha, hb⟩ | hfound
  · refine .inl ⟨fun owner a hnearest => ?_, ha, hb⟩
    rw [(findActionAt_eq_some_iff hw hactions (Nat.le_succ _)).mpr ⟨owner, hnearest⟩] at ha
    cases ha
  · exact .inr hfound

end

/-- What checking a call has found out about its arguments. -/
theorem declared_of_checkCall {species : String} {f : CallFacets} {ds ds' : List Diagnostic}
    (h : Build.checkCall d species f ds = .ok () ds') :
    ∃ a, Build.findAction d species f.action = some a ∧
      ∀ arg ∈ f.args, a.formals.any fun formal => formal.name == arg.1 := by
  unfold Build.checkCall at h
  cases ha : Build.findAction d species f.action with
  | none =>
    rw [ha] at h
    cases h
  | some a =>
    simp only [ha] at h
    refine ⟨a, rfl, ?_⟩
    cases hargs : f.args.find? fun arg => !a.formals.any fun formal => formal.name == arg.1 with
    | some arg =>
      simp only [hargs] at h
      cases h
    | none => simpa using List.find?_eq_none.mp hargs

/-- In a model whose species have different names, and whose species each declare actions of
different names, building and running take the name of an action for the same one: neither finds
any, or both find that of the nearest species on the way up that declares one, with the same
arguments. So a call whose arguments building has accepted gives only arguments that the action
declares when it runs. -/
theorem resolutions_agree {model : Model} (hbuild : Model.build d = .ok model)
    (hnames : ((d.root :: d.species).map (·.name)).Nodup)
    (hactions : ∀ s ∈ d.root :: d.species, (s.actions.map (·.name)).Nodup) (species : String) :
    (∀ action,
      ((∀ owner a, ¬ d.Nearest action species owner a) ∧
        Build.findAction d species action = none ∧
        model.world.findAction? species action = none) ∨
      ∃ owner a b, d.Nearest action species owner a ∧
        Build.findAction d species action = some a ∧
        model.world.findAction? species action = some b ∧
        model.world.Declares owner.name b ∧ Compiles d owner.name a b) ∧
    ∀ f ds ds', Build.checkCall d species f ds = .ok () ds' →
      ∃ b, model.world.findAction? species f.action = some b ∧
        ∀ arg ∈ f.args, b.hasFormal arg.1 = true := by
  obtain ⟨-, -, hw⟩ := parts_of_build hbuild hnames
  refine ⟨findAction_cases hw hactions species, fun f ds ds' hcheck => ?_⟩
  obtain ⟨a, ha, hargs⟩ := declared_of_checkCall hcheck
  rcases findAction_cases hw hactions species f.action with
    ⟨-, hnone, -⟩ | ⟨owner, a', b, -, ha', hb, -, hcompiles⟩
  · rw [ha] at hnone
    cases hnone
  · obtain rfl := Option.some.inj (ha.symm.trans ha')
    refine ⟨b, hb, fun arg harg => ?_⟩
    rw [Action.hasFormal, hcompiles.formals]
    exact hargs arg harg

/-- Sheep are animals. Animals eat what they are given, and sheep graze. -/
def grazingSheep : ModelDraft where
  name := "m"
  root := ⟨"world", none, ["sheep"], false, [], [], []⟩
  species :=
    [⟨"animal", none, [], false, [], [⟨"eat", [⟨"food", .any, none⟩], []⟩], []⟩,
      ⟨"sheep", some "animal", [], false, [], [⟨"graze", [], []⟩],
        [.call ⟨"eat", [("food", .str "grass")], none, none⟩]⟩]
  init := []

/-- A sheep eats as animals do, and can be given food. -/
theorem resolutions_agree_grazingSheep :
    ((grazingSheep.root :: grazingSheep.species).map (·.name)).Nodup ∧
    (∀ s ∈ grazingSheep.root :: grazingSheep.species, (s.actions.map (·.name)).Nodup) ∧
    ∃ model, Model.build grazingSheep = .ok model ∧
      ∃ b, model.world.findAction? "sheep" "eat" = some b ∧
        model.world.Declares "animal" b ∧ b.hasFormal "food" = true := by
  have hnames : ((grazingSheep.root :: grazingSheep.species).map (·.name)).Nodup := by decide
  have hactions : ∀ s ∈ grazingSheep.root :: grazingSheep.species,
      (s.actions.map (·.name)).Nodup := by decide
  refine ⟨hnames, hactions, ?_⟩
  cases hbuild : Model.build grazingSheep with
  | error e =>
    have hbuilds : (Model.build grazingSheep).toOption.isSome := by decide +kernel
    rw [hbuild] at hbuilds
    cases hbuilds
  | ok model =>
    obtain ⟨hagree, hcalls⟩ := resolutions_agree hbuild hnames hactions "sheep"
    obtain ⟨b, hb, hargs⟩ := hcalls ⟨"eat", [("food", .str "grass")], none, none⟩ [] [] rfl
    refine ⟨model, rfl, b, hb, ?_, hargs _ List.mem_cons_self⟩
    rcases hagree "eat" with ⟨-, hnone, -⟩ | ⟨owner, a, b', hnearest, -, hb', hdeclares, -⟩
    · cases hnone
    · obtain rfl := Option.some.inj (hb.symm.trans hb')
      have hanimal : grazingSheep.Nearest "eat" "sheep" _ _ :=
        .inherited rfl (by decide) rfl (.own rfl List.mem_cons_self rfl)
      obtain ⟨rfl, -⟩ := hnearest.unique hactions hanimal
      exact hdeclares

end Habitat
