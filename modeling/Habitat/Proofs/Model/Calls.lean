import Habitat.Proofs.Model.Code
import Habitat.Proofs.Run.Hosting
import Mathlib.Data.Finset.Card

/-!
# Calls of actions that are not there

Building a model checks that a `do` without a target names an action of the species whose code it
is, and an `invoke` one of the parent. When the call runs, a `do` looks the action up in the
species of the agent that executes it. The two agree as long as code is executed by agents of the
species it was written for, or of species derived from it. In the body of an `ask` or a `create`
the executing agent is another one, and nothing is known about its species.

`homedSequence` is an interpreter that knows whose code it runs, and does something else, whatever
it is, instead of raising the error of a call that building has promised to succeed. Models cannot
be told from models run that way.

* `World.mem_ancestry_of_reaches`: no ancestor is missed.
* `findAction?_of_findAction`: what building finds is found in every derived species.
* `rel_homedSequence`: sequences of any depth.
* `calls_find_actions`: whole runs of a model.
-/
namespace Habitat

open Exec Discipline

/-! ## Ancestors -/

namespace World

def parent? (w : World) (name : String) : Option String := (w.find? name).bind (·.parent)

/-- A species is another one or derived from it. -/
abbrev Derives (w : World) : String → String → Prop :=
  Relation.ReflTransGen fun a b => w.parent? a = some b

theorem ancestryAt_succ (w : World) (n : Nat) (name : String) :
    w.ancestryAt (n + 1) name = name :: ((w.parent? name).map (w.ancestryAt n)).getD [] := by
  rw [ancestryAt, parent?]
  cases (w.find? name).bind (·.parent) <;> rfl

theorem derives_of_mem_ancestryAt {w : World} {n : Nat} {name ancestor : String}
    (h : ancestor ∈ w.ancestryAt n name) : w.Derives name ancestor := by
  induction n generalizing name with
  | zero => exact nomatch h
  | succ n ih =>
    rw [ancestryAt_succ] at h
    rcases List.mem_cons.mp h with rfl | h
    · exact .refl
    · cases hp : w.parent? name with
      | none =>
        rw [hp] at h
        exact nomatch h
      | some parent =>
        rw [hp] at h
        exact .head hp (ih h)

/-- The ancestor so many steps up. -/
def ancestor? (w : World) : Nat → String → Option String
  | 0, name => some name
  | i + 1, name => (w.parent? name).bind (w.ancestor? i)

theorem ancestor?_add (w : World) (i j : Nat) (name : String) :
    w.ancestor? (i + j) name = (w.ancestor? i name).bind (w.ancestor? j) := by
  induction i generalizing name with
  | zero => simp [ancestor?]
  | succ i ih =>
    rw [Nat.add_right_comm, ancestor?, ancestor?, Option.bind_assoc]
    exact Option.bind_congr fun parent _ => ih parent

theorem mem_ancestryAt_of_ancestor? {w : World} {i n : Nat} {name ancestor : String}
    (h : w.ancestor? i name = some ancestor) (hi : i < n) : ancestor ∈ w.ancestryAt n name := by
  induction i generalizing n name with
  | zero =>
    cases h
    obtain ⟨n, rfl⟩ := Nat.exists_eq_add_of_lt hi
    rw [Nat.zero_add, ancestryAt_succ]
    exact List.mem_cons_self
  | succ i ih =>
    obtain ⟨n, rfl⟩ := Nat.exists_eq_add_of_lt hi
    obtain ⟨parent, hp, hparent⟩ := Option.bind_eq_some_iff.mp h
    rw [ancestryAt_succ, hp]
    exact List.mem_cons_of_mem _ (ih hparent (by omega))

theorem exists_ancestor?_of_derives {w : World} {name ancestor : String}
    (h : w.Derives name ancestor) : ∃ i, w.ancestor? i name = some ancestor := by
  induction h using Relation.ReflTransGen.head_induction_on with
  | refl => exact ⟨0, rfl⟩
  | head hp _ ih =>
    obtain ⟨i, hi⟩ := ih
    exact ⟨i + 1, by rw [ancestor?, hp]; exact hi⟩

/-- The names of the species. -/
abbrev names (w : World) : Finset String := (w.species.map (·.name)).toFinset

theorem mem_names_of_find? {w : World} {name : String} (h : (w.find? name).isSome) :
    name ∈ w.names := by
  obtain ⟨s, hs⟩ := Option.isSome_iff_exists.mp h
  obtain ⟨hmem, hname⟩ := find?_eq_some hs
  exact List.mem_toFinset.mpr (List.mem_map.mpr ⟨s, hmem, hname⟩)

/-- Whoever has an ancestor further up is a species of the world. -/
theorem mem_names_of_ancestor? {w : World} {i j : Nat} {name ancestor : String}
    (h : w.ancestor? j name = some ancestor) (hij : i < j) :
    ∃ x ∈ w.names, w.ancestor? i name = some x := by
  obtain ⟨k, rfl⟩ := Nat.exists_eq_add_of_lt hij
  rw [Nat.add_assoc, ancestor?_add] at h
  obtain ⟨x, hx, hk⟩ := Option.bind_eq_some_iff.mp h
  obtain ⟨parent, hparent, -⟩ := Option.bind_eq_some_iff.mp hk
  obtain ⟨s, hs, -⟩ := Option.bind_eq_some_iff.mp hparent
  exact ⟨x, mem_names_of_find? (Option.isSome_of_eq_some hs), hx⟩

/-- A way up that comes by one species twice can be shortened. -/
theorem ancestor?_shorten {w : World} {i k j : Nat} {name ancestor x : String} (hik : i < k)
    (hkj : k ≤ j) (hi : w.ancestor? i name = some x) (hk : w.ancestor? k name = some x)
    (h : w.ancestor? j name = some ancestor) :
    ∃ j' < j, w.ancestor? j' name = some ancestor := by
  obtain ⟨r, rfl⟩ := Nat.exists_eq_add_of_le hkj
  refine ⟨i + r, by omega, ?_⟩
  rw [ancestor?_add, hk] at h
  rw [ancestor?_add, hi]
  exact h

/-- The way up to a species comes by one species twice unless it is shorter than there are
species. -/
theorem exists_ancestor?_lt {w : World} {j : Nat} {name ancestor : String}
    (h : w.ancestor? j name = some ancestor) (hancestor : ancestor ∈ w.names) :
    ∃ i < w.species.length, w.ancestor? i name = some ancestor := by
  induction j using Nat.strong_induction_on with
  | _ j ih =>
    by_cases hj : j < w.species.length
    · exact ⟨j, hj, h⟩
    · let at? (i : Nat) : String := (w.ancestor? i name).getD ""
      have hat : ∀ i < j + 1, at? i ∈ w.names ∧ w.ancestor? i name = some (at? i) := by
        intro i hi
        rcases Nat.lt_or_eq_of_le (Nat.le_of_lt_succ hi) with hi | rfl
        · obtain ⟨x, hx, hix⟩ := mem_names_of_ancestor? h hi
          simp only [at?, hix, Option.getD_some]
          exact ⟨hx, trivial⟩
        · simp only [at?, h, Option.getD_some]
          exact ⟨hancestor, trivial⟩
      have hcard : w.names.card < (Finset.range (j + 1)).card := by
        refine Nat.lt_of_le_of_lt (List.toFinset_card_le _) ?_
        rw [List.length_map, Finset.card_range]
        omega
      obtain ⟨i, hi, k, hk, hne, heq⟩ := Finset.exists_ne_map_eq_of_card_lt_of_maps_to hcard
        (f := at?) (fun i hi => (hat i (Finset.mem_range.mp hi)).1)
      have hi := Finset.mem_range.mp hi
      have hk := Finset.mem_range.mp hk
      obtain ⟨j', hj', hshort⟩ : ∃ j' < j, w.ancestor? j' name = some ancestor := by
        rcases Nat.lt_or_gt_of_ne hne with hlt | hgt
        · exact ancestor?_shorten hlt (Nat.le_of_lt_succ hk) (hat i hi).2 (heq ▸ (hat k hk).2) h
        · exact ancestor?_shorten hgt (Nat.le_of_lt_succ hi) (hat k hk).2 (heq ▸ (hat i hi).2) h
      exact ih j' hj' hshort

/-- Nor does the way up to a name that no species has get longer than there are species. -/
theorem exists_ancestor?_le {w : World} {j : Nat} {name ancestor : String}
    (h : w.ancestor? j name = some ancestor) :
    ∃ i ≤ w.species.length, w.ancestor? i name = some ancestor := by
  cases j with
  | zero => exact ⟨0, Nat.zero_le _, h⟩
  | succ j =>
    obtain ⟨x, hx, hjx⟩ := mem_names_of_ancestor? h (Nat.lt_succ_self j)
    obtain ⟨i, hi, hix⟩ := exists_ancestor?_lt hjx hx
    refine ⟨i + 1, hi, ?_⟩
    rw [ancestor?_add, hjx] at h
    rw [ancestor?_add, hix]
    exact h

/-- No ancestor is missed. -/
theorem mem_ancestry_of_derives {w : World} {name ancestor : String}
    (h : w.Derives name ancestor) : ancestor ∈ w.ancestry name := by
  obtain ⟨j, hj⟩ := exists_ancestor?_of_derives h
  obtain ⟨i, hi, hancestor⟩ := exists_ancestor?_le hj
  exact mem_ancestryAt_of_ancestor? hancestor (Nat.lt_succ_of_le hi)

/-! ## Actions -/

/-- An action of a species or of its nearest ancestor that has it, with the one that declares
it. -/
def findOwned? (w : World) (species action : String) : Option (Species × Action) :=
  (w.lineage species).findSome? fun s => (s.action? action).map (s, ·)

theorem findAction?_eq_map (w : World) (species action : String) :
    w.findAction? species action = (w.findOwned? species action).map (·.2) := by
  rw [findAction?, findOwned?, List.map_findSome?]
  congr
  funext s
  rw [Function.comp_apply]
  cases s.action? action <;> rfl

theorem findOwned?_eq_some {w : World} {species action : String} {s : Species} {a : Action}
    (h : w.findOwned? species action = some (s, a)) : s ∈ w.species ∧ a ∈ s.actions := by
  obtain ⟨t, ht, h⟩ := List.exists_of_findSome?_eq_some h
  obtain ⟨b, hb, heq⟩ := Option.map_eq_some_iff.mp h
  cases heq
  obtain ⟨name, -, hname⟩ := List.mem_filterMap.mp ht
  exact ⟨(find?_eq_some hname).1, List.mem_of_find?_eq_some hb⟩

/-- A species has the actions of those it derives from. -/
theorem isSome_findOwned?_of_derives {w : World} {species ancestor action : String} {s : Species}
    (h : w.Derives species ancestor) (hs : w.find? ancestor = some s)
    (ha : (s.action? action).isSome) : (w.findOwned? species action).isSome := by
  rw [findOwned?, List.findSome?_isSome_iff]
  refine ⟨s, List.mem_filterMap.mpr ⟨ancestor, mem_ancestry_of_derives h, hs⟩, ?_⟩
  rw [Option.isSome_map]
  exact ha

end World

/-- Searching two lists for what corresponds finds what corresponds. -/
theorem find?_of_forall₂ {α β : Type} {R : α → β → Prop} {p : α → Bool} {q : β → Bool}
    {as : List α} {bs : List β} (h : List.Forall₂ R as bs) (hpq : ∀ a b, R a b → p a = q b) :
    (as.find? p = none ∧ bs.find? q = none) ∨
      ∃ a b, as.find? p = some a ∧ bs.find? q = some b ∧ R a b := by
  induction h with
  | nil => exact .inl ⟨rfl, rfl⟩
  | @cons a b as bs hab _ ih =>
    rw [List.find?_cons, List.find?_cons, hpq a b hab]
    cases q b with
    | true => exact .inr ⟨a, b, rfl, rfl, hab⟩
    | false => exact ih

/-- Species are found where their drafts are. -/
theorem find?_of_realizes {d : ModelDraft} {drafts : List SpeciesDraft} {species : List Species}
    (h : List.Forall₂ (Realizes d) drafts species) {name : String} {draft : SpeciesDraft}
    (hfind : (drafts.find? fun s => s.name == name) = some draft) :
    ∃ s, (species.find? fun s => s.name == name) = some s ∧ Realizes d draft s := by
  have hpq : ∀ a b, Realizes d a b → (a.name == name) = (b.name == name) :=
    fun _ _ hreal => by rw [hreal.name]
  rcases find?_of_forall₂ h hpq with ⟨hnone, -⟩ | ⟨a, s, ha, hs, hreal⟩
  · rw [hfind] at hnone
    cases hnone
  · obtain rfl := Option.some.inj (hfind.symm.trans ha)
    exact ⟨s, hs, hreal⟩

theorem exists_draft_of_mem {d : ModelDraft} {drafts : List SpeciesDraft} {species : List Species}
    (h : List.Forall₂ (Realizes d) drafts species) {s : Species} (hs : s ∈ species) :
    ∃ draft, Realizes d draft s := by
  induction h with
  | nil => exact nomatch hs
  | cons hreal _ ih =>
    rcases List.mem_cons.mp hs with rfl | hs
    · exact ⟨_, hreal⟩
    · exact ih hs

section
variable {d : ModelDraft} {w : World}
  (hw : List.Forall₂ (Realizes d) (d.root :: d.species) w.species)
include hw

/-- What building finds, some ancestor of the species has. -/
theorem exists_owner_of_findActionAt {action : String} {n : Nat} {home : String} {a : ActionDraft}
    (h : Build.findActionAt d action n home = some a) :
    ∃ ancestor s, w.Derives home ancestor ∧ w.find? ancestor = some s ∧
      (s.action? action).isSome := by
  induction n generalizing home with
  | zero => cases h
  | succ n ih =>
    rw [Build.findActionAt] at h
    cases hfind : d.find? home with
    | none =>
      rw [hfind] at h
      cases h
    | some draft =>
      rw [hfind] at h
      obtain ⟨s, hs, hreal⟩ : ∃ s, w.find? home = some s ∧ Realizes d draft s :=
        find?_of_realizes hw hfind
      cases hown : draft.actions.find? fun a => a.name == action with
      | some b =>
        refine ⟨home, s, .refl, hs, ?_⟩
        have hname : b.name = action := by simpa using List.find?_some hown
        rw [← hname]
        exact hreal.actions b (List.mem_of_find?_eq_some hown)
      | none =>
        simp only [hown] at h
        obtain ⟨parent, hparent, h⟩ := Option.bind_eq_some_iff.mp h
        obtain ⟨ancestor, t, hderives, ht⟩ := ih h
        refine ⟨ancestor, t, .head ?_ hderives, ht⟩
        rw [World.parent?, hs, Option.bind_some, hreal.parent, hparent]

/-- What building finds in a species is there in all that derive from it. -/
theorem isSome_findOwned?_of_findAction {species home action : String}
    (h : (Build.findAction d home action).isSome) (hkind : w.Derives species home) :
    (w.findOwned? species action).isSome := by
  obtain ⟨a, ha⟩ := Option.isSome_iff_exists.mp h
  obtain ⟨ancestor, s, hderives, hs, hs'⟩ := exists_owner_of_findActionAt hw ha
  exact World.isSome_findOwned?_of_derives (hkind.trans hderives) hs hs'

/-- A call whose action is missing has been promised nothing. -/
theorem unpromised_of_findOwned?_eq_none {home : String} {c : ActionCall} (hc : Checked d home c)
    {agent : AgentRef}
    (hnone : w.findOwned? (c.species.getD (w.speciesOf agent)) c.action = none) :
    (c.species.isNone && (c.target.isSome ||
      !w.isKindOf (c.species.getD (w.speciesOf agent)) home)) = true := by
  unfold Checked at hc
  cases hsp : c.species with
  | some parent =>
    rw [hsp] at hc hnone
    have hfound := isSome_findOwned?_of_findAction hw hc (.refl : w.Derives parent parent)
    rw [show w.findOwned? parent c.action = none from hnone] at hfound
    cases hfound
  | none =>
    rw [hsp] at hc hnone
    cases htarget : c.target with
    | some target => rfl
    | none =>
      cases hkind : w.isKindOf ((none : Option String).getD (w.speciesOf agent)) home with
      | false => rfl
      | true =>
        have hderives := World.derives_of_mem_ancestryAt (List.contains_iff_mem.mp hkind)
        have hfound := isSome_findOwned?_of_findAction hw (hc htarget) hderives
        rw [hnone] at hfound
        cases hfound

/-- The bodies of actions are code of the species that declares them. -/
theorem codedAll_of_findOwned? {species name : String} {owner : Species} {action : Action}
    (h : w.findOwned? species name = some (owner, action)) {body : Sequence}
    (hbody : action.body = .statements body) : CodedAll d owner.name body := by
  obtain ⟨howner, haction⟩ := World.findOwned?_eq_some h
  obtain ⟨draft, hreal⟩ := exists_draft_of_mem hw howner
  exact hreal.coded action haction body hbody

end

/-! ## Species stay -/

/-- Worlds with these species. -/
def Discipline.staffed (species : List Species) : Discipline :=
  ofWorld fun w => w.species = species

theorem staffed_sound (species : List Species) : Sound (staffed species) where
  toLawful := ofWorld_lawful _
  world _ _ hs h := h.within.species_eq.trans hs
  signal _ _ hs := hs
  record _ _ hs := hs

/-! ## Calls -/

namespace Exec

/-- Calls an action from the code of a species. The body of the action is code of the species that
declares it. Does `alarm` where building has promised that the action is there. -/
def callFrom (alarm : Exec Value) (run : String → Sequence → Exec Value) (home : String)
    (c : ActionCall) : Exec Value := do
  let (agent, caller) ← callee c.target
  let w := (← machine).world
  if w.isDead agent then return .nil
  let species := c.species.getD (w.speciesOf agent)
  match w.findOwned? species c.action with
  | none =>
    if c.species.isNone && (c.target.isSome || !w.isKindOf species home) then
      fail (.unknownAction c.action species)
    else alarm
  | some (owner, action) =>
    let args ← Arguments.bind c.args action.formals
    let v ← withAgent agent (invokeWith runNative (run owner.name) action args caller)
    store c.returns v
    return v

/-- Runs a statement in the code of a species. -/
def homedStatement (alarm : Exec Value) (fuel : Nat) (run : String → Sequence → Exec Value)
    (home : String) : Statement → Exec Value
  | .call c => callFrom alarm run home c
  | st => statement fuel (run home) st

/-- Runs a sequence that is code of a species. -/
def homedSequence (alarm : Exec Value) : Nat → String → Sequence → Exec Value
  | 0, _, _ => throw .outOfFuel
  | n + 1, home, body => steps (homedStatement alarm n (homedSequence alarm n) home) body .nil

end Exec

section
variable {d : ModelDraft} {species : List Species}
  (hspecies : List.Forall₂ (Realizes d) (d.root :: d.species) species) (alarm : Exec Value)
include hspecies

theorem rel_callFrom {run : Sequence → Exec Value} {run' : String → Sequence → Exec Value}
    (hrun : ∀ home body, CodedAll d home body → (staffed species).Rel (run body) (run' home body))
    {home : String} {c : ActionCall} (hc : Checked d home c) :
    (staffed species).Rel (runCall runNative run c) (callFrom alarm run' home c) := by
  have S := staffed_sound species
  have L := S.lawful
  refine (L.safe_callee c.target).bind L fun r s hs => ?_
  refine At.bind L (L.safe_machine s hs) fun m t hm => ?_
  cases hm
  obtain rfl : s.machine.world.species = species := hs
  refine Rel.ite (fun _ => L.safe_pure _) (fun _ => ?_) s rfl
  dsimp only
  rw [World.findAction?_eq_map]
  cases hfind : s.machine.world.findOwned? (c.species.getD (s.machine.world.speciesOf r.1))
      c.action with
  | none =>
    rw [if_pos (unpromised_of_findOwned?_eq_none hspecies hc hfind)]
    exact L.safe_fail fun _ => nofun
  | some found =>
    obtain ⟨owner, action⟩ := found
    refine (L.safe_bind c.args _).bind L fun args => ?_
    have hinvoke := S.active.rel_invokeWith (runNative_homely.safe _) action
      (fun body hbody => hrun owner.name body (codedAll_of_findOwned? hspecies hfind hbody))
      args r.2
    refine (Rel.withAgent L r.1 hinvoke).bind L fun v => ?_
    exact (L.safe_store c.returns v).bind L fun _ => L.safe_pure v

/-- Code of a species runs as it does when nothing is promised. -/
theorem rel_homedSequence (n : Nat) {home : String} {body : Sequence} (h : CodedAll d home body) :
    (staffed species).Rel (sequence n body) (homedSequence alarm n home body) := by
  have S := staffed_sound species
  induction n generalizing home body with
  | zero => exact S.lawful.safe_throw_outOfFuel
  | succ n ih =>
    refine S.active.rel_steps_of_mem (fun st hst => ?_) .nil
    obtain ⟨hinside, hcall⟩ := (h st hst).inside
    have hrun := fun body hbody => ih (hinside body hbody)
    cases st with
    | call c => exact rel_callFrom hspecies alarm (fun _ _ => ih) (hcall c rfl)
    | _ => exact S.rel_statementWith_of_bodies n hrun nofun

end
/-! ## Runs -/

namespace Machine

/-- Runs a sequence for an agent, in a given way. -/
def runForWith (run : Sequence → Exec Value) (m : Machine) (body : Sequence) (a : AgentRef) :
    Outcome × Machine :=
  if m.world.isDead a then (.stopped .die .nil, m) else
  match run body ⟨.start a a.name, m⟩ with
  | .ok v s => (if s.scope.flow = .normal then .completed v else .stopped s.scope.flow v, s.machine)
  | .error (.error e) s => (.failed e, s.machine)
  | .error .outOfFuel s => (.unfinished, s.machine)

/-- Runs a sequence for agents one after another, in a given way. -/
def runForEachWith (run : Sequence → Exec Value) (body : Sequence) :
    List AgentRef → Machine → List (AgentRef × Outcome) × Machine
  | [], m => ([], m)
  | a :: rest, m =>
    if m.cancelled then ([], m) else
    let (o, m) := m.runForWith run body a
    let (os, m) := m.holding (.agent a :: o.holdings) (runForEachWith run body rest)
    ((a, o) :: os, m)

/-- Runs a sequence for every live agent of a species, in a given way. -/
def stepSpeciesWith (run : Sequence → Exec Value) (m : Machine) (species : String)
    (body : Sequence) : List (AgentRef × Outcome) × Machine :=
  let m := if m.policy.sweeps then { m with world := m.world.sweep } else m
  let as := m.world.agentsOf species
  m.holding (as.map .agent) (runForEachWith run body as)

variable {species : List Species} {run : Sequence → Exec Value} {body : Sequence}
  (hrel : (staffed species).Rel (Exec.sequence fuel body) (run body))
include hrel

theorem runFor_agree {m : Machine} (hm : m.world.species = species) (a : AgentRef) :
    m.runForWith run body a = m.runFor body a ∧ (m.runFor body a).2.world.species = species := by
  obtain ⟨hsame, hkept, -⟩ := hrel ⟨.start a a.name, m⟩ hm
  unfold runForWith runFor
  rw [hsame]
  split
  · exact ⟨rfl, hm⟩
  · refine ⟨rfl, ?_⟩
    cases h : Exec.sequence fuel body ⟨.start a a.name, m⟩ with
    | ok v s =>
      rw [after_ok h] at hkept
      exact hkept
    | error e s =>
      rw [after_error h] at hkept
      cases e <;> exact hkept

theorem runForEach_agree (as : List AgentRef) {m : Machine} (hm : m.world.species = species) :
    runForEachWith run body as m = runForEach body as m ∧
      (runForEach body as m).2.world.species = species := by
  induction as generalizing m with
  | nil => exact ⟨rfl, hm⟩
  | cons a rest ih =>
    obtain ⟨hsame, hkept⟩ := runFor_agree hrel hm a
    unfold runForEachWith runForEach
    rw [hsame]
    split
    · exact ⟨rfl, hm⟩
    · obtain ⟨hsame', hkept'⟩ := ih (m := { (m.runFor body a).2 with
        held := (.agent a :: (m.runFor body a).1.holdings) :: (m.runFor body a).2.held }) hkept
      exact ⟨by simp only [holding, hsame'], hkept'⟩

theorem stepSpecies_agree {m : Machine} (hm : m.world.species = species) (name : String) :
    m.stepSpeciesWith run name body = m.stepSpecies name body ∧
      (m.stepSpecies name body).2.world.species = species := by
  unfold stepSpeciesWith stepSpecies holding
  have hswept : (if m.policy.sweeps then { m with world := m.world.sweep } else m).world.species =
      species := by
    split <;> exact hm
  generalize (if m.policy.sweeps then { m with world := m.world.sweep } else m) = m' at *
  obtain ⟨hsame, hkept⟩ := runForEach_agree hrel (m'.world.agentsOf name)
    (m := { m' with held := (m'.world.agentsOf name).map .agent :: m'.held }) hswept
  exact ⟨by simp only [hsame], hkept⟩

end Machine

namespace Model

/-- Runs the start of the model, in a given way. -/
def beginWith (run : Sequence → Exec Value) (model : Model) (m : Machine) : Outcome × Machine :=
  m.runForWith run model.init m.world.root

/-- Runs the parts of a step, in a way that may depend on the species. -/
def stepAllWith (run : String → Sequence → Exec Value) :
    List (String × Sequence) → Machine → List (AgentRef × Outcome) × Machine
  | [], m => ([], m)
  | (species, reflex) :: rest, m =>
    let root := m.world.root
    let (os, m) :=
      if reflex.isEmpty then ([], m)
      else if species = m.world.speciesOf root then
        let (o, m) := m.runForWith (run species) reflex root
        ([(root, o)], m)
      else m.stepSpeciesWith (run species) species reflex
    let (more, m) := m.holding (os.flatMap fun (a, o) => .agent a :: o.holdings)
      (stepAllWith run rest)
    (os ++ more, m)

/-- Runs one step, in a way that may depend on the species. -/
def stepWith (run : String → Sequence → Exec Value) (model : Model) (m : Machine) :
    List (AgentRef × Outcome) × Machine :=
  stepAllWith run model.reflexes { m with world := m.world.sweep }

/-- The machine after the start of the model and so many steps. -/
def after (model : Model) (config : Config) : Nat → Machine
  | 0 => (model.begin (model.machine config)).2
  | k + 1 => (model.step (model.after config k)).2

theorem stepAll_agree {species : List Species} {run : String → Sequence → Exec Value}
    {reflexes : List (String × Sequence)}
    (hrel : ∀ r ∈ reflexes, (staffed species).Rel (Exec.sequence Machine.fuel r.2) (run r.1 r.2))
    {m : Machine} (hm : m.world.species = species) :
    stepAllWith run reflexes m = stepAll reflexes m ∧
      (stepAll reflexes m).2.world.species = species := by
  induction reflexes generalizing m with
  | nil => exact ⟨rfl, hm⟩
  | cons r rest ih =>
    obtain ⟨hfirst, hrest⟩ := List.forall_mem_cons.mp hrel
    obtain ⟨name, reflex⟩ := r
    -- Whichever part ran, the others follow it on a machine with the same species.
    have hgoes : ∀ (os : List (AgentRef × Outcome)) (m : Machine), m.world.species = species →
        let vs := os.flatMap fun (a, o) => Value.agent a :: o.holdings
        let d := m.holding vs (stepAll rest)
        (os ++ (m.holding vs (stepAllWith run rest)).1, (m.holding vs (stepAllWith run rest)).2) =
            (os ++ d.1, d.2) ∧ d.2.world.species = species := by
      intro os m hm vs
      obtain ⟨hsame, hkept⟩ := ih hrest (m := { m with held := vs :: m.held }) hm
      exact ⟨by simp only [Machine.holding, hsame], hkept⟩
    obtain ⟨hroot, hrootKept⟩ := Machine.runFor_agree hfirst hm m.world.root
    obtain ⟨hspecies, hspeciesKept⟩ := Machine.stepSpecies_agree hfirst hm name
    unfold stepAllWith stepAll
    simp only at hroot hspecies ⊢
    rw [hroot, hspecies]
    split
    · exact hgoes [] m hm
    · split
      · exact hgoes _ _ hrootKept
      · exact hgoes _ _ hspeciesKept

end Model

/-- In every run of a model whose species have different names, from its start and through any
number of steps: an `invoke` always finds its action, and a `do` without a target does whenever the
agent that executes it is of the species whose code it is, or of one derived from it. -/
theorem calls_find_actions {d : ModelDraft} {model : Model} (hbuild : Model.build d = .ok model)
    (hnames : ((d.root :: d.species).map (·.name)).Nodup) (config : Config) (alarm : Exec Value) :
    let run := homedSequence alarm Machine.fuel
    model.beginWith (run d.root.name) (model.machine config) =
        model.begin (model.machine config) ∧
      ∀ k, model.stepWith run (model.after config k) = model.step (model.after config k) := by
  intro run
  have hcode := isCode_of_build hbuild hnames
  have hbegin := Machine.runFor_agree
    (rel_homedSequence hcode.species alarm Machine.fuel hcode.init) (m := model.machine config) rfl
  have hstep : ∀ m : Machine, m.world.species = model.world.species →
      model.stepWith run m = model.step m ∧
        (model.step m).2.world.species = model.world.species := fun m hm =>
    Model.stepAll_agree (m := { m with world := m.world.sweep }) (fun r hr =>
      rel_homedSequence hcode.species alarm Machine.fuel (hcode.reflexes r hr)) hm
  have hafter : ∀ k, (model.after config k).world.species = model.world.species := by
    intro k
    induction k with
    | zero => exact (hbegin (model.machine config).world.root).2
    | succ k ih => exact (hstep _ ih).2
  exact ⟨(hbegin _).1, fun k => (hstep _ (hafter k)).1⟩

/-- The root, which can `tick`, creates a sheep, which cannot, and has it `tick`. -/
def tickingRoot : ModelDraft where
  name := "m"
  root := ⟨"world", none, ["sheep"], false, [], [⟨"tick", [], []⟩], []⟩
  species := [⟨"sheep", none, [], false, [], [], []⟩]
  init := [.create ⟨some (.species "sheep"), some (.int 1), none, [], none, none⟩
    [.call ⟨"tick", [], none, none⟩]]

/-- Building accepts the call, and the run reports that there is no such action. -/
theorem calls_find_actions_tickingRoot :
    ((tickingRoot.root :: tickingRoot.species).map (·.name)).Nodup ∧
    ∃ model, Model.build tickingRoot = .ok model ∧
      (∀ alarm, model.beginWith (homedSequence alarm Machine.fuel "world")
        (model.machine .standard) = model.begin (model.machine .standard)) ∧
      (model.begin (model.machine .standard)).2.reports.map (fun r => (r.message, r.agent)) =
        [((ExecError.unknownAction "tick" "sheep").message, some "sheep0")] := by
  refine ⟨by decide, ?_⟩
  have hrun : ((Model.build tickingRoot).toOption.map fun model =>
      (model.begin (model.machine .standard)).2.reports.map fun r => (r.message, r.agent)) =
      some [((ExecError.unknownAction "tick" "sheep").message, some "sheep0")] := by
    decide +kernel
  cases h : Model.build tickingRoot with
  | error e =>
    rw [h] at hrun
    cases hrun
  | ok model =>
    rw [h] at hrun
    refine ⟨model, rfl, fun alarm => ?_, Option.some.inj hrun⟩
    exact (calls_find_actions h (by decide) .standard alarm).1

end Habitat
