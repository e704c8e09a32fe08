import Habitat.Model
import Habitat.Proofs.World.Births
import Mathlib.Data.List.Perm.Lattice

/-!
# Who is counted

The live agents of a world are counted by going through the slots species by species, and the root
is counted besides. Nobody who lives is missed, because a live agent stays in the slot of the host
and the species that it has, whatever becomes of the host, and slots are of species of the world
(`Enrolled`).

The count is exact as long as the root lives and has not been moved, nobody is left behind in a slot
of a host that is gone, and no slot has anybody twice (`Orderly`).

* `Enrolled.start`, `Enrolled.register`, `Enrolled.sweep`, `Enrolled.populate`, `Enrolled.move`,
  `Enrolled.of_update`: what the operations on worlds keep.
* `perm_agentsOf`: the slots species by species are the slots.
* `mem_liveAgents`, `eq_root_or_alive`: nobody is missed, and of the dead at most the root is
  counted.
* `listsLive_liveAgents_iff`: when the count is exact.
-/
namespace Habitat.World

/-! ## Names of species -/

theorem names_putSpecies (s : Species) (species : List Species) :
    (putSpecies s species).map (·.name) =
      if s.name ∈ species.map (·.name) then species.map (·.name)
      else species.map (·.name) ++ [s.name] := by
  induction species with
  | nil => rfl
  | cons t rest ih =>
    unfold putSpecies
    by_cases h : t.name = s.name
    · simp [h]
    · rw [if_neg h, List.map_cons, ih]
      by_cases hmem : s.name ∈ rest.map (·.name)
      · have hcons : s.name ∈ (t :: rest).map (·.name) := List.mem_cons_of_mem _ hmem
        rw [if_pos hmem, if_pos hcons, List.map_cons]
      · have hcons : s.name ∉ (t :: rest).map (·.name) := by
          rw [List.map_cons, List.mem_cons]
          exact not_or.mpr ⟨Ne.symm h, hmem⟩
        rw [if_neg hmem, if_neg hcons, List.map_cons, List.cons_append]

/-- No two species of a world have one name. -/
theorem Reachable.nodup_names {w : World} (h : w.Reachable) : (w.species.map (·.name)).Nodup := by
  induction h with
  | start root => exact List.nodup_singleton _
  | @register w s _ ih =>
    rw [World.register, names_putSpecies]
    split
    · exact ih
    · rename_i hmem
      rw [← List.concat_eq_append]
      exact ih.concat hmem
  | sweep _ ih => exact ih
  | change _ hc ih =>
    rw [hc.species_eq]
    exact ih

/-! ## Live agents are where they belong -/

/-- Slots are of species of the world, every live agent but the root has a host, and those that
have one are listed there. -/
structure Enrolled (w : World) : Prop where
  species : ∀ k ∈ slotKeys w.slots, k.2 ∈ w.species.map (·.name)
  hosted : ∀ i, i ≠ w.root.id → (w.agents.get i).dead = false →
    ((w.agents.get i).host).isSome = true
  home : ∀ i h, (w.agents.get i).dead = false → (w.agents.get i).host = some h →
    Lists w.slots h.id (w.agents.get i).species i

theorem Enrolled.start (root : Species) : Enrolled (start root) where
  species k hk := nomatch hk
  hosted i hi hd := by
    have hlt : i < 1 := lt_size_of_alive (w := World.start root) (a := ⟨i, ""⟩) hd
    exact absurd (Nat.lt_one_iff.mp hlt) hi
  home i h hd hh := by
    rw [start_host] at hh
    cases hh

theorem Enrolled.register {w : World} (h : Enrolled w) (s : Species) :
    Enrolled (w.register s) where
  species k hk := by
    have hname := h.species k hk
    rw [World.register, names_putSpecies]
    split
    · exact hname
    · exact List.mem_append_left _ hname
  hosted := h.hosted
  home := h.home

theorem Enrolled.sweep {w : World} (h : Enrolled w) : Enrolled w.sweep where
  species k hk := h.species k ((slotKeys_sweep w).subset hk)
  hosted := h.hosted
  home i x hd hh := lists_sweep.mpr ⟨h.home i x hd hh, hd⟩

/-- Agents may change in all but their host and their species, and die. -/
theorem Enrolled.of_update {w : World} (h : Enrolled w) (a : AgentRef) {f : Agent → Agent}
    (hf : ∀ x, (f x).host = x.host ∧ (f x).species = x.species ∧
      ((f x).dead = false → x.dead = false)) : Enrolled (w.update a f) := by
  have hget : ∀ i, ((w.update a f).agents.get i).host = (w.agents.get i).host ∧
      ((w.update a f).agents.get i).species = (w.agents.get i).species ∧
      (((w.update a f).agents.get i).dead = false → (w.agents.get i).dead = false) := by
    intro i
    have hagent := agent_update w a ⟨i, ""⟩ f
    simp only [agent] at hagent
    rw [hagent]
    split
    · exact hf _
    · exact ⟨rfl, rfl, id⟩
  refine ⟨h.species, fun i hi hd => ?_, fun i x hd hh => ?_⟩
  · obtain ⟨hhost, -, hdead⟩ := hget i
    rw [hhost]
    exact h.hosted i hi (hdead hd)
  · obtain ⟨hhost, hspecies, hdead⟩ := hget i
    rw [hhost] at hh
    rw [hspecies]
    exact h.home i x (hdead hd) hh

theorem Enrolled.forget {w : World} (h : Enrolled w) (held : AgentRef → Bool) (a : AgentRef) :
    Enrolled (w.forget held a) := by
  rcases forget_cases held w a with heq | ⟨x, -, -, -, heq⟩
  · rw [heq]
    exact h
  · rw [heq]
    exact h.of_update x fun _ => ⟨rfl, rfl, id⟩

/-- Joining opens at most a slot of the given species. -/
theorem species_joinSlots {names : List String} {dead : AgentRef → Bool} {host : Nat}
    {species : String} {a : AgentRef} {slots : List Slot}
    (h : ∀ k ∈ slotKeys slots, k.2 ∈ names) (hspecies : species ∈ names) :
    ∀ k ∈ slotKeys (joinSlots dead host species a slots), k.2 ∈ names := by
  intro k hk
  rw [slotKeys_joinSlots] at hk
  split at hk
  · exact h k hk
  · rcases List.mem_append.mp hk with hk | hk
    · exact h k hk
    · rw [List.mem_singleton.mp hk]
      exact hspecies

theorem Enrolled.birth {w : World} (h : Enrolled w) {p : Population} (hp : p.species ∈ w.species)
    (attributes : Record) : Enrolled (w.birth p attributes).2 where
  species := species_joinSlots h.species (List.mem_map_of_mem hp)
  hosted i hi hd := by
    rw [birth_get] at hd ⊢
    split
    · rfl
    · rw [if_neg (by assumption)] at hd
      exact h.hosted i hi hd
  home i x hd hh := by
    rw [birth_get] at hd hh ⊢
    split at hd
    case isTrue hi =>
      subst hi
      rw [if_pos rfl] at hh ⊢
      cases hh
      exact lists_joinSlots_self _ _ _ ⟨w.agents.size, _⟩ _
    case isFalse hi =>
      rw [if_neg hi] at hh ⊢
      refine lists_joinSlots _ _ _ _ (h.home i x hd hh) (.inr fun m hm => ?_)
      subst hm
      exact (congrArg Agent.dead ((birth_get w p attributes m.id).trans (if_neg hi))).trans hd

theorem Enrolled.populate {w : World} (h : Enrolled w) {p : Population} (hp : w.Offers p)
    (s : Store) (inits : List Record) : Enrolled (w.populate s p inits).2.1 :=
  (populate_keeps (P := fun w => Enrolled w ∧ p.species ∈ w.species)
    (fun _ attributes _ hw => ⟨hw.1.birth hw.2 attributes, hw.2⟩) hp.host ⟨h, hp.species⟩ s
    inits).1

theorem Enrolled.move {w : World} (h : Enrolled w) (held : AgentRef → Bool) (s : Store)
    {a : AgentRef} {p : Population} (ha : a.id < w.agents.size) (hp : p.species ∈ w.species) :
    Enrolled (w.move held s a p).1 := by
  have hf := h.forget held a
  refine ⟨?_, fun i hi hd => ?_, fun i x hd hh => ?_⟩
  · rw [move_slots, (within_move held w s a p).species_eq]
    refine species_joinSlots (fun k hk => h.species k ?_) (List.mem_map_of_mem hp)
    rwa [slotKeys_slotsWithout, (slots_forget held w a).1] at hk
  · obtain ⟨attributes, hget⟩ := move_get held w s a p ha i
    rw [hget] at hd ⊢
    split
    · rfl
    · rw [if_neg (by assumption)] at hd
      exact hf.hosted i hi hd
  · obtain ⟨attributes, hget⟩ := move_get held w s a p ha i
    have hdead : (w.move held s a p).1.isDead ⟨i, ""⟩ = false := hd
    rw [hget] at hd hh ⊢
    rw [move_slots]
    split at hd
    case isTrue hi =>
      subst hi
      rw [if_pos rfl] at hh ⊢
      cases hh
      exact lists_joinSlots_self _ _ _ _ _
    case isFalse hi =>
      rw [if_neg hi] at hh ⊢
      refine lists_joinSlots _ _ _ _ ((lists_slotsWithout (Ne.symm hi)).mpr (hf.home i x hd hh))
        (.inr fun m hm => ?_)
      subst hm
      exact hdead

/-! ## The count -/

/-- Of different names only one is a given one. -/
theorem flatMap_ite_eq {α : Type} {names : List String} (hnames : names.Nodup) {name : String}
    (hname : name ∈ names) (xs : List α) :
    (names.flatMap fun k => if name = k then xs else []) = xs := by
  induction names with
  | nil => cases hname
  | cons k ks ih =>
    obtain ⟨hk, hks⟩ := List.nodup_cons.mp hnames
    rw [List.flatMap_cons]
    rcases List.mem_cons.mp hname with rfl | hmem
    · have hnone : (ks.flatMap fun k => if name = k then xs else []) = [] :=
        List.flatMap_eq_nil_iff.mpr fun _ hmem => if_neg fun heq => hk (by rwa [heq])
      rw [if_pos rfl, hnone, List.append_nil]
    · rw [if_neg fun heq => hk (by rwa [← heq]), ih hks hmem, List.nil_append]

/-- Going through things name by name meets each of them once. -/
theorem perm_flatMap_filter {α : Type} (label : α → String) {names : List String}
    (hnames : names.Nodup) {xs : List α} (hxs : ∀ x ∈ xs, label x ∈ names) :
    (names.flatMap fun k => xs.filter (label · == k)).Perm xs := by
  induction xs with
  | nil => simp
  | cons x rest ih =>
    obtain ⟨hx, hrest⟩ := List.forall_mem_cons.mp hxs
    have hcons (k : String) : (x :: rest).filter (label · == k) =
        (if label x = k then [x] else []) ++ rest.filter (label · == k) := by
      by_cases hk : label x = k <;> simp [hk]
    simp only [hcons]
    refine (List.flatMap_append_perm names _ _).symm.trans ?_
    rw [flatMap_ite_eq hnames hx, List.singleton_append]
    exact (ih hrest).cons x

/-- A swept slot lists the live agents of the slot, and no slot goes that lists any. -/
theorem listedIds_sweep_eq (w : World) :
    listedIds w.sweep.slots = (w.slots.flatMap (·.live w.isDead)).map (·.id) := by
  unfold sweep
  dsimp only
  induction w.slots with
  | nil => rfl
  | cons s rest ih =>
    have hlive : (sweepSlot w.isDead s).members.toList = s.live w.isDead := rfl
    rw [List.map_cons, List.filter_cons, List.flatMap_cons, List.map_append, ← ih]
    split
    case isTrue => rw [listedIds, List.flatMap_cons, hlive]; rfl
    case isFalse hempty =>
      have hnil : s.live w.isDead = [] := by
        rw [← hlive]
        simpa using hempty
      rw [hnil, List.map_nil, List.nil_append]

/-- The slots species by species are the slots. -/
theorem perm_agentsOf {w : World} (hw : w.Reachable) (h : w.Enrolled) :
    ((w.speciesNames.flatMap w.agentsOf).map (·.id)).Perm (listedIds w.sweep.slots) := by
  have hperm : w.speciesNames.Perm (w.species.map (·.name)) := List.mergeSort_perm _ _
  have hslots : (w.speciesNames.flatMap fun k => w.slots.filter (·.species == k)).Perm w.slots :=
    perm_flatMap_filter Slot.species (hperm.nodup_iff.mpr hw.nodup_names) fun s hs =>
      hperm.mem_iff.mpr (h.species _ (List.mem_map_of_mem hs))
  rw [listedIds_sweep_eq]
  refine List.Perm.map _ (.trans ?_ (hslots.flatMap_right _))
  rw [List.flatMap_assoc]
  exact .refl _

theorem mem_listedIds_sweep {w : World} {i : Nat} :
    i ∈ listedIds w.sweep.slots ↔
      (w.agents.get i).dead = false ∧ ∃ host species, Lists w.slots host species i := by
  simp only [mem_listedIds, lists_sweep, and_comm, exists_and_left]

/-- A list has the live agents, each once, and nobody else. -/
structure ListsLive (w : World) (as : List AgentRef) : Prop where
  once : (as.map (·.id)).Nodup
  live : ∀ a : AgentRef, a.id ∈ as.map (·.id) ↔ w.isDead a = false

/-- A slot is the one of an agent's host and species. -/
def IsHome (w : World) (s : Slot) (a : AgentRef) : Prop :=
  (w.agent a).host.map (·.id) = some s.host ∧ w.speciesOf a = s.species

/-- The root lives and has not been moved, nobody who has moved on is left behind in a slot of a
host that is gone, and no slot lists a live agent twice. -/
structure Orderly (w : World) : Prop where
  alive : w.isDead w.root = false
  unmoved : (w.agent w.root).host = none
  home : ∀ s ∈ w.slots, (w.agents.get s.host).gone = true → ∀ a ∈ s.live w.isDead, w.IsHome s a
  once : ∀ s ∈ w.slots, ((s.live w.isDead).map (·.id)).Nodup

theorem mem_live {w : World} {s : Slot} {a : AgentRef} :
    a ∈ s.live w.isDead ↔ a ∈ s.members ∧ w.isDead a = false := by
  simp [Slot.live]

theorem lists_of_mem_live {w : World} {s : Slot} (hs : s ∈ w.slots) {a : AgentRef}
    (ha : a ∈ s.live w.isDead) : Lists w.sweep.slots s.host s.species a.id :=
  have ⟨hmem, hdead⟩ := mem_live.mp ha
  lists_sweep.mpr ⟨⟨s, hs, rfl, rfl, a, hmem, rfl⟩, hdead⟩

section
variable {w : World} (hw : w.Reachable)
include hw

/-- In order, every live agent that is listed is at home. -/
theorem Orderly.isHome (ho : w.Orderly) {s : Slot} (hs : s ∈ w.slots) {a : AgentRef}
    (ha : a ∈ s.live w.isDead) : w.IsHome s a := by
  obtain ⟨hlists, -⟩ := lists_sweep.mp (lists_of_mem_live hs ha)
  obtain ⟨-, hgone | hhome⟩ := hw.lineal.listed _ _ _ hlists
  · exact ho.home s hs hgone a ha
  · exact hhome

/-- In order, nobody is listed twice. -/
theorem Orderly.nodup (ho : w.Orderly) : (listedIds w.sweep.slots).Nodup := by
  rw [listedIds_sweep_eq, List.map_flatMap]
  refine List.nodup_flatMap.mpr ⟨ho.once, ?_⟩
  refine List.Pairwise.imp_of_mem ?_ (List.pairwise_map.mp hw.listing.keys)
  intro s t hs ht hne i hi hj
  obtain ⟨a, ha, rfl⟩ := List.mem_map.mp hi
  obtain ⟨b, hb, hid⟩ := List.mem_map.mp hj
  obtain ⟨hhost, hspecies⟩ := ho.isHome hw hs ha
  obtain ⟨hhost', hspecies'⟩ := ho.isHome hw ht hb
  rw [agent, hid, ← agent, hhost] at hhost'
  rw [speciesOf, agent, hid, ← agent, ← speciesOf, hspecies] at hspecies'
  exact hne (Prod.ext (Option.some.inj hhost') hspecies')

variable (h : w.Enrolled)
include h

/-- Whoever lives is the root or is listed. -/
theorem mem_liveAgents {a : AgentRef} (ha : w.isDead a = false) :
    a.id ∈ (Model.liveAgents w).map (·.id) := by
  rw [Model.liveAgents, List.map_cons, List.mem_cons, (perm_agentsOf hw h).mem_iff]
  refine or_iff_not_imp_left.mpr fun hroot => ?_
  obtain ⟨host, hhost⟩ := Option.isSome_iff_exists.mp (h.hosted a.id hroot ha)
  exact mem_listedIds_sweep.mpr ⟨ha, _, _, h.home a.id host ha hhost⟩

/-- Whoever is counted lives or is the root. -/
theorem eq_root_or_alive {a : AgentRef} (ha : a ∈ Model.liveAgents w) :
    a = w.root ∨ w.isDead a = false := by
  refine (List.mem_cons.mp ha).imp_right fun ha => ?_
  have hid := (perm_agentsOf hw h).subset (List.mem_map_of_mem ha)
  exact (mem_listedIds_sweep.mp hid).1

/-- The live agents are counted once each, and nobody else is, exactly if the world is in order. -/
theorem listsLive_liveAgents_iff : w.ListsLive (Model.liveAgents w) ↔ w.Orderly := by
  have hids := perm_agentsOf hw h
  have hnodup : ((Model.liveAgents w).map (·.id)).Nodup ↔
      w.root.id ∉ listedIds w.sweep.slots ∧ (listedIds w.sweep.slots).Nodup := by
    rw [Model.liveAgents, List.map_cons, List.nodup_cons, hids.nodup_iff, hids.mem_iff]
  constructor
  · intro hl
    obtain ⟨hroot, honce⟩ := hnodup.mp hl.once
    have halive : w.isDead w.root = false := (hl.live w.root).mp List.mem_cons_self
    refine ⟨halive, ?_, fun s hs _ a ha => ?_, ?_⟩
    · by_contra hhost
      obtain ⟨x, hx⟩ := Option.ne_none_iff_exists'.mp hhost
      exact hroot (mem_listedIds_sweep.mpr ⟨halive, _, _, h.home _ x halive hx⟩)
    · -- otherwise the slot of the host and the species would list the agent again
      by_contra haway
      have hlists := lists_of_mem_live hs ha
      obtain ⟨-, hdead⟩ := lists_sweep.mp hlists
      have hne : a.id ≠ w.root.id := fun hid => hroot (hid ▸ mem_listedIds.mpr ⟨_, _, hlists⟩)
      obtain ⟨x, hx⟩ := Option.isSome_iff_exists.mp (h.hosted a.id hne hdead)
      refine not_nodup_of_lists hlists
        (lists_sweep.mpr ⟨h.home a.id x hdead hx, hdead⟩) (fun hkey => haway ?_) honce
      exact ⟨by rw [agent, hx, hkey.1]; rfl, hkey.2.symm⟩
    · rw [listedIds_sweep_eq, List.map_flatMap] at honce
      exact (List.nodup_flatMap.mp honce).1
  · intro ho
    refine ⟨hnodup.mpr ⟨fun hroot => ?_, ho.nodup hw⟩,
      fun a => ⟨fun ha => ?_, mem_liveAgents hw h⟩⟩
    · obtain ⟨hdead, _, _, s, hs, -, -, m, hm, hid⟩ := mem_listedIds_sweep.mp hroot
      have hhome := (ho.isHome hw hs (mem_live.mpr ⟨hm, by rw [isDead, agent, hid]; exact hdead⟩)).1
      rw [agent, hid, ← agent, ho.unmoved] at hhome
      cases hhome
    · rw [Model.liveAgents, List.map_cons, List.mem_cons, hids.mem_iff] at ha
      rcases ha with hid | ha
      · rw [isDead, agent, hid]
        exact ho.alive
      · exact (mem_listedIds_sweep.mp ha).1

end
end Habitat.World
