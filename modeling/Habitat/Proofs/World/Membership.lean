import Habitat.Proofs.World.Change
import Mathlib.Data.List.Flatten
import Mathlib.Data.List.Nodup
import Mathlib.Data.List.Pairwise

/-!
# Where agents are listed

Membership is recorded twice: a slot lists its members, and an agent knows its host and its
species. The two agree (`Filed`) as long as every agent that is moved out of a slot still knows
its host. A *blind* move, of an agent whose host died and is held by nothing, leaves the agent in
its old slot and lists it a second time.

* `Filed.birth`, `Filed.move`, `Filed.sweep`, `Filed.kill`: every operation keeps the records in
  agreement, blind moves apart.
* `Filed.not_nodup_move`: a blind move lists an agent twice.
* `Filed.housed_along_iff`: along a run, memberships are in order in every state if and only if no
  move is blind.
-/
namespace Habitat.World

/-! ## Slots -/

/-- The numbers of all agents that are listed, as often as they are. -/
def listedIds (slots : List Slot) : List Nat :=
  slots.flatMap fun s => s.members.toList.map (·.id)

/-- What a slot is for. -/
def slotKeys (slots : List Slot) : List (Nat × String) := slots.map fun s => (s.host, s.species)

/-- The slot of a host and a species lists an agent. -/
def Lists (slots : List Slot) (host : Nat) (species : String) (i : Nat) : Prop :=
  ∃ s ∈ slots, s.host = host ∧ s.species = species ∧ ∃ m ∈ s.members, m.id = i

theorem mem_listedIds {slots : List Slot} {i : Nat} :
    i ∈ listedIds slots ↔ ∃ host species, Lists slots host species i := by
  simp only [listedIds, Lists, List.mem_flatMap, List.mem_map, Array.mem_toList_iff]
  constructor
  · intro hx
    obtain ⟨s, hs, m, hm, rfl⟩ := hx
    exact ⟨s.host, s.species, s, hs, rfl, rfl, m, hm, rfl⟩
  · intro hx
    obtain ⟨_, _, s, hs, -, -, m, hm, rfl⟩ := hx
    exact ⟨s, hs, m, hm, rfl⟩

theorem lists_cons {s : Slot} {rest : List Slot} {host : Nat} {species : String} {i : Nat} :
    Lists (s :: rest) host species i ↔
      (s.host = host ∧ s.species = species ∧ ∃ m ∈ s.members, m.id = i) ∨
        Lists rest host species i := by
  simp only [Lists, List.mem_cons, exists_eq_or_imp]

/-! ### Joining -/

/-- A full slot may forget its dead before another agent joins. -/
theorem joinSlot_members (dead : AgentRef → Bool) (a : AgentRef) (s : Slot) :
    ∃ kept : Array AgentRef, (joinSlot dead a s).members = kept.push a ∧
      kept.toList.Sublist s.members.toList ∧ ∀ m ∈ s.members, dead m = false → m ∈ kept := by
  unfold joinSlot
  dsimp only
  split
  · refine ⟨s.members.filter fun m => !dead m, rfl, ?_, ?_⟩
    · rw [Array.toList_filter]
      exact List.filter_sublist
    · intro m hm hd
      exact Array.mem_filter.mpr ⟨hm, by simp [hd]⟩
  · exact ⟨s.members, rfl, List.Sublist.refl _, fun m hm _ => hm⟩

theorem joinSlot_key (dead : AgentRef → Bool) (a : AgentRef) (s : Slot) :
    (joinSlot dead a s).host = s.host ∧ (joinSlot dead a s).species = s.species := by
  unfold joinSlot
  dsimp only
  split <;> exact ⟨rfl, rfl⟩

section
variable (dead : AgentRef → Bool) (host : Nat) (species : String) (a : AgentRef)

/-- No slot gets a second one of its key. -/
theorem slotKeys_joinSlots (slots : List Slot) :
    slotKeys (joinSlots dead host species a slots) =
      if (host, species) ∈ slotKeys slots then slotKeys slots
      else slotKeys slots ++ [(host, species)] := by
  induction slots with
  | nil => rfl
  | cons s rest ih =>
    unfold joinSlots
    split
    case isTrue h =>
      obtain ⟨rfl, rfl⟩ := h
      obtain ⟨hh, hs⟩ := joinSlot_key dead a s
      simp [slotKeys, hh, hs]
    case isFalse h =>
      have hne : (host, species) ≠ (s.host, s.species) := by
        intro hx
        cases hx
        exact h ⟨rfl, rfl⟩
      have hcons : ∀ l : List Slot, slotKeys (s :: l) = (s.host, s.species) :: slotKeys l :=
        fun _ => rfl
      rw [hcons, hcons, ih]
      by_cases hm : (host, species) ∈ slotKeys rest
      · rw [if_pos hm, if_pos (List.mem_cons_of_mem _ hm)]
      · rw [if_neg hm, if_neg (by simp [hne, hm]), List.cons_append]

theorem nodup_slotKeys_joinSlots {slots : List Slot} (h : (slotKeys slots).Nodup) :
    (slotKeys (joinSlots dead host species a slots)).Nodup := by
  rw [slotKeys_joinSlots]
  split
  · exact h
  · rename_i hn
    refine List.nodup_append.mpr ⟨h, List.nodup_singleton _, ?_⟩
    intro k hk k' hk' hx
    subst hx
    rw [List.mem_singleton.mp hk'] at hk
    exact hn hk

/-- Joining lists the agent once more, and some of those that were listed before. -/
theorem listedIds_joinSlots (slots : List Slot) :
    ∃ kept, kept.Sublist (listedIds slots) ∧
      (listedIds (joinSlots dead host species a slots)).Perm (a.id :: kept) := by
  induction slots with
  | nil => exact ⟨[], List.Sublist.refl _, List.Perm.refl _⟩
  | cons s rest ih =>
    unfold joinSlots
    split
    · obtain ⟨kept, hm, hsub, -⟩ := joinSlot_members dead a s
      refine ⟨kept.toList.map (·.id) ++ listedIds rest, ?_, ?_⟩
      · exact (hsub.map _).append (List.Sublist.refl _)
      · simp only [listedIds, List.flatMap_cons, hm, Array.toList_push, List.map_append,
          List.map_cons, List.map_nil, List.append_assoc, List.singleton_append]
        exact List.perm_middle
    · obtain ⟨kept, hsub, hperm⟩ := ih
      refine ⟨s.members.toList.map (·.id) ++ kept, (List.Sublist.refl _).append hsub, ?_⟩
      exact (hperm.append_left _).trans List.perm_middle

theorem nodup_listedIds_joinSlots {slots : List Slot} (h : (listedIds slots).Nodup)
    (ha : a.id ∉ listedIds slots) : (listedIds (joinSlots dead host species a slots)).Nodup := by
  obtain ⟨kept, hsub, hperm⟩ := listedIds_joinSlots dead host species a slots
  rw [hperm.nodup_iff]
  exact List.nodup_cons.mpr ⟨fun hk => ha (hsub.subset hk), h.sublist hsub⟩

theorem lists_joinSlots_self (slots : List Slot) :
    Lists (joinSlots dead host species a slots) host species a.id := by
  induction slots with
  | nil => exact ⟨_, List.mem_cons_self, rfl, rfl, a, by simp, rfl⟩
  | cons s rest ih =>
    unfold joinSlots
    split
    case isTrue h =>
      obtain ⟨kept, hm, -⟩ := joinSlot_members dead a s
      obtain ⟨hh, hs⟩ := joinSlot_key dead a s
      refine ⟨_, List.mem_cons_self, hh.trans h.1, hs.trans h.2, a, ?_, rfl⟩
      rw [hm]
      exact Array.mem_push_self
    case isFalse => exact lists_cons.mpr (.inr ih)

/-- Nobody else is listed anywhere new. -/
theorem lists_of_joinSlots {slots : List Slot} {host' : Nat} {species' : String} {i : Nat}
    (h : Lists (joinSlots dead host species a slots) host' species' i) :
    (host' = host ∧ species' = species ∧ i = a.id) ∨ Lists slots host' species' i := by
  induction slots with
  | nil =>
    obtain ⟨s, hs, rfl, rfl, m, hm, rfl⟩ := h
    simp only [joinSlots, List.mem_singleton] at hs
    subst hs
    simp only [Array.mem_singleton] at hm
    subst hm
    exact .inl ⟨rfl, rfl, rfl⟩
  | cons s rest ih =>
    unfold joinSlots at h
    split at h
    case isTrue hkey =>
      rcases lists_cons.mp h with ⟨hh, hs, m, hm, rfl⟩ | h
      · obtain ⟨kept, hmem, hsub, -⟩ := joinSlot_members dead a s
        obtain ⟨hh', hs'⟩ := joinSlot_key dead a s
        rw [hmem, Array.mem_push] at hm
        rcases hm with hm | rfl
        · refine .inr (lists_cons.mpr (.inl ⟨hh'.symm.trans hh, hs'.symm.trans hs, m, ?_, rfl⟩))
          exact Array.mem_toList_iff.mp (hsub.subset (Array.mem_toList_iff.mpr hm))
        · exact .inl ⟨(hh.symm.trans hh').trans hkey.1, (hs.symm.trans hs').trans hkey.2, rfl⟩
      · exact .inr (lists_cons.mpr (.inr h))
    case isFalse =>
      rcases lists_cons.mp h with h | h
      · exact .inr (lists_cons.mpr (.inl h))
      · exact (ih h).imp_right fun h => lists_cons.mpr (.inr h)

/-- The living stay listed, and so does whoever is listed elsewhere. -/
theorem lists_joinSlots {slots : List Slot} {host' : Nat} {species' : String} {i : Nat}
    (h : Lists slots host' species' i)
    (hi : ¬(host' = host ∧ species' = species) ∨ ∀ m : AgentRef, m.id = i → dead m = false) :
    Lists (joinSlots dead host species a slots) host' species' i := by
  induction slots with
  | nil =>
    obtain ⟨s, hs, -⟩ := h
    cases hs
  | cons s rest ih =>
    unfold joinSlots
    split
    case isTrue hkey =>
      rcases lists_cons.mp h with ⟨hh, hs, m, hm, hmi⟩ | h
      · obtain ⟨kept, hmem, -, hkept⟩ := joinSlot_members dead a s
        obtain ⟨hh', hs'⟩ := joinSlot_key dead a s
        have hlive : dead m = false := by
          rcases hi with hne | hi
          · exact absurd ⟨hh.symm.trans hkey.1, hs.symm.trans hkey.2⟩ hne
          · exact hi m hmi
        refine lists_cons.mpr (.inl ⟨hh'.trans hh, hs'.trans hs, m, ?_, hmi⟩)
        rw [hmem]
        exact Array.mem_push.mpr (.inl (hkept m hm hlive))
      · exact lists_cons.mpr (.inr h)
    case isFalse =>
      rcases lists_cons.mp h with h | h
      · exact lists_cons.mpr (.inl h)
      · exact lists_cons.mpr (.inr (ih h))

end

/-! ### Leaving and sweeping -/

theorem slotKeys_leaveSlots (host : Nat) (species : String) (a : AgentRef) (slots : List Slot) :
    slotKeys (leaveSlots host species a slots) = slotKeys slots := by
  simp only [slotKeys, leaveSlots, List.map_map]
  refine List.map_congr_left fun s _ => ?_
  simp only [Function.comp_apply]
  split <;> rfl

theorem lists_leaveSlots {host : Nat} {species : String} {a : AgentRef} {slots : List Slot}
    {host' : Nat} {species' : String} {i : Nat} :
    Lists (leaveSlots host species a slots) host' species' i ↔
      Lists slots host' species' i ∧ ¬(host' = host ∧ species' = species ∧ i = a.id) := by
  constructor
  · intro hx
    obtain ⟨_, hs', hh, hsp, m, hm, hmi⟩ := hx
    obtain ⟨s, hs, rfl⟩ := List.mem_map.mp hs'
    by_cases hk : s.host = host ∧ s.species = species
    · rw [if_pos hk] at hh hsp hm
      obtain ⟨hm, hne⟩ := Array.mem_filter.mp hm
      refine ⟨⟨s, hs, hh, hsp, m, hm, hmi⟩, ?_⟩
      intro hx
      obtain ⟨-, -, h⟩ := hx
      rw [hmi, h] at hne
      simp at hne
    · rw [if_neg hk] at hh hsp hm
      refine ⟨⟨s, hs, hh, hsp, m, hm, hmi⟩, ?_⟩
      intro hx
      obtain ⟨h, h', -⟩ := hx
      exact hk ⟨hh.trans h, hsp.trans h'⟩
  · intro hx
    obtain ⟨⟨s, hs, rfl, rfl, m, hm, rfl⟩, hne⟩ := hx
    refine ⟨_, List.mem_map_of_mem hs, ?_⟩
    by_cases hk : s.host = host ∧ s.species = species
    · rw [if_pos hk]
      have hid : m.id ≠ a.id := fun h => hne ⟨hk.1, hk.2, h⟩
      exact ⟨rfl, rfl, m, Array.mem_filter.mpr ⟨hm, by simpa using hid⟩, rfl⟩
    · rw [if_neg hk]
      exact ⟨rfl, rfl, m, hm, rfl⟩

theorem listedIds_leaveSlots (host : Nat) (species : String) (a : AgentRef) (slots : List Slot) :
    (listedIds (leaveSlots host species a slots)).Sublist (listedIds slots) := by
  simp only [listedIds, leaveSlots, List.flatMap_map]
  refine List.Sublist.flatMap_right _ fun s _ => ?_
  split
  · rw [Array.toList_filter]
    exact List.filter_sublist.map _
  · exact List.Sublist.refl _

theorem lists_sweep {w : World} {host : Nat} {species : String} {i : Nat} :
    Lists w.sweep.slots host species i ↔
      Lists w.slots host species i ∧ (w.agents.get i).dead = false := by
  constructor
  · intro hx
    obtain ⟨_, hs', hh, hsp, m, hm, rfl⟩ := hx
    obtain ⟨s, hs, rfl⟩ := List.mem_map.mp (List.mem_filter.mp hs').1
    obtain ⟨hm, hd⟩ := Array.mem_filter.mp hm
    exact ⟨⟨s, hs, hh, hsp, m, hm, rfl⟩, by simpa [isDead, agent] using hd⟩
  · intro hx
    obtain ⟨⟨s, hs, hh, hsp, m, hm, rfl⟩, hd⟩ := hx
    have hm' : m ∈ (sweepSlot w.isDead s).members :=
      Array.mem_filter.mpr ⟨hm, by simpa [isDead, agent] using hd⟩
    refine ⟨_, List.mem_filter.mpr ⟨List.mem_map_of_mem hs, ?_⟩, hh, hsp, m, hm', rfl⟩
    simp only [Bool.not_eq_true', Array.isEmpty_eq_false_iff]
    exact Array.ne_empty_of_mem hm'

theorem listedIds_sweep (w : World) : (listedIds w.sweep.slots).Sublist (listedIds w.slots) := by
  have hfilter : (listedIds w.sweep.slots).Sublist (listedIds (w.slots.map (sweepSlot w.isDead))) :=
    List.filter_sublist.flatMap _
  refine hfilter.trans ?_
  simp only [listedIds, List.flatMap_map, sweepSlot, Array.toList_filter]
  exact List.Sublist.flatMap_right _ fun s _ => List.filter_sublist.map _

theorem slotKeys_sweep (w : World) : (slotKeys w.sweep.slots).Sublist (slotKeys w.slots) := by
  have hmap : slotKeys (w.slots.map (sweepSlot w.isDead)) = slotKeys w.slots := by
    simp only [slotKeys, List.map_map]
    rfl
  rw [← hmap]
  exact List.filter_sublist.map _

/-! ## Both records agree -/

/-- Slots and agents tell the same about memberships. -/
structure Filed (w : World) : Prop where
  keys : (slotKeys w.slots).Nodup
  once : (listedIds w.slots).Nodup
  agrees : ∀ host species i, Lists w.slots host species i →
    i < w.agents.size ∧ (w.agents.get i).host.map (·.id) = some host ∧
      (w.agents.get i).species = species
  complete : ∀ i, i < w.agents.size → i ≠ w.root.id → (w.agents.get i).dead = false →
    ∃ host species, Lists w.slots host species i

theorem filed_start (root : Species) : Filed (start root) := by
  refine ⟨List.nodup_nil, List.nodup_nil, ?_, ?_⟩
  · intro host species i hx
    obtain ⟨s, hs, -⟩ := hx
    cases hs
  · intro i hi hroot
    exact absurd (Nat.lt_one_iff.mp hi) hroot

/-- What moves nobody and wakes nobody up keeps the records in agreement. -/
theorem Filed.of_same {w w' : World} (h : Filed w) (hslots : w'.slots = w.slots)
    (hroot : w'.root = w.root) (hsize : w'.agents.size = w.agents.size)
    (hagent : ∀ i, (w'.agents.get i).host = (w.agents.get i).host ∧
      (w'.agents.get i).species = (w.agents.get i).species ∧
      ((w'.agents.get i).dead = false → (w.agents.get i).dead = false)) : Filed w' := by
  refine ⟨by rw [hslots]; exact h.keys, by rw [hslots]; exact h.once, ?_, ?_⟩
  · intro host species i hi
    rw [hslots] at hi
    rw [hsize, (hagent i).1, (hagent i).2.1]
    exact h.agrees host species i hi
  · intro i hi hne hd
    rw [hslots]
    rw [hsize] at hi
    rw [hroot] at hne
    exact h.complete i hi hne ((hagent i).2.2 hd)

theorem Filed.of_update {w : World} (h : Filed w) (a : AgentRef) {f : Agent → Agent}
    (hf : ∀ x, (f x).host = x.host ∧ (f x).species = x.species ∧
      ((f x).dead = false → x.dead = false)) : Filed (w.update a f) := by
  refine h.of_same rfl rfl (size_update w a f) fun i => ?_
  by_cases hi : a.id = i
  · subst hi
    by_cases hlt : a.id < w.agents.size
    · rw [update, Heap.get_modify_self _ _ _ hlt]
      exact hf _
    · rw [update, Heap.get_of_size_le _ _ (by simpa using hlt),
        Heap.get_of_size_le _ _ (by simpa using hlt)]
      exact ⟨rfl, rfl, id⟩
  · rw [update, Heap.get_modify_ne _ _ _ _ hi]
    exact ⟨rfl, rfl, id⟩

theorem Filed.register {w : World} (h : Filed w) (s : Species) : Filed (w.register s) :=
  ⟨h.keys, h.once, h.agrees, h.complete⟩

theorem Filed.kill {w : World} (h : Filed w) (a : AgentRef) : Filed (w.kill a) :=
  h.of_update a fun _ => ⟨rfl, rfl, nofun⟩

theorem Filed.forget {w : World} (h : Filed w) (held : AgentRef → Bool) (a : AgentRef) :
    Filed (w.forget held a) := by
  unfold World.forget
  split
  · exact h.of_update _ fun _ => ⟨rfl, rfl, id⟩
  · exact h

theorem Filed.sweep {w : World} (h : Filed w) : Filed w.sweep := by
  refine ⟨h.keys.sublist (slotKeys_sweep w), h.once.sublist (listedIds_sweep w), ?_, ?_⟩
  · intro host species i hi
    exact h.agrees host species i (lists_sweep.mp hi).1
  · intro i hi hne hd
    obtain ⟨host, species, hl⟩ := h.complete i hi hne hd
    exact ⟨host, species, lists_sweep.mpr ⟨hl, hd⟩⟩

/-- Only agents of the world are listed. -/
theorem Filed.not_listed {w : World} (h : Filed w) {i : Nat} (hi : w.agents.size ≤ i) :
    i ∉ listedIds w.slots := by
  intro hmem
  obtain ⟨host, species, hl⟩ := mem_listedIds.mp hmem
  exact absurd (h.agrees host species i hl).1 (Nat.not_lt.mpr hi)

theorem Filed.birth {w : World} (h : Filed w) (p : Population) (attributes : Record) :
    Filed (w.birth p attributes).2 := by
  have hold := h.not_listed (Nat.le_refl w.agents.size)
  refine ⟨nodup_slotKeys_joinSlots _ _ _ _ h.keys, nodup_listedIds_joinSlots _ _ _ _ h.once hold,
    ?_, ?_⟩
  · intro host species i hi
    rw [size_birth]
    rcases lists_of_joinSlots _ _ _ _ hi with ⟨rfl, rfl, rfl⟩ | hi
    · refine ⟨Nat.lt_succ_self _, ?_⟩
      simp [World.birth, insertMember, Heap.get_push_size]
    · obtain ⟨hlt, hrec⟩ := h.agrees host species i hi
      refine ⟨Nat.lt_succ_of_lt hlt, ?_⟩
      simp only [World.birth, insertMember, Heap.get_push_lt _ _ _ hlt]
      exact hrec
  · intro i hi hne hd
    rw [size_birth] at hi
    by_cases hlt : i < w.agents.size
    · simp only [World.birth, insertMember, Heap.get_push_lt _ _ _ hlt] at hd
      obtain ⟨host, species, hl⟩ := h.complete i hlt hne hd
      refine ⟨host, species, lists_joinSlots _ _ _ _ hl (.inr ?_)⟩
      intro m hx
      subst hx
      dsimp only
      rw [Heap.get_push_lt _ _ _ hlt]
      exact hd
    · obtain rfl : i = w.agents.size := by omega
      exact ⟨_, _, lists_joinSlots_self _ _ _ _ _⟩

theorem Filed.births {w : World} (h : Filed w) (p : Population) (defaults : Record)
    (inits : List Record) : Filed (births p defaults inits w).2 := by
  induction inits generalizing w with
  | nil => exact h
  | cons init rest ih => exact ih (h.birth p _)

/-! ## Moves -/

/-- An agent that a slot lists still knows its host. -/
def Sighted (held : AgentRef → Bool) (w : World) (a : AgentRef) : Prop :=
  a.id ∈ listedIds w.slots → (w.host? held a).isSome = true

/-- The slots once an agent that is about to move has left. -/
def slotsWithout (held : AgentRef → Bool) (w : World) (a : AgentRef) : List Slot :=
  match w.host? held a with
  | some h => leaveSlots h.id (w.speciesOf a) a w.slots
  | none => w.slots

theorem slotKeys_slotsWithout (held : AgentRef → Bool) (w : World) (a : AgentRef) :
    slotKeys (slotsWithout held w a) = slotKeys w.slots := by
  unfold slotsWithout
  split
  · exact slotKeys_leaveSlots _ _ _ _
  · rfl

theorem listedIds_slotsWithout (held : AgentRef → Bool) (w : World) (a : AgentRef) :
    (listedIds (slotsWithout held w a)).Sublist (listedIds w.slots) := by
  unfold slotsWithout
  split
  · exact listedIds_leaveSlots _ _ _ _
  · exact List.Sublist.refl _

/-- Everybody else stays. -/
theorem lists_slotsWithout {held : AgentRef → Bool} {w : World} {a : AgentRef} {host : Nat}
    {species : String} {i : Nat} (hi : i ≠ a.id) :
    Lists (slotsWithout held w a) host species i ↔ Lists w.slots host species i := by
  unfold slotsWithout
  split
  · rw [lists_leaveSlots]
    simp [hi]
  · exact Iff.rfl

theorem lists_of_slotsWithout {held : AgentRef → Bool} {w : World} {a : AgentRef} {host : Nat}
    {species : String} {i : Nat} (h : Lists (slotsWithout held w a) host species i) :
    Lists w.slots host species i := by
  unfold slotsWithout at h
  split at h
  · exact (lists_leaveSlots.mp h).1
  · exact h

/-- An agent that knows its host leaves the slot of that host and its species. -/
theorem not_lists_slotsWithout {held : AgentRef → Bool} {w : World} {a x : AgentRef}
    (hx : w.host? held a = some x) :
    ¬Lists (slotsWithout held w a) x.id (w.agents.get a.id).species a.id := by
  simp only [slotsWithout, hx]
  intro h
  exact (lists_leaveSlots.mp h).2 ⟨rfl, rfl, rfl⟩

/-- An agent that knows its host leaves its only slot. -/
theorem Filed.leaves {w : World} (h : Filed w) {held : AgentRef → Bool} {a : AgentRef}
    (hs : Sighted held w a) : a.id ∉ listedIds (slotsWithout held w a) := by
  intro hmem
  obtain ⟨x, hx⟩ := Option.isSome_iff_exists.mp
    (hs ((listedIds_slotsWithout held w a).subset hmem))
  obtain ⟨host, species, hl⟩ := mem_listedIds.mp hmem
  obtain ⟨-, hhost, rfl⟩ := h.agrees host species a.id (lists_of_slotsWithout hl)
  have hrec : (w.agents.get a.id).host = some x :=
    (knownHost?_eq_some.mp (knownHost?_of_host? hx)).1
  rw [hrec] at hhost
  obtain rfl : x.id = host := Option.some.inj hhost
  exact not_lists_slotsWithout hx hl

/-- A move in terms of the slots. -/
theorem move_slots (held : AgentRef → Bool) (w : World) (s : Store) (a : AgentRef)
    (p : Population) :
    (w.move held s a p).1.slots =
      joinSlots (w.move held s a p).1.isDead p.host.id p.species.name a
        (slotsWithout held (w.forget held a) a) := by
  rfl

theorem slots_forget (held : AgentRef → Bool) (w : World) (a : AgentRef) :
    (w.forget held a).slots = w.slots ∧ (w.forget held a).root = w.root := by
  rcases forget_cases held w a with h | ⟨h, -, -, -, heq⟩
  · rw [h]
    exact ⟨rfl, rfl⟩
  · rw [heq]
    exact ⟨rfl, rfl⟩

/-- What a move does to the agents. -/
theorem agent_move (held : AgentRef → Bool) (w : World) (s : Store) (a : AgentRef) (p : Population)
    (ha : a.id < w.agents.size) (b : AgentRef) :
    (w.move held s a p).1.agent b =
      if a.id = b.id then
        { (w.forget held a).agent b with
          host := some p.host
          species := p.species.name
          attributes := addMissing ((w.forget held a).agent b).attributes
            ((w.forget held a).defaults s p.species).1 }
      else (w.forget held a).agent b := by
  have hupdate := agent_update (w.forget held a) a b fun x =>
    { x with
      host := some p.host
      species := p.species.name
      attributes := addMissing x.attributes ((w.forget held a).defaults s p.species).1 }
  refine Eq.trans hupdate ?_
  rw [size_forget]
  by_cases hab : a.id = b.id
  · rw [if_pos ⟨hab, hab ▸ ha⟩, if_pos hab]
  · rw [if_neg (fun h => hab h.1), if_neg hab]

theorem move_get (held : AgentRef → Bool) (w : World) (s : Store) (a : AgentRef) (p : Population)
    (ha : a.id < w.agents.size) (i : Nat) :
    ∃ attributes, (w.move held s a p).1.agents.get i =
      if a.id = i then
        { (w.forget held a).agents.get i with
          host := some p.host, species := p.species.name, attributes := attributes }
      else (w.forget held a).agents.get i :=
  ⟨_, agent_move held w s a p ha ⟨i, ""⟩⟩

theorem Filed.move {w : World} (h : Filed w) {held : AgentRef → Bool} (hid : ById held)
    (s : Store) {a : AgentRef} (p : Population) (ha : a.id < w.agents.size)
    (hs : Sighted held w a) : Filed (w.move held s a p).1 := by
  have hf := h.forget held a
  obtain ⟨hslots, hroot⟩ := slots_forget held w a
  have hsight : Sighted held (w.forget held a) a := by
    unfold Sighted
    rw [hslots, host?_forget hid]
    exact hs
  have hleft := hf.leaves hsight
  refine ⟨?_, ?_, ?_, ?_⟩
  · rw [move_slots]
    apply nodup_slotKeys_joinSlots
    rw [slotKeys_slotsWithout]
    exact hf.keys
  · rw [move_slots]
    exact nodup_listedIds_joinSlots _ _ _ _ (hf.once.sublist (listedIds_slotsWithout _ _ _)) hleft
  · intro host species i hi
    obtain ⟨attributes, hget⟩ := move_get held w s a p ha i
    rw [move_slots] at hi
    rw [size_move, hget]
    rcases lists_of_joinSlots _ _ _ _ hi with ⟨rfl, rfl, rfl⟩ | hi
    · rw [if_pos rfl]
      exact ⟨ha, rfl, rfl⟩
    · have hne : i ≠ a.id := by
        intro hx
        subst hx
        exact hleft (mem_listedIds.mpr ⟨_, _, hi⟩)
      rw [if_neg (Ne.symm hne), ← size_forget held w a]
      exact hf.agrees host species i ((lists_slotsWithout hne).mp hi)
  · intro i hi hne hd
    rw [size_move] at hi
    by_cases hai : a.id = i
    · subst hai
      exact ⟨_, _, lists_joinSlots_self _ _ _ _ _⟩
    · obtain ⟨attributes, hget⟩ := move_get held w s a p ha i
      have hd' := hd
      rw [hget, if_neg hai] at hd'
      rw [← size_forget held w a] at hi
      rw [show (w.move held s a p).1.root = (w.forget held a).root from rfl] at hne
      obtain ⟨host, species, hl⟩ := hf.complete i hi hne hd'
      refine ⟨host, species, ?_⟩
      rw [move_slots]
      refine lists_joinSlots _ _ _ _ ((lists_slotsWithout (Ne.symm hai)).mpr hl) (.inr ?_)
      intro m hx
      subst hx
      exact hd

/-- Whoever is listed under two keys is listed twice. -/
theorem not_nodup_of_lists {slots : List Slot} {h h' : Nat} {sp sp' : String} {i : Nat}
    (hl : Lists slots h sp i) (hl' : Lists slots h' sp' i) (hne : ¬(h = h' ∧ sp = sp')) :
    ¬(listedIds slots).Nodup := by
  intro hnodup
  obtain ⟨s, hs, rfl, rfl, m, hm, rfl⟩ := hl
  obtain ⟨t, ht, rfl, rfl, m', hm', hid⟩ := hl'
  have hst : s ≠ t := by
    intro hx
    subst hx
    exact hne ⟨rfl, rfl⟩
  have hsymm : Std.Symm (Function.onFun List.Disjoint fun s : Slot =>
      s.members.toList.map (·.id)) := ⟨fun _ _ h _ hi hj => h hj hi⟩
  have hdisj := (List.nodup_flatMap.mp hnodup).2.forall hs ht hst
  have hmem : m.id ∈ s.members.toList.map (·.id) := List.mem_map_of_mem (Array.mem_toList_iff.mpr hm)
  have hmem' : m.id ∈ t.members.toList.map (·.id) := by
    rw [← hid]
    exact List.mem_map_of_mem (Array.mem_toList_iff.mpr hm')
  exact hdisj hmem hmem'

/-- A blind move into a population that keeps its host lists the agent twice. -/
theorem Filed.not_nodup_move {w : World} (h : Filed w) {held : AgentRef → Bool} (hid : ById held)
    (s : Store) {a : AgentRef} (p : Population) (hl : a.id ∈ listedIds w.slots)
    (hblind : w.host? held a = none) (hheld : held p.host = true)
    (hgone : (w.agent p.host).gone = false) :
    ¬(listedIds (w.move held s a p).1.slots).Nodup := by
  obtain ⟨host, species, hl⟩ := mem_listedIds.mp hl
  obtain ⟨-, hhost, hspecies⟩ := h.agrees host species a.id hl
  obtain ⟨x, hx, rfl⟩ := Option.map_eq_some_iff.mp hhost
  -- a host that is still held would be known
  have hne : ¬(x.id = p.host.id ∧ species = p.species.name) := by
    intro hx
    obtain ⟨hxp, -⟩ := hx
    have hknown : w.host? held a = some x := by
      refine host?_eq_some.mpr ⟨knownHost?_eq_some.mpr ⟨hx, ?_⟩, .inr ?_⟩
      · rw [agent, hxp]
        exact hgone
      · rw [hid x p.host hxp, hheld]
    rw [hblind] at hknown
    cases hknown
  have hstay : slotsWithout held (w.forget held a) a = w.slots := by
    simp only [slotsWithout, host?_forget hid, hblind]
    exact (slots_forget held w a).1
  rw [move_slots, hstay]
  exact not_nodup_of_lists (lists_joinSlots _ _ _ _ hl (.inl hne)) (lists_joinSlots_self _ _ _ _ _) hne

/-! ## Runs -/

/-- Something that is done to the world from outside. Whoever moves an agent holds certain agents,
given by their numbers. -/
inductive Op where
  | register (s : Species)
  | create (store : Store) (p : Population) (inits : List Record)
  | move (held : Nat → Bool) (store : Store) (a : AgentRef) (p : Population)
  | kill (a : AgentRef)
  | sweep

namespace Op

def apply (w : World) : Op → World
  | .register s => w.register s
  | .create store p inits =>
    match w.create store p inits with
    | .ok (_, w, _) => w
    | .error _ => w
  | .move held store a p => (w.move (fun x => held x.id) store a p).1
  | .kill a => w.kill a
  | .sweep => w.sweep

/-- The agent that is moved exists, and its new population keeps a host that exists. -/
def Fits (w : World) : Op → Prop
  | .move held _ a p =>
    a.id < w.agents.size ∧ held p.host.id = true ∧ (w.agent p.host).gone = false
  | _ => True

/-- The agent that is moved is listed in a slot, but its host died and nothing holds it. -/
def Blind (w : World) : Op → Prop
  | .move held _ a _ => a.id ∈ listedIds w.slots ∧ w.host? (fun x => held x.id) a = none
  | _ => False

end Op

theorem byId_of_ids (held : Nat → Bool) : ById fun x => held x.id := fun _ _ h => congrArg held h

theorem Filed.apply {w : World} (h : Filed w) {op : Op} (hfits : op.Fits w)
    (hsight : ¬op.Blind w) : Filed (op.apply w) := by
  cases op with
  | register s => exact h.register s
  | create store p inits =>
    unfold Op.apply create
    by_cases habs : p.species.isAbstract = true
    · simp only [habs, if_true]
      exact h
    · simp only [habs]
      exact h.births p _ inits
  | move held store a p =>
    refine h.move (byId_of_ids held) store p hfits.1 fun hl => ?_
    cases hh : w.host? (fun x => held x.id) a with
    | some x => rfl
    | none => exact absurd ⟨hl, hh⟩ hsight
  | kill a => exact h.kill a
  | sweep => exact h.sweep

/-- Memberships are in order: one slot for a host and a species, nobody listed twice, and every
live agent but the root in one slot, that of its host and species. -/
structure Housed (w : World) : Prop where
  keys : (slotKeys w.slots).Nodup
  once : (listedIds w.slots).Nodup
  home : ∀ a : AgentRef, a.id < w.agents.size → a.id ≠ w.root.id → w.isDead a = false →
    ∃ s ∈ w.slots, (∃ m ∈ s.members, m.id = a.id) ∧
      (w.agent a).host.map (·.id) = some s.host ∧ w.speciesOf a = s.species ∧
      ∀ t ∈ w.slots, (∃ m ∈ t.members, m.id = a.id) → t = s
  agentsOf : ∀ species, ((w.agentsOf species).map (·.id)).Nodup
  members : ∀ host species, ((w.members host species).map (·.id)).Nodup

/-- What is listed of some slots is part of all that is listed. -/
theorem nodup_live {w : World} (h : (listedIds w.slots).Nodup) (p : Slot → Bool) :
    (((w.slots.filter p).flatMap (·.live w.isDead)).map (·.id)).Nodup := by
  refine h.sublist ?_
  rw [List.map_flatMap]
  refine (List.filter_sublist.flatMap _).trans (List.Sublist.flatMap_right _ fun s _ => ?_)
  rw [Slot.live, Array.toList_filter]
  exact List.filter_sublist.map _

theorem Filed.housed {w : World} (h : Filed w) : Housed w := by
  refine ⟨h.keys, h.once, ?_, fun _ => nodup_live h.once _, fun _ _ => nodup_live h.once _⟩
  intro a ha hroot hd
  obtain ⟨host, species, s, hs, hh, hsp, m, hm, hid⟩ := h.complete a.id ha hroot hd
  obtain ⟨-, hhost, hspecies⟩ := h.agrees host species a.id ⟨s, hs, hh, hsp, m, hm, hid⟩
  refine ⟨s, hs, ⟨m, hm, hid⟩, hhost.trans (by rw [hh]), hspecies.trans hsp.symm, ?_⟩
  intro t ht hx
  obtain ⟨m', hm', hid'⟩ := hx
  -- both slots are the one of the same host and species
  obtain ⟨-, hhost', hspecies'⟩ := h.agrees t.host t.species a.id ⟨t, ht, rfl, rfl, m', hm', hid'⟩
  rw [hhost] at hhost'
  refine List.inj_on_of_nodup_map h.keys ht hs ?_
  rw [← Option.some.inj hhost', ← hspecies', hspecies, hh, hsp]

/-- The world after a run. -/
def run (w : World) (ops : List Op) : World := ops.foldl Op.apply w

/-- Something is true of every operation of a run, in the world that it finds. -/
def Along (P : World → Op → Prop) : World → List Op → Prop
  | _, [] => True
  | w, op :: rest => P w op ∧ Along P (op.apply w) rest

theorem Filed.not_housed {w : World} (h : Filed w) {op : Op} (hfits : op.Fits w)
    (hblind : op.Blind w) : ¬Housed (op.apply w) := by
  intro hh
  cases op with
  | move held store a p =>
    refine h.not_nodup_move (byId_of_ids held) store p hblind.1 hblind.2 ?_ hfits.2.2 hh.once
    exact hfits.2.1
  | register | create | kill | sweep => exact hblind

/-- From a world whose records agree: memberships stay in order as long as no move is blind, and
no longer. -/
theorem Filed.housed_along_iff {w : World} (h : Filed w) (ops : List Op)
    (hfits : Along (fun w op => op.Fits w) w ops) :
    (∀ pre, pre <+: ops → Housed (run w pre)) ↔ Along (fun w op => ¬op.Blind w) w ops := by
  induction ops generalizing w with
  | nil =>
    refine ⟨fun _ => trivial, fun _ pre hpre => ?_⟩
    rw [List.prefix_nil.mp hpre]
    exact h.housed
  | cons op rest ih =>
    obtain ⟨hop, hrest⟩ := hfits
    constructor
    · intro hall
      have hsight : ¬op.Blind w := fun hb =>
        h.not_housed hop hb (hall [op] (List.prefix_append [op] rest))
      refine ⟨hsight, (ih (h.apply hop hsight) hrest).mp fun pre hpre => ?_⟩
      exact hall (op :: pre) ((List.prefix_cons_inj op).mpr hpre)
    · intro hx pre hpre
      obtain ⟨hsight, hrest'⟩ := hx
      cases pre with
      | nil => exact h.housed
      | cons op' pre =>
        obtain ⟨rfl, hpre'⟩ := List.cons_prefix_cons.mp hpre
        exact (ih (h.apply hop hsight) hrest).mpr hrest' pre hpre'

theorem nodup_slotKeys_births (p : Population) (defaults : Record) (inits : List Record)
    {w : World} (h : (slotKeys w.slots).Nodup) :
    (slotKeys (births p defaults inits w).2.slots).Nodup := by
  induction inits generalizing w with
  | nil => exact h
  | cons init rest ih => exact ih (nodup_slotKeys_joinSlots _ _ _ _ h)

theorem nodup_slotKeys_apply (op : Op) {w : World} (h : (slotKeys w.slots).Nodup) :
    (slotKeys (op.apply w).slots).Nodup := by
  cases op with
  | register s => exact h
  | create store p inits =>
    unfold Op.apply create
    by_cases habs : p.species.isAbstract = true
    · simp only [habs, if_true]
      exact h
    · simp only [habs]
      exact nodup_slotKeys_births p _ inits h
  | move held store a p =>
    simp only [Op.apply, move_slots]
    apply nodup_slotKeys_joinSlots
    rw [slotKeys_slotsWithout, (slots_forget _ w a).1]
    exact h
  | kill a => exact h
  | sweep => exact h.sublist (slotKeys_sweep w)

theorem nodup_slotKeys_run (ops : List Op) {w : World} (h : (slotKeys w.slots).Nodup) :
    (slotKeys (run w ops).slots).Nodup := by
  induction ops generalizing w with
  | nil => exact h
  | cons op rest ih => exact ih (nodup_slotKeys_apply op h)

/-- Along a run from a new world there is never a second slot of a host and a species, and
memberships are in order in every state exactly if no agent is moved after its host died and
was let go of. -/
theorem memberships_in_order_iff (root : Species) (ops : List Op)
    (hfits : Along (fun w op => op.Fits w) (start root) ops) :
    (slotKeys (run (start root) ops).slots).Nodup ∧
      ((∀ pre, pre <+: ops → Housed (run (start root) pre)) ↔
        Along (fun w op => ¬op.Blind w) (start root) ops) :=
  ⟨nodup_slotKeys_run ops List.nodup_nil, (filed_start root).housed_along_iff ops hfits⟩

/-- A herd is created and gets a sheep, dies and is swept away; then the sheep moves to the
root. -/
def strayRun : List Op :=
  let sheep : Species := ⟨"sheep", none, [], false, [], []⟩
  let herd : Species := ⟨"herd", none, ["sheep"], false, [], []⟩
  [.create .empty ⟨⟨0, "world"⟩, herd⟩ [.empty], .create .empty ⟨⟨1, "herd0"⟩, sheep⟩ [.empty],
    .kill ⟨1, "herd0"⟩, .sweep,
    .move (fun i => i == 0 || i == 2) .empty ⟨2, "sheep0"⟩ ⟨⟨0, "world"⟩, sheep⟩]

/-- The last step of `strayRun` is blind. -/
theorem memberships_out_of_order_stray :
    ¬∀ pre, pre <+: strayRun →
      Housed (run (start ⟨"world", none, ["herd", "sheep"], false, [], []⟩) pre) := by
  refine (memberships_in_order_iff _ strayRun ?_).2.not.mpr ?_
  · exact ⟨trivial, trivial, trivial, trivial, ⟨by decide, rfl, rfl⟩, trivial⟩
  · intro hx
    obtain ⟨-, -, -, -, hsight, -⟩ := hx
    exact hsight ⟨by decide, rfl⟩

end Habitat.World
