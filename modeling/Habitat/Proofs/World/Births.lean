import Habitat.Proofs.World.Defaults
import Habitat.Proofs.World.Hierarchy
import Habitat.Proofs.World.Membership

/-!
# New agents of a population

Agents that are born into a population come after all of its agents, in the order of their records
(`members_births`). Each has the values of its record, and for other names the default of the
nearest species that declares one (`Record.get?_extend_fields`, `lookup_declared`).

Records keep their names in ascending order, so that no name comes twice and it does not matter
from which end a record is read.
-/
namespace Habitat

/-! ## Records in order -/

namespace Record

/-- The names of the fields ascend. -/
def Ascending (fields : List (String × Value)) : Prop := fields.Pairwise fun f g => f.1 < g.1

theorem mem_insertField {name : String} {v : Value} {fields : List (String × Value)}
    {f : String × Value} (h : f ∈ insertField name v fields) : f = (name, v) ∨ f ∈ fields := by
  induction fields with
  | nil => exact .inl (List.mem_singleton.mp h)
  | cons g rest ih =>
    unfold insertField at h
    split at h
    · exact List.mem_cons.mp h
    · split at h
      · exact (List.mem_cons.mp h).imp_right (List.mem_cons_of_mem g)
      · rcases List.mem_cons.mp h with rfl | h
        · exact .inr List.mem_cons_self
        · exact (ih h).imp_right (List.mem_cons_of_mem g)

theorem ascending_insertField (name : String) (v : Value) {fields : List (String × Value)}
    (h : Ascending fields) : Ascending (insertField name v fields) := by
  induction fields with
  | nil => exact List.pairwise_singleton _ _
  | cons g rest ih =>
    obtain ⟨hg, hrest⟩ := List.pairwise_cons.mp h
    unfold insertField
    split
    case isTrue hlt =>
      refine List.pairwise_cons.mpr ⟨?_, h⟩
      rintro f hf
      rcases List.mem_cons.mp hf with rfl | hf
      · exact hlt
      · exact String.lt_trans hlt (hg f hf)
    case isFalse hlt =>
      split
      case isTrue heq =>
        subst heq
        exact List.pairwise_cons.mpr ⟨hg, hrest⟩
      case isFalse hne =>
        have hgt : g.1 < name := Std.lt_of_le_of_ne (String.not_lt.mp hlt) fun heq => hne heq.symm
        refine List.pairwise_cons.mpr ⟨?_, ih hrest⟩
        rintro f hf
        rcases mem_insertField hf with rfl | hf
        · exact hgt
        · exact hg f hf

theorem ascending_extend {r : Record} (h : Ascending r.fields) (fields : List (String × Value)) :
    Ascending (r.extend fields).fields := by
  induction fields generalizing r with
  | nil => exact h
  | cons f rest ih => exact ih (ascending_insertField f.1 f.2 h)

theorem ascending_ofList (fields : List (String × Value)) : Ascending (ofList fields).fields :=
  ascending_extend List.Pairwise.nil fields

/-- A record whose names ascend reads the same from both ends. -/
theorem lookup_reverse {fields : List (String × Value)} (h : Ascending fields) (name : String) :
    fields.reverse.lookup name = fields.lookup name := by
  induction fields with
  | nil => rfl
  | cons f rest ih =>
    obtain ⟨hf, hrest⟩ := List.pairwise_cons.mp h
    rw [List.reverse_cons, List.lookup_append, ih hrest, lookup_cons_ite, lookup_cons_ite]
    by_cases hname : name = f.1
    · have hnone : rest.lookup name = none := by
        rw [List.lookup_eq_none_iff]
        intro g hg
        have hlt : name < g.1 := hname ▸ hf g hg
        have hne : name ≠ g.1 := fun heq => String.lt_irrefl name (heq ▸ hlt)
        simpa using hne
      rw [hnone, if_pos hname, if_pos hname, Option.none_or]
    · rw [if_neg hname, if_neg hname]
      exact Option.or_none

/-- A record on top of another one. -/
theorem get?_extend_fields (r : Record) {init : Record} (h : Ascending init.fields)
    (name : String) : (r.extend init.fields).get? name = (init.get? name).or (r.get? name) := by
  rw [get?_extend, lookup_reverse h]
  rfl

end Record

namespace World

/-! ## Defaults by species -/

/-- A species and its ancestors, nearest first. -/
def kin (w : World) (s : Species) : List Species := s :: (s.parent.map w.lineage).getD []

/-- The default of an attribute: that of the nearest species that declares it. -/
def default? (w : World) (s : Species) (name : String) : Option Value :=
  (w.kin s).findSome? fun sp => sp.attributes.reverse.lookup name

theorem lookup_reverse_flatMap {α : Type} (l : List α) (g : α → List (String × Value))
    (name : String) :
    (l.reverse.flatMap g).reverse.lookup name = l.findSome? fun x => (g x).reverse.lookup name := by
  induction l with
  | nil => rfl
  | cons x rest ih =>
    rw [List.reverse_cons, List.flatMap_append, List.flatMap_singleton, List.reverse_append,
      List.lookup_append, ih, List.findSome?_cons]
    cases (g x).reverse.lookup name <;> rfl

/-- Of all declarations of a name the nearest one counts. -/
theorem lookup_declared (w : World) (s : Species) (name : String) :
    (w.declared s).reverse.lookup name = w.default? s name :=
  lookup_reverse_flatMap (w.kin s) (·.attributes) name

/-- What a new agent has for a name that no initial value is given for: nothing, or a copy of what
the default was in an earlier store. -/
theorem get?_defaults {w : World} {s s₁ : Store} {sp : Species} (hs : s.Extends s₁)
    (h : ∀ f ∈ w.declared sp, f.2.Within s.extent) (name : String) :
    match w.default? sp name with
    | some d => ∃ v, (w.defaults s₁ sp).1.get? name = some v ∧ s.Copied (w.defaults s₁ sp).2 d v
    | none => (w.defaults s₁ sp).1.get? name = none := by
  have hcopies := List.forall₂_reverse_iff.mpr (copied_copyDefaults hs h)
  have hget : (w.defaults s₁ sp).1.get? name =
      (copyDefaults s₁ (w.declared sp)).1.reverse.lookup name := Record.get?_ofList _ name
  rw [← lookup_declared, hget]
  rcases Record.lookup_forall₂ hcopies name with ⟨hnone, hnone'⟩ | ⟨d, v, hd, hv, hcopied⟩
  · rw [hnone]
    exact hnone'
  · rw [hd]
    exact ⟨v, hv, hcopied⟩

/-! ## Members in the order of their births -/

/-- There is one slot for a host and a species, and it lists agents of the world. -/
structure Listing (w : World) : Prop where
  keys : (slotKeys w.slots).Nodup
  lt : ∀ i ∈ listedIds w.slots, i < w.agents.size

/-- Whoever lives comes last in the slot that is joined, whether or not the slot was full. -/
theorem live_joinSlot (dead : AgentRef → Bool) (a : AgentRef) (s : Slot) :
    (joinSlot dead a s).live dead = s.live dead ++ [a].filter fun m => !dead m := by
  unfold joinSlot
  by_cases hfull : s.members.size = s.capacity
  · simp [hfull, Slot.live, sweepSlot]
  · simp [hfull, Slot.live]

/-- The live agents that the slots of a host and a species list. -/
def liveIn (dead : AgentRef → Bool) (host : Nat) (species : String) (slots : List Slot) :
    List AgentRef :=
  (slots.filter fun s => s.host == host && s.species == species).flatMap (·.live dead)

theorem liveIn_cons (dead : AgentRef → Bool) (host : Nat) (species : String) (s : Slot)
    (rest : List Slot) :
    liveIn dead host species (s :: rest) =
      (if s.host = host ∧ s.species = species then s.live dead else []) ++
        liveIn dead host species rest := by
  unfold liveIn
  by_cases h : s.host = host ∧ s.species = species
  · simp [h]
  · have hskip : ¬(s.host == host && s.species == species) = true := by simpa using h
    rw [List.filter_cons, if_neg hskip, if_neg h, List.nil_append]

theorem liveIn_eq_nil {host : Nat} {species : String} {slots : List Slot}
    (h : (host, species) ∉ slotKeys slots) (dead : AgentRef → Bool) :
    liveIn dead host species slots = [] := by
  unfold liveIn
  rw [List.filter_eq_nil_iff.mpr, List.flatMap_nil]
  intro s hs hkey
  simp only [Bool.and_eq_true, beq_iff_eq] at hkey
  exact h (List.mem_map.mpr ⟨s, hs, by rw [hkey.1, hkey.2]⟩)

/-- Whoever joins a slot comes after all others of the host and the species. -/
theorem liveIn_joinSlots (dead : AgentRef → Bool) (a : AgentRef) (host : Nat) (species : String)
    {slots : List Slot} (hkeys : (slotKeys slots).Nodup) (host' : Nat) (species' : String) :
    liveIn dead host' species' (joinSlots dead host species a slots) =
      liveIn dead host' species' slots ++
        if host' = host ∧ species' = species then [a].filter fun m => !dead m else [] := by
  induction slots with
  | nil =>
    rw [joinSlots, liveIn_cons]
    by_cases h : host' = host ∧ species' = species
    · obtain ⟨rfl, rfl⟩ := h
      simp [liveIn, Slot.live]
    · rw [if_neg h, if_neg (by simpa [eq_comm] using h)]
      rfl
  | cons s rest ih =>
    obtain ⟨hs, hrest⟩ := List.nodup_cons.mp hkeys
    unfold joinSlots
    split
    case isTrue hkey =>
      obtain ⟨rfl, rfl⟩ := hkey
      obtain ⟨hhost, hspecies⟩ := joinSlot_key dead a s
      rw [liveIn_cons, liveIn_cons, hhost, hspecies, live_joinSlot]
      by_cases h : host' = s.host ∧ species' = s.species
      · obtain ⟨rfl, rfl⟩ := h
        -- No other slot is of this host and species.
        simp [liveIn_eq_nil hs]
      · have hskip : ¬(s.host = host' ∧ s.species = species') := by simpa [eq_comm] using h
        rw [if_neg hskip, if_neg hskip, if_neg h, List.append_nil]
    case isFalse hkey => rw [liveIn_cons, liveIn_cons, ih hrest, List.append_assoc]

theorem liveIn_congr {dead dead' : AgentRef → Bool} {slots : List Slot}
    (h : ∀ a : AgentRef, a.id ∈ listedIds slots → dead' a = dead a) (host : Nat)
    (species : String) : liveIn dead' host species slots = liveIn dead host species slots := by
  unfold liveIn
  refine List.flatMap_congr fun s hs => ?_
  have hmem (a : AgentRef) (ha : a ∈ s.members) : a.id ∈ listedIds slots :=
    List.mem_flatMap.mpr ⟨s, (List.mem_filter.mp hs).1,
      List.mem_map_of_mem (Array.mem_toList_iff.mpr ha)⟩
  rw [Slot.live, Slot.live, Array.toList_filter, Array.toList_filter]
  exact List.filter_congr fun a ha => by rw [h a (hmem a (Array.mem_toList_iff.mp ha))]

theorem members_eq_liveIn (w : World) (host : AgentRef) (species : String) :
    w.members host species = liveIn w.isDead host.id species w.slots := rfl

section
variable {w : World} (h : w.Listing) (p : Population) (attributes : Record)
include h

theorem Listing.birth : (w.birth p attributes).2.Listing where
  keys := nodup_slotKeys_joinSlots _ _ _ _ h.keys
  lt i hi := by
    rw [size_birth]
    obtain ⟨host, species, hlists⟩ := mem_listedIds.mp hi
    rcases lists_of_joinSlots _ _ _ _ hlists with ⟨-, -, rfl⟩ | hlists
    · exact Nat.lt_succ_self _
    · exact Nat.lt_succ_of_lt (h.lt i (mem_listedIds.mpr ⟨host, species, hlists⟩))

/-- A new agent comes after all others of its population, and no other population changes. -/
theorem members_birth (host : AgentRef) (species : String) :
    (w.birth p attributes).2.members host species =
      w.members host species ++
        if host.id = p.host.id ∧ species = p.species.name then [(w.birth p attributes).1]
        else [] := by
  have hnew : (w.birth p attributes).2.isDead (w.birth p attributes).1 = false :=
    congrArg Agent.dead (Heap.get_push_size w.agents _)
  have hold (a : AgentRef) (ha : a.id ∈ listedIds w.slots) :
      (w.birth p attributes).2.isDead a = w.isDead a :=
    congrArg Agent.dead (Heap.get_push_lt w.agents _ _ (h.lt a.id ha))
  have hjoin := liveIn_joinSlots (w.birth p attributes).2.isDead (w.birth p attributes).1 p.host.id
    p.species.name h.keys host.id species
  rw [liveIn_congr hold, ← members_eq_liveIn, List.filter_singleton, hnew] at hjoin
  exact hjoin

end

/-- New agents come after all others of their population, in the order of their births. -/
theorem members_births {w : World} (h : w.Listing) (p : Population) (defaults : Record)
    (inits : List Record) :
    (births p defaults inits w).2.members p.host p.species.name =
      w.members p.host p.species.name ++ (births p defaults inits w).1 := by
  induction inits generalizing w with
  | nil => exact (List.append_nil _).symm
  | cons init rest ih =>
    rw [births_cons]
    dsimp only
    rw [ih (h.birth p _), members_birth h, if_pos ⟨rfl, rfl⟩, List.append_assoc,
      List.singleton_append]

/-! ### Along runs -/

theorem Listing.of_same {w w' : World} (h : w.Listing) (hslots : w'.slots = w.slots)
    (hsize : w'.agents.size = w.agents.size) : w'.Listing :=
  ⟨by rw [hslots]; exact h.keys, by rw [hslots, hsize]; exact h.lt⟩

theorem Listing.births {w : World} (h : w.Listing) (p : Population) (defaults : Record)
    (inits : List Record) : (births p defaults inits w).2.Listing := by
  induction inits generalizing w with
  | nil => exact h
  | cons init rest ih => exact ih (h.birth p _)

theorem Listing.move {w : World} (h : w.Listing) (held : AgentRef → Bool) (s : Store)
    {a : AgentRef} (p : Population) (ha : a.id < w.agents.size) :
    (w.move held s a p).1.Listing where
  keys := by
    rw [move_slots]
    refine nodup_slotKeys_joinSlots _ _ _ _ ?_
    rw [slotKeys_slotsWithout, (slots_forget held w a).1]
    exact h.keys
  lt i hi := by
    rw [size_move]
    rw [move_slots] at hi
    obtain ⟨host, species, hlists⟩ := mem_listedIds.mp hi
    rcases lists_of_joinSlots _ _ _ _ hlists with ⟨-, -, rfl⟩ | hlists
    · exact ha
    · refine h.lt i (mem_listedIds.mpr ⟨host, species, ?_⟩)
      have hbefore := lists_of_slotsWithout hlists
      rwa [(slots_forget held w a).1] at hbefore

/-- Each change keeps the slots in order. -/
theorem Listing.change {w w' : World} (h : w.Listing) (hc : Change w w') : w'.Listing := by
  cases hc with
  | assigned a name v => exact h.of_same rfl (size_update w a _)
  | death a => exact h.of_same rfl (size_update w a _)
  | lost held a => exact h.of_same (slots_forget held w a).1 (size_forget held w a)
  | born s p inits hp => exact h.births p _ inits
  | moved held hid s a p ha hp => exact h.move held s p ha

/-- The slots of every world that comes about are in order. -/
theorem Reachable.listing {w : World} (h : w.Reachable) : w.Listing := by
  induction h with
  | start root => exact ⟨List.nodup_nil, fun i hi => nomatch hi⟩
  | register s _ ih => exact ih.of_same rfl rfl
  | @sweep w _ ih =>
    exact ⟨ih.keys.sublist (slotKeys_sweep w), fun i hi => ih.lt i ((listedIds_sweep w).subset hi)⟩
  | change _ hc ih => exact ih.change hc

/-! ## Births and the world -/

/-- The world is another one as soon as somebody is born. -/
theorem births_world_iff (p : Population) (defaults : Record) (inits : List Record) (w : World) :
    (births p defaults inits w).2 = w ↔ (births p defaults inits w).1 = [] := by
  have hsize := size_births p defaults inits w
  have hlength := length_births p defaults inits w
  constructor
  · intro h
    rw [h] at hsize
    exact List.eq_nil_of_length_eq_zero (by omega)
  · intro h
    rw [h] at hlength
    rw [List.eq_nil_of_length_eq_zero hlength.symm]
    rfl

end World
end Habitat
