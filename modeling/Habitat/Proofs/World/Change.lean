import Habitat.World.Population
import Mathlib.Logic.Relation

/-!
# What statements do to the world

Statements change the world in five ways, and `World.Change` lists them. What holds along every
run follows from what holds for each of them.
-/
namespace Habitat

namespace Heap

variable {α : Type}

@[simp] theorem size_modify (h : Heap α) (i : Nat) (f : α → α) : (h.modify i f).size = h.size := by
  simp [size, modify]

theorem get_modify_self [Inhabited α] (h : Heap α) (i : Nat) (f : α → α) (hi : i < h.size) :
    (h.modify i f).get i = f (h.get i) := by
  rw [modify_eq_set, get_eq, get?_set_self h i _ hi, Option.getD_some]

theorem get_modify_ne [Inhabited α] (h : Heap α) (i j : Nat) (f : α → α) (hij : i ≠ j) :
    (h.modify i f).get j = h.get j := by
  rw [modify_eq_set, get_eq, get?_set_ne h i j _ hij, ← get_eq]

/-- Writing back what a cell holds changes nothing. -/
theorem set_get_self [Inhabited α] (h : Heap α) (i : Nat) : h.set i (h.get i) = h := by
  obtain ⟨cells⟩ := h
  by_cases hi : i < cells.size
  · simp [set, get, Array.setIfInBounds, hi]
  · simp [set, Array.setIfInBounds, hi]

theorem get_push_lt [Inhabited α] (h : Heap α) (a : α) (i : Nat) (hi : i < h.size) :
    (h.push a).get i = h.get i := by
  rw [get_eq, get?_push_lt h a i hi, ← get_eq]

theorem get_push_size [Inhabited α] (h : Heap α) (a : α) : (h.push a).get h.size = a := by
  rw [get_eq, get?_push_size, Option.getD_some]

theorem get_of_size_le [Inhabited α] (h : Heap α) (i : Nat) (hi : h.size ≤ i) :
    h.get i = default := by
  simp only [size] at hi
  simp [get, hi]

theorem get_push [Inhabited α] (h : Heap α) (a : α) (i : Nat) :
    (h.push a).get i = if i = h.size then a else h.get i := by
  rcases Nat.lt_trichotomy i h.size with hi | rfl | hi
  · rw [if_neg (Nat.ne_of_lt hi), get_push_lt h a i hi]
  · rw [if_pos rfl, get_push_size]
  · rw [if_neg (Nat.ne_of_gt hi), get_of_size_le h i (Nat.le_of_lt hi),
      get_of_size_le _ i (by rw [size_push]; exact hi)]

end Heap

namespace World

/-- Whether something is held is decided by the numbers of agents. -/
def ById (held : AgentRef → Bool) : Prop := ∀ a b, a.id = b.id → held a = held b

/-- One change of the world by a statement. -/
inductive Change : World → World → Prop
  | assigned (w : World) (a : AgentRef) (name : String) (v : Value) :
    Change w (w.setAttribute a name v)
  | death (w : World) (a : AgentRef) : Change w (w.kill a)
  | lost (w : World) (held : AgentRef → Bool) (a : AgentRef) : Change w (w.forget held a)
  | born (w : World) (s : Store) (p : Population) (inits : List Record)
      (hp : p.host.id < w.agents.size) : Change w (w.populate s p inits).2.1
  | moved (w : World) (held : AgentRef → Bool) (hid : ById held) (s : Store) (a : AgentRef)
      (p : Population) (ha : a.id < w.agents.size) (hp : p.host.id < w.agents.size) :
    Change w (w.move held s a p).1

/-- Any number of changes. -/
abbrev Follows : World → World → Prop := Relation.ReflTransGen Change

/-! ## Sizes -/

@[simp] theorem size_update (w : World) (a : AgentRef) (f : Agent → Agent) :
    (w.update a f).agents.size = w.agents.size := by
  simp [update]

@[simp] theorem size_forget (held : AgentRef → Bool) (w : World) (a : AgentRef) :
    (w.forget held a).agents.size = w.agents.size := by
  unfold forget
  split <;> simp

@[simp] theorem size_move (held : AgentRef → Bool) (w : World) (s : Store) (a : AgentRef)
    (p : Population) : (w.move held s a p).1.agents.size = w.agents.size := by
  simp [move, insertMember, update]

@[simp] theorem size_birth (w : World) (p : Population) (attributes : Record) :
    (w.birth p attributes).2.agents.size = w.agents.size + 1 := by
  simp [birth, insertMember]

theorem size_births (p : Population) (defaults : Record) (inits : List Record) (w : World) :
    (births p defaults inits w).2.agents.size = w.agents.size + inits.length := by
  induction inits generalizing w with
  | nil => rfl
  | cons init rest ih =>
    simp only [births, ih, size_birth, List.length_cons]
    omega

/-- Agents are never taken away. -/
theorem Change.size_le {w w' : World} (h : Change w w') : w.agents.size ≤ w'.agents.size := by
  cases h with
  | assigned | death | lost | moved => simp [setAttribute, kill]
  | born s p inits => simp [populate, size_births]

/-! ## Species -/

theorem species_forget (held : AgentRef → Bool) (w : World) (a : AgentRef) :
    (w.forget held a).species = w.species := by
  unfold forget
  split <;> rfl

theorem species_births (p : Population) (defaults : Record) (inits : List Record) (w : World) :
    (births p defaults inits w).2.species = w.species := by
  induction inits generalizing w with
  | nil => rfl
  | cons init rest ih => exact ih _

/-- Statements register no species. -/
theorem Change.species_eq {w w' : World} (h : Change w w') : w'.species = w.species := by
  cases h with
  | assigned | death => rfl
  | lost held a => exact species_forget held w a
  | born s p inits hp => exact species_births p _ inits w
  | moved held hid s a p ha hp => exact species_forget held w a

/-- A world has come from another one: no agent is missing, and the species are the same. -/
structure Within (w v : World) : Prop where
  size_le : w.agents.size ≤ v.agents.size
  species_eq : v.species = w.species

theorem Within.refl (w : World) : w.Within w := ⟨Nat.le_refl _, rfl⟩

theorem Within.trans {u v w : World} (h : u.Within v) (h' : v.Within w) : u.Within w :=
  ⟨Nat.le_trans h.size_le h'.size_le, h'.species_eq.trans h.species_eq⟩

theorem within_forget (held : AgentRef → Bool) (w : World) (a : AgentRef) :
    w.Within (w.forget held a) :=
  ⟨Nat.le_of_eq (size_forget held w a).symm, species_forget held w a⟩

theorem within_move (held : AgentRef → Bool) (w : World) (s : Store) (a : AgentRef)
    (p : Population) : w.Within (w.move held s a p).1 :=
  ⟨Nat.le_of_eq (size_move held w s a p).symm, species_forget held w a⟩

theorem Change.within {w w' : World} (h : Change w w') : w.Within w' := ⟨h.size_le, h.species_eq⟩

theorem Follows.within {w w' : World} (h : Follows w w') : w.Within w' := by
  induction h with
  | refl => exact .refl w
  | tail _ hc ih => exact ih.trans hc.within

/-! ## Agents of the world -/

theorem agent_update (w : World) (a b : AgentRef) (f : Agent → Agent) :
    (w.update a f).agent b =
      if a.id = b.id ∧ b.id < w.agents.size then f (w.agent b) else w.agent b := by
  unfold update agent
  by_cases hid : a.id = b.id
  · by_cases hlt : b.id < w.agents.size
    · rw [if_pos ⟨hid, hlt⟩, ← hid, Heap.get_modify_self _ _ _ (hid ▸ hlt)]
    · rw [if_neg (fun h => hlt h.2), Heap.get_of_size_le _ _ (by simpa using hlt),
        Heap.get_of_size_le _ _ (by simpa using hlt)]
  · rw [if_neg (fun h => hid h.1), Heap.get_modify_ne _ _ _ _ hid]

/-- A part of an agent that a change leaves alone. -/
theorem agent_update_field {β : Type} (part : Agent → β) (w : World) (a b : AgentRef)
    {f : Agent → Agent} (hf : ∀ x, part (f x) = part x) :
    part ((w.update a f).agent b) = part (w.agent b) := by
  rw [agent_update]
  split
  · exact hf _
  · rfl

/-- Only agents of the world hold populations. -/
theorem population?_host {w : World} {h : AgentRef} {species : String} {p : Population}
    (hp : w.population? h species = some p) : p.host = h ∧ h.id < w.agents.size := by
  unfold population? at hp
  split at hp
  · obtain ⟨s, -, rfl⟩ := Option.map_eq_some_iff.mp hp
    exact ⟨rfl, ‹_›⟩
  · cases hp

theorem find?_eq_some {w : World} {name : String} {s : Species} (h : w.find? name = some s) :
    s ∈ w.species ∧ s.name = name := by
  refine ⟨List.mem_of_find?_eq_some h, ?_⟩
  have hname := List.find?_some h
  exact beq_iff_eq.mp hname

/-- Species and their ancestors are found alike where the species are the same. -/
theorem lineage_congr {w w' : World} (h : w'.species = w.species) (name : String) :
    w'.lineage name = w.lineage name := by
  have hfind : w'.find? = w.find? := by
    funext name
    rw [find?, find?, h]
  have hancestry (n : Nat) (name : String) : w'.ancestryAt n name = w.ancestryAt n name := by
    induction n generalizing name with
    | zero => rfl
    | succ n ih =>
      rw [ancestryAt, ancestryAt, hfind]
      cases (w.find? name).bind (·.parent) with
      | none => rfl
      | some parent => exact congrArg (name :: ·) (ih parent)
  rw [lineage, lineage, ancestry, ancestry, h, hancestry, hfind]

theorem microSpecies?_congr {w w' : World} (h : w'.species = w.species) (host micro : String) :
    w'.microSpecies? host micro = w.microSpecies? host micro := by
  rw [microSpecies?, microSpecies?, lineage_congr h, find?, find?, h]

/-- A population of a host and a species of the world. -/
structure Offers (w : World) (p : Population) : Prop where
  host : p.host.id < w.agents.size
  species : p.species ∈ w.species

theorem Offers.within {w v : World} {p : Population} (h : w.Offers p) (hv : w.Within v) :
    v.Offers p :=
  ⟨Nat.lt_of_lt_of_le h.host hv.size_le, hv.species_eq ▸ h.species⟩

/-- What is found for a host is offered. -/
theorem population?_offers {w : World} {h : AgentRef} {species : String} {p : Population}
    (hp : w.population? h species = some p) : w.Offers p := by
  unfold population? microSpecies? at hp
  split at hp
  · obtain ⟨s, hs, rfl⟩ := Option.map_eq_some_iff.mp hp
    split at hs
    · exact ⟨‹_›, (find?_eq_some hs).1⟩
    · cases hs
  · cases hp

theorem populationFor?_offers {held : AgentRef → Bool} {w : World} {a : AgentRef}
    {species : String} {p : Population} (hp : w.populationFor? held a species = some p) :
    w.Offers p := by
  obtain ⟨h, -, hh⟩ := List.exists_of_findSome?_eq_some hp
  exact population?_offers hh

theorem populationFor?_host {held : AgentRef → Bool} {w : World} {a : AgentRef}
    {species : String} {p : Population} (hp : w.populationFor? held a species = some p) :
    p.host ∈ w.hostChain held a ∧ p.host.id < w.agents.size := by
  obtain ⟨h, hmem, hh⟩ := List.exists_of_findSome?_eq_some hp
  obtain ⟨rfl, hlt⟩ := population?_host hh
  exact ⟨hmem, hlt⟩

/-- What is not in the world counts as dead. -/
theorem lt_size_of_alive {w : World} {a : AgentRef} (h : w.isDead a = false) :
    a.id < w.agents.size := by
  refine Nat.lt_of_not_le fun hge => ?_
  rw [isDead, agent, Heap.get_of_size_le _ _ hge] at h
  cases h

/-- What is not in the world has no host. -/
theorem lt_size_of_host {w : World} {a h : AgentRef} (hh : (w.agent a).host = some h) :
    a.id < w.agents.size := by
  refine Nat.lt_of_not_le fun hge => ?_
  rw [agent, Heap.get_of_size_le _ _ hge] at hh
  cases hh

theorem knownHost?_eq_some {w : World} {a h : AgentRef} :
    w.knownHost? a = some h ↔ (w.agent a).host = some h ∧ (w.agent h).gone = false := by
  unfold knownHost?
  split
  case h_1 h' heq =>
    rw [heq]
    split
    case isTrue hg =>
      constructor
      · intro hx
        cases hx
      · intro hx
        obtain ⟨⟨⟩, hg'⟩ := hx
        rw [hg] at hg'; cases hg'
    case isFalse hg =>
      constructor
      · intro hx
        cases hx
        exact ⟨rfl, by simpa using hg⟩
      · intro hx
        obtain ⟨h, -⟩ := hx
        exact h
  case h_2 heq => simp [heq]

theorem host?_eq_some {held : AgentRef → Bool} {w : World} {a h : AgentRef} :
    w.host? held a = some h ↔
      w.knownHost? a = some h ∧ (w.isDead h = false ∨ held h = true) := by
  unfold host?
  split
  case h_1 h' heq =>
    rw [heq]
    split
    case isTrue hg =>
      constructor
      · intro hx
        cases hx
      · intro hx
        rcases hx with ⟨⟨⟩, hd | hh⟩ <;> simp_all
    case isFalse hg =>
      constructor
      · intro hx
        cases hx
        refine ⟨rfl, ?_⟩
        cases hd : w.isDead h with
        | false => exact .inl rfl
        | true => exact .inr (by simpa [hd] using hg)
      · intro hx
        obtain ⟨h, -⟩ := hx
        exact h
  case h_2 heq => simp [heq]

theorem knownHost?_of_host? {held : AgentRef → Bool} {w : World} {a h : AgentRef}
    (hh : w.host? held a = some h) : w.knownHost? a = some h := (host?_eq_some.mp hh).1

/-- What is forgotten has died, and nothing holds it. -/
theorem forget_cases (held : AgentRef → Bool) (w : World) (a : AgentRef) :
    w.forget held a = w ∨
      ∃ h, h ∈ w.trailAt w.agents.size a ∧ w.isDead h = true ∧ held h = false ∧
        w.forget held a = w.update h fun x => { x with gone := true } := by
  unfold forget
  split
  case h_1 h hfind =>
    have hh := List.find?_some hfind
    simp only [Bool.and_eq_true, Bool.not_eq_true'] at hh
    exact .inr ⟨h, List.mem_of_find?_eq_some hfind, hh.1, hh.2, rfl⟩
  case h_2 => exact .inl rfl

theorem isDead_forget (held : AgentRef → Bool) (w : World) (a b : AgentRef) :
    (w.forget held a).isDead b = w.isDead b := by
  rcases forget_cases held w a with h | ⟨h, -, -, -, heq⟩
  · rw [h]
  · rw [heq]
    exact agent_update_field (f := fun x => { x with gone := true }) (·.dead) w h b fun _ => rfl

theorem isDead_kill {w : World} {a b : AgentRef} :
    (w.kill a).isDead b = false ↔ w.isDead b = false ∧ b.id ≠ a.id := by
  simp only [isDead, kill, agent_update]
  split
  case isTrue h => simp [h.1]
  case isFalse h =>
    refine ⟨fun hb => ⟨hb, fun hid => h ⟨hid.symm, lt_size_of_alive hb⟩⟩, fun hb => hb.1⟩

theorem isDead_setAttribute (w : World) (a b : AgentRef) (name : String) (v : Value) :
    (w.setAttribute a name v).isDead b = w.isDead b :=
  agent_update_field (f := fun x => { x with attributes := x.attributes.insert name v })
    (·.dead) w a b fun _ => rfl

theorem isDead_move (held : AgentRef → Bool) (w : World) (s : Store) (a b : AgentRef)
    (p : Population) : (w.move held s a p).1.isDead b = w.isDead b := by
  rw [← isDead_forget held w a b]
  exact agent_update_field (·.dead) _ a b fun _ => rfl

/-- Nobody dies when others are born. -/
theorem isDead_births {p : Population} {defaults : Record} {inits : List Record} {w : World}
    {b : AgentRef} (hb : w.isDead b = false) : (births p defaults inits w).2.isDead b = false := by
  induction inits generalizing w with
  | nil => exact hb
  | cons init rest ih =>
    refine ih ?_
    have hpush := Heap.get_push_lt w.agents ⟨w.nextName p.species.name, p.species.name,
      some p.host, defaults.extend init.fields, false, false⟩ b.id (lt_size_of_alive hb)
    exact (congrArg Agent.dead hpush).trans hb

/-- Forgetting a host that nothing holds changes nobody's host. -/
theorem host?_forget {held : AgentRef → Bool} (hid : ById held) (w : World) (a b : AgentRef) :
    (w.forget held a).host? held b = w.host? held b := by
  rcases forget_cases held w a with h | ⟨h, -, hdead, hheld, heq⟩
  · rw [h]
  · rw [heq]
    refine Option.ext fun x => ?_
    simp only [host?_eq_some, knownHost?_eq_some, isDead]
    have hhost := agent_update_field (f := fun x => { x with gone := true }) (·.host) w h b
      fun _ => rfl
    have hdie := agent_update_field (f := fun x => { x with gone := true }) (·.dead) w h x
      fun _ => rfl
    rw [hhost, hdie, agent_update]
    split
    case isTrue hx =>
      have hxd : (w.agent x).dead = true := by
        rw [agent, ← hx.1]
        exact hdead
      have hxh : held x = false := by rw [← hid h x hx.1, hheld]
      simp [hxd, hxh]
    case isFalse => rfl

theorem alive_of_mem_members {w : World} {h a : AgentRef} {species : String}
    (ha : a ∈ w.members h species) : w.isDead a = false := by
  obtain ⟨s, -, hs⟩ := List.mem_flatMap.mp ha
  simpa [Slot.live] using (Array.mem_filter.mp (Array.mem_toList_iff.mp hs)).2

end World
end Habitat
