import Habitat.Proofs.World.Births
import Habitat.Proofs.World.Losses

/-!
# Forgetting the dead

Dead agents are dropped from their slots when the world is swept, and when an agent joins a slot
that is full. A dead host that nothing holds any more is then gone, so that its agents cannot
leave its slots when they are moved. None of that shows in the members of a live host.

What an operation does to the members of a live host is told from the members before and from the
agents alone (`members_birth`, `members_move`, `members_kill`, `members_sweep`): neither from who
is still listed nor from who is still held. So two worlds keep the same living (`SameLiving`) when
the same is done to them, while one forgets and the other does not.

When a slot is full depends on its capacity, which nothing else reads. `forgetful` runs operations
on slots of any capacities, so that any agent that joins may find a full slot; `run` is the case
in which they are full as they are (`forgetful_own`). `retentive` runs them without sweeps, on
slots that always have room, and with every agent held.

* `SameLiving.step`, `SameLiving.run`: what one operation and a whole run keep.
* `listed_retentive`: a run that forgets nobody lists every agent but the root.
* `forgetting_unobservable`: at every point of a run, a live host has the same members in both.
-/
namespace Habitat.World

/-! ## Members after one operation -/

/-- If more agents count as dead, the others stay in their order. -/
theorem liveIn_of_fewer {dead dead' : AgentRef → Bool} {keep : AgentRef → Bool}
    (h : ∀ m, (!dead' m) = (!dead m && keep m)) (host : Nat) (species : String)
    (slots : List Slot) :
    liveIn dead' host species slots = (liveIn dead host species slots).filter keep := by
  unfold liveIn
  rw [List.filter_flatMap]
  refine List.flatMap_congr fun s _ => ?_
  rw [Slot.live, Slot.live, Array.toList_filter, Array.toList_filter, List.filter_filter]
  exact List.filter_congr fun m _ => (h m).trans (Bool.and_comm _ _)

theorem live_sweepSlot (dead : AgentRef → Bool) (s : Slot) :
    (sweepSlot dead s).live dead = s.live dead := by
  simp [sweepSlot, Slot.live]

/-- A slot that is empty after a sweep had no live agent. -/
theorem liveIn_swept (dead : AgentRef → Bool) (host : Nat) (species : String)
    (slots : List Slot) :
    liveIn dead host species ((slots.map (sweepSlot dead)).filter fun s => !s.members.isEmpty) =
      liveIn dead host species slots := by
  induction slots with
  | nil => rfl
  | cons s rest ih =>
    rw [List.map_cons, List.filter_cons, liveIn_cons, ← ih]
    split
    case isTrue => rw [liveIn_cons, live_sweepSlot]; rfl
    case isFalse hempty =>
      have hnil : s.live dead = [] := by
        rw [← live_sweepSlot]
        simp only [Bool.not_eq_true', Bool.not_eq_false, Array.isEmpty_iff] at hempty
        rw [Slot.live, hempty]
        rfl
      rw [hnil, ite_self, List.nil_append]

theorem live_filter (dead keep : AgentRef → Bool) (s : Slot) :
    Slot.live { s with members := s.members.filter keep } dead = (s.live dead).filter keep := by
  simp [Slot.live, List.filter_filter, Bool.and_comm]

theorem liveIn_leaveSlots (dead : AgentRef → Bool) (a : AgentRef) (host : Nat) (species : String)
    (slots : List Slot) (host' : Nat) (species' : String) :
    liveIn dead host' species' (leaveSlots host species a slots) =
      if host = host' ∧ species = species' then
        (liveIn dead host' species' slots).filter fun m => m.id != a.id
      else liveIn dead host' species' slots := by
  induction slots with
  | nil => rw [leaveSlots, List.map_nil]; exact (ite_self _).symm
  | cons s rest ih =>
    rw [leaveSlots, List.map_cons, ← leaveSlots, liveIn_cons, liveIn_cons, ih]
    by_cases hs : s.host = host ∧ s.species = species
    · obtain ⟨rfl, rfl⟩ := hs
      by_cases hkey : s.host = host' ∧ s.species = species'
      · obtain ⟨rfl, rfl⟩ := hkey
        simp [live_filter]
      · simp [hkey]
    · by_cases hkey : host = host' ∧ species = species'
      · obtain ⟨rfl, rfl⟩ := hkey
        simp [hs]
      · simp [hs, hkey]

/-- A sweep drops nobody who lives. -/
theorem members_sweep (w : World) (host : AgentRef) (species : String) :
    w.sweep.members host species = w.members host species :=
  liveIn_swept w.isDead host.id species w.slots

/-- Whoever dies leaves the others in their order. -/
theorem members_kill (w : World) (a host : AgentRef) (species : String) :
    (w.kill a).members host species = (w.members host species).filter fun m => m.id != a.id := by
  refine liveIn_of_fewer (fun m => Bool.eq_iff_iff.mpr ?_) host.id species w.slots
  simp only [Bool.not_eq_true', Bool.and_eq_true, bne_iff_ne]
  exact isDead_kill

/-! ## Worlds in order -/

/-- There is one slot for a host and a species, and slots are of agents of the world and list
agents of the world. Whoever is gone has died. -/
structure Coherent (w : World) : Prop extends w.Listing where
  hosts : ∀ k ∈ slotKeys w.slots, k.1 < w.agents.size
  gone : ∀ a : AgentRef, (w.agent a).gone = true → w.isDead a = true

namespace Coherent
variable {w : World}

theorem start (root : Species) : (World.start root).Coherent where
  keys := List.nodup_nil
  lt _ hi := nomatch hi
  hosts _ hk := nomatch hk
  gone a hgone := by
    rw [isDead, agent, World.start, Heap.get_push] at *
    split at hgone
    · cases hgone
    · rw [if_neg (by assumption)]
      rfl

/-- A live host is known. -/
theorem host?_of_alive (h : w.Coherent) {held : AgentRef → Bool} {a x : AgentRef}
    (hhost : (w.agent a).host = some x) (hx : w.isDead x = false) : w.host? held a = some x := by
  refine host?_eq_some.mpr ⟨knownHost?_eq_some.mpr ⟨hhost, ?_⟩, .inl hx⟩
  rw [Bool.eq_false_iff]
  intro hgone
  rw [h.gone x hgone] at hx
  cases hx

theorem of_same {w' : World} (h : w.Coherent) (hslots : w'.slots = w.slots)
    (hsize : w'.agents.size = w.agents.size)
    (hgone : ∀ a, (w'.agent a).gone = true → (w.agent a).gone = true ∨ w.isDead a = true)
    (hdead : ∀ a, w.isDead a = true → w'.isDead a = true) : w'.Coherent where
  toListing := h.toListing.of_same hslots hsize
  hosts := by
    rw [hslots, hsize]
    exact h.hosts
  gone a ha := hdead a ((hgone a ha).elim (h.gone a) id)

theorem forget (h : w.Coherent) (held : AgentRef → Bool) (a : AgentRef) :
    (w.forget held a).Coherent := by
  have hspares := spares_forget held w a
  exact h.of_same (slots_forget held w a).1 hspares.size hspares.lost
    fun b hb => (hspares.dead b).trans hb

theorem kill (h : w.Coherent) (a : AgentRef) : (w.kill a).Coherent := by
  refine h.of_same rfl (size_update w a _) (fun b hb => .inl ?_) fun b hb => ?_
  · rwa [World.kill, agent_update_field (f := fun x => { x with dead := true }) (·.gone) w a b
      fun _ => rfl] at hb
  · by_contra halive
    rw [Bool.not_eq_true, isDead_kill, hb] at halive
    cases halive.1

theorem sweep (h : w.Coherent) : w.sweep.Coherent where
  keys := h.keys.sublist (slotKeys_sweep w)
  lt i hi := h.lt i ((listedIds_sweep w).subset hi)
  hosts k hk := h.hosts k ((slotKeys_sweep w).subset hk)
  gone := h.gone

end Coherent

/-- Joining opens at most a slot of the given host. -/
theorem hosts_joinSlots {n : Nat} {dead : AgentRef → Bool} {host : Nat} {species : String}
    {a : AgentRef} {slots : List Slot} (h : ∀ k ∈ slotKeys slots, k.1 < n) (hhost : host < n) :
    ∀ k ∈ slotKeys (joinSlots dead host species a slots), k.1 < n := by
  intro k hk
  rw [slotKeys_joinSlots] at hk
  split at hk
  · exact h k hk
  · rcases List.mem_append.mp hk with hk | hk
    · exact h k hk
    · rw [List.mem_singleton.mp hk]
      exact hhost

namespace Coherent
variable {w : World} (h : w.Coherent) {p : Population}
include h

theorem birth (hp : p.host.id < w.agents.size) (attributes : Record) :
    (w.birth p attributes).2.Coherent where
  toListing := h.toListing.birth p attributes
  hosts := by
    rw [size_birth]
    exact hosts_joinSlots (fun k hk => Nat.lt_succ_of_lt (h.hosts k hk)) (Nat.lt_succ_of_lt hp)
  gone b hb := by
    rw [isDead, agent, birth_get] at *
    split at hb
    · cases hb
    · rw [if_neg (by assumption)]
      exact h.gone b hb

theorem move (held : AgentRef → Bool) (s : Store) {a : AgentRef} (ha : a.id < w.agents.size)
    (hp : p.host.id < w.agents.size) : (w.move held s a p).1.Coherent where
  toListing := h.toListing.move held s p ha
  hosts := by
    rw [size_move, move_slots]
    refine hosts_joinSlots ?_ hp
    rw [slotKeys_slotsWithout, (slots_forget held w a).1]
    exact h.hosts
  gone b hb := by
    have hspares := spares_move held w s a p ha
    rw [hspares.dead]
    exact (hspares.lost b hb).elim (h.gone b) id

/-- An agent leaves the slot of a live host in any case, and no other slot of a live host. -/
theorem liveIn_slotsWithout (held : AgentRef → Bool) (a : AgentRef) {host : AgentRef}
    (hlive : w.isDead host = false) (species : String) :
    liveIn w.isDead host.id species (slotsWithout held w a) =
      if (w.agent a).host.map (·.id) = some host.id ∧ w.speciesOf a = species then
        (w.members host species).filter fun m => m.id != a.id
      else w.members host species := by
  unfold slotsWithout
  cases hknown : w.host? held a with
  | some x =>
    have hhost := (knownHost?_eq_some.mp (knownHost?_of_host? hknown)).1
    simp only [hhost, Option.map_some, Option.some.injEq]
    exact liveIn_leaveSlots _ _ _ _ _ _ _
  | none =>
    refine (if_neg fun hkey => ?_).symm
    obtain ⟨x, hx, hid⟩ := Option.map_eq_some_iff.mp hkey.1
    have halive : w.isDead x = false := by
      rw [isDead, agent, hid]
      exact hlive
    rw [h.host?_of_alive hx halive] at hknown
    cases hknown

/-- What a move does to the members of a live host: nothing in it depends on who is held. -/
theorem members_move (held : AgentRef → Bool) (s : Store) (a : AgentRef) (p : Population)
    {host : AgentRef} (hlive : w.isDead host = false) (species : String) :
    (w.move held s a p).1.members host species =
      (if (w.agent a).host.map (·.id) = some host.id ∧ w.speciesOf a = species then
        (w.members host species).filter fun m => m.id != a.id
      else w.members host species) ++
        if host.id = p.host.id ∧ species = p.species.name then [a].filter fun m => !w.isDead m
        else [] := by
  have hdead : (w.move held s a p).1.isDead = w.isDead :=
    funext fun b => isDead_move held w s a b p
  have hforget : (w.forget held a).isDead = w.isDead := funext (isDead_forget held w a)
  have hsame := (fades_forget held w a).same a.id
  have hkeys : (slotKeys (slotsWithout held (w.forget held a) a)).Nodup := by
    rw [slotKeys_slotsWithout]
    exact (h.forget held a).keys
  have hlive' : (w.forget held a).isDead host = false := (isDead_forget held w a host).trans hlive
  have hleft := (h.forget held a).liveIn_slotsWithout held a hlive' species
  have hmembers : (w.forget held a).members host species = w.members host species := by
    rw [members_eq_liveIn, hforget, (slots_forget held w a).1, ← members_eq_liveIn]
  rw [hforget, hmembers, agent, speciesOf, agent, hsame.1, hsame.2] at hleft
  rw [members_eq_liveIn, move_slots, hdead, liveIn_joinSlots _ _ _ _ hkeys, hleft]
  rfl

end Coherent

/-! ## Capacities -/

/-- The world with other capacities of its slots. -/
def withRoom (w : World) (room : Slot → Nat) : World :=
  { w with slots := w.slots.map fun s => { s with capacity := room s } }

theorem slotKeys_withRoom (w : World) (room : Slot → Nat) :
    slotKeys (w.withRoom room).slots = slotKeys w.slots := by
  rw [withRoom, slotKeys, List.map_map]
  rfl

theorem listedIds_withRoom (w : World) (room : Slot → Nat) :
    listedIds (w.withRoom room).slots = listedIds w.slots := by
  rw [withRoom, listedIds, List.flatMap_map]
  rfl

theorem members_withRoom (w : World) (room : Slot → Nat) (host : AgentRef) (species : String) :
    (w.withRoom room).members host species = w.members host species := by
  rw [withRoom, members, List.filter_map, List.flatMap_map]
  rfl

theorem Coherent.withRoom {w : World} (h : w.Coherent) (room : Slot → Nat) :
    (w.withRoom room).Coherent where
  keys := by rw [slotKeys_withRoom]; exact h.keys
  lt := by rw [listedIds_withRoom]; exact h.lt
  hosts := by rw [slotKeys_withRoom]; exact h.hosts
  gone := h.gone

/-! ## Worlds with the same living -/

/-- Two agents that differ at most in their names, their attributes and whether they are gone. -/
structure Alike (x y : Agent) : Prop where
  host : x.host = y.host
  species : x.species = y.species
  dead : x.dead = y.dead

theorem Alike.symm {x y : Agent} (h : Alike x y) : Alike y x :=
  ⟨h.host.symm, h.species.symm, h.dead.symm⟩

theorem Alike.trans {x y z : Agent} (h : Alike x y) (h' : Alike y z) : Alike x z :=
  ⟨h.host.trans h'.host, h.species.trans h'.species, h.dead.trans h'.dead⟩

/-- A host that is lost is gone, and nothing else. -/
theorem alike_forget (held : AgentRef → Bool) (w : World) (a b : AgentRef) :
    Alike ((w.forget held a).agent b) (w.agent b) :=
  have hsame := (fades_forget held w a).same b.id
  ⟨hsame.1, hsame.2, isDead_forget held w a b⟩

/-- Two worlds in order with as many agents, one like the other, whose live hosts have the same
members. They may differ in the dead that are listed or gone. -/
structure SameLiving (w v : World) : Prop where
  left : w.Coherent
  right : v.Coherent
  size : w.agents.size = v.agents.size
  counters : w.counters = v.counters
  agents : ∀ a, Alike (w.agent a) (v.agent a)
  members : ∀ host, w.isDead host = false → ∀ species,
    w.members host species = v.members host species

theorem counters_move (held : AgentRef → Bool) (w : World) (s : Store) (a : AgentRef)
    (p : Population) : (w.move held s a p).1.counters = w.counters := by
  change (w.forget held a).counters = w.counters
  rcases forget_cases held w a with h | ⟨x, -, -, -, h⟩ <;> rw [h]
  rfl

namespace SameLiving
variable {w v : World}

theorem refl (h : w.Coherent) : SameLiving w w :=
  ⟨h, h, rfl, rfl, fun _ => ⟨rfl, rfl, rfl⟩, fun _ _ _ => rfl⟩

variable (h : SameLiving w v)
include h

theorem dead (a : AgentRef) : w.isDead a = v.isDead a := (h.agents a).dead

theorem withRoom (room room' : Slot → Nat) : SameLiving (w.withRoom room) (v.withRoom room') where
  left := h.left.withRoom room
  right := h.right.withRoom room'
  size := h.size
  counters := h.counters
  agents := h.agents
  members host hlive species := by
    rw [members_withRoom, members_withRoom]
    exact h.members host hlive species

theorem register (s : Species) : SameLiving (w.register s) (v.register s) where
  left := ⟨⟨h.left.keys, h.left.lt⟩, h.left.hosts, h.left.gone⟩
  right := ⟨⟨h.right.keys, h.right.lt⟩, h.right.hosts, h.right.gone⟩
  size := h.size
  counters := h.counters
  agents := h.agents
  members := h.members

/-- One of the worlds is swept. -/
theorem sweep : SameLiving w.sweep v where
  left := h.left.sweep
  right := h.right
  size := h.size
  counters := h.counters
  agents := h.agents
  members host hlive species := by
    rw [members_sweep]
    exact h.members host hlive species

theorem kill (a : AgentRef) : SameLiving (w.kill a) (v.kill a) where
  left := h.left.kill a
  right := h.right.kill a
  size := by rw [World.kill, World.kill, size_update, size_update, h.size]
  counters := h.counters
  agents b := by
    have hhost (u : World) : ((u.kill a).agent b).host = (u.agent b).host :=
      agent_update_field (·.host) u a b fun _ => rfl
    have hspecies (u : World) : ((u.kill a).agent b).species = (u.agent b).species :=
      agent_update_field (·.species) u a b fun _ => rfl
    refine ⟨?_, ?_, ?_⟩
    · rw [hhost, hhost, (h.agents b).host]
    · rw [hspecies, hspecies, (h.agents b).species]
    · rw [← Bool.not_inj_iff, Bool.eq_iff_iff, Bool.not_eq_true', Bool.not_eq_true']
      exact isDead_kill.trans ((and_congr_left' (by rw [h.dead])).trans isDead_kill.symm)
  members host hlive species := by
    rw [members_kill, members_kill, h.members host (isDead_kill.mp hlive).1]

theorem birth {p : Population} (hp : p.host.id < w.agents.size) (attributes attributes' : Record) :
    SameLiving (w.birth p attributes).2 (v.birth p attributes').2 where
  left := h.left.birth hp attributes
  right := h.right.birth (h.size ▸ hp) attributes'
  size := by rw [size_birth, size_birth, h.size]
  counters := congrArg (countUp p.species.name) h.counters
  agents b := by
    rw [agent, agent, birth_get, birth_get, h.size]
    split
    · exact ⟨rfl, rfl, rfl⟩
    · exact h.agents b
  members host hlive species := by
    have hnew : (w.birth p attributes).1 = (v.birth p attributes').1 := by
      simp only [World.birth, nextName, h.size, h.counters]
    rw [World.members_birth h.left.toListing, World.members_birth h.right.toListing, hnew]
    congr 1
    by_cases hhost : host.id = w.agents.size
    · -- nobody is listed under an agent that is only now born
      have hempty {u : World} (hu : u.Coherent) (hsize : host.id = u.agents.size) :
          u.members host species = [] :=
        liveIn_eq_nil (fun hk => Nat.ne_of_lt (hu.hosts _ hk) hsize) _
      rw [hempty h.left hhost, hempty h.right (hhost.trans h.size)]
    · refine h.members host ?_ species
      rwa [isDead, agent, birth_get, if_neg hhost] at hlive

theorem move (held held' : AgentRef → Bool) (s s' : Store) {a : AgentRef} {p : Population}
    (ha : a.id < w.agents.size) (hp : p.host.id < w.agents.size) :
    SameLiving (w.move held s a p).1 (v.move held' s' a p).1 where
  left := h.left.move held s ha hp
  right := h.right.move held' s' (h.size ▸ ha) (h.size ▸ hp)
  size := by rw [size_move, size_move, h.size]
  counters := by rw [counters_move, counters_move, h.counters]
  agents b := by
    have hb := (alike_forget held w a b).trans ((h.agents b).trans (alike_forget held' v a b).symm)
    rw [agent_move held w s a p ha, agent_move held' v s' a p (h.size ▸ ha)]
    split
    · exact ⟨rfl, rfl, hb.dead⟩
    · exact hb
  members host hlive species := by
    rw [isDead_move] at hlive
    have hlive' : v.isDead host = false := (h.dead host).symm.trans hlive
    have hdead : w.isDead = v.isDead := funext h.dead
    have hspecies : w.speciesOf a = v.speciesOf a := (h.agents a).species
    rw [h.left.members_move held s a p hlive, h.right.members_move held' s' a p hlive',
      (h.agents a).host, hspecies, hdead, h.members host hlive]

end SameLiving

/-! ## Operations on slots of any capacities -/

/-- Births as in `births`, where `room` tells the capacities of the slots that an agent finds, from
the number of the agent. -/
def birthsIn (room : Nat → Slot → Nat) (p : Population) (defaults : Record) :
    List Record → World → World
  | [], w => w
  | init :: rest, w =>
    birthsIn room p defaults rest
      ((w.withRoom (room w.agents.size)).birth p (defaults.extend init.fields)).2

/-- The world after a creation, which does nothing for an abstract species. -/
def createIn (room : Nat → Slot → Nat) (w : World) (store : Store) (p : Population)
    (inits : List Record) : World :=
  if p.species.isAbstract then w else birthsIn room p (w.defaults store p.species).1 inits w

/-- An operation as in `Op.apply`, on slots of other capacities. -/
def Op.applyIn (room : Nat → Slot → Nat) (w : World) : Op → World
  | .create store p inits => w.createIn room store p inits
  | .move held store a p => ((w.withRoom (room a.id)).move (fun x => held x.id) store a p).1
  | op => op.apply w

/-- Room for one more in every slot. -/
def ample (_ : Nat) (s : Slot) : Nat := s.members.size + 1

/-- An operation that forgets nobody: no slot is full when an agent joins it, all agents are held,
and nothing is swept. -/
def Op.keep (w : World) : Op → World
  | .sweep => w
  | .create store p inits => w.createIn ample store p inits
  | .move _ store a p => ((w.withRoom (ample a.id)).move (fun _ => true) store a p).1
  | op => op.apply w

/-- An operation, and the capacities of the slots that agents find when they join them. -/
structure Call where
  op : Op
  room : Nat → Slot → Nat

/-- An operation on slots of the capacities that they have. -/
def Call.own (op : Op) : Call := ⟨op, fun _ s => s.capacity⟩

/-- The world after a run in which any slots may be full when agents join them. -/
def forgetful (w : World) (calls : List Call) : World :=
  calls.foldl (fun w c => c.op.applyIn c.room w) w

/-- The world after a run that forgets nobody. -/
def retentive (w : World) (ops : List Op) : World := ops.foldl Op.keep w

theorem withRoom_own (w : World) : (w.withRoom fun s => s.capacity) = w := by
  unfold withRoom
  rw [List.map_id']

theorem birthsIn_own (p : Population) (defaults : Record) (inits : List Record) (w : World) :
    birthsIn (fun _ s => s.capacity) p defaults inits w = (births p defaults inits w).2 := by
  induction inits generalizing w with
  | nil => rfl
  | cons init rest ih =>
    unfold birthsIn
    rw [withRoom_own]
    exact ih _

theorem createIn_own (w : World) (store : Store) (p : Population) (inits : List Record) :
    w.createIn (fun _ s => s.capacity) store p inits = (Op.create store p inits).apply w := by
  simp only [createIn, birthsIn_own, Op.apply, World.create]
  split <;> rfl

theorem Op.applyIn_own (op : Op) (w : World) :
    op.applyIn (fun _ s => s.capacity) w = op.apply w := by
  cases op with
  | create store p inits => exact createIn_own w store p inits
  | move held store a p => exact congrArg (Op.move held store a p).apply (withRoom_own w)
  | register | kill | sweep => rfl

/-- Any run is one in which slots are full as they are. -/
theorem forgetful_own (w : World) (ops : List Op) : forgetful w (ops.map .own) = run w ops := by
  unfold forgetful run
  rw [List.foldl_map]
  exact congrArg (List.foldl · w ops) (funext fun w => funext fun op => op.applyIn_own w)

/-- The agents that an operation names exist. -/
def Op.Names (w : World) : Op → Prop
  | .create _ p _ => p.host.id < w.agents.size
  | .move _ _ a p => a.id < w.agents.size ∧ p.host.id < w.agents.size
  | _ => True

instance (w : World) : (op : Op) → Decidable (op.Names w)
  | .create _ p _ => inferInstanceAs (Decidable (p.host.id < w.agents.size))
  | .move _ _ a p =>
    inferInstanceAs (Decidable (a.id < w.agents.size ∧ p.host.id < w.agents.size))
  | .register _ | .kill _ | .sweep => inferInstanceAs (Decidable True)

/-- Every operation of a run names agents that exist by then. -/
def Named : World → List Call → Prop
  | _, [] => True
  | w, c :: rest => c.op.Names w ∧ Named (c.op.applyIn c.room w) rest

instance decidableNamed : (w : World) → (calls : List Call) → Decidable (Named w calls)
  | _, [] => inferInstanceAs (Decidable True)
  | w, c :: rest =>
    have := decidableNamed (c.op.applyIn c.room w) rest
    inferInstanceAs (Decidable (c.op.Names w ∧ Named (c.op.applyIn c.room w) rest))

theorem Named.of_append {w : World} {pre rest : List Call} (h : Named w (pre ++ rest)) :
    Named w pre := by
  induction pre generalizing w with
  | nil => trivial
  | cons c pre ih => exact ⟨h.1, ih h.2⟩

/-! ## Nobody is forgotten -/

/-- A slot that is not full does not look at who is dead. -/
theorem joinSlots_of_room {slots : List Slot} (h : ∀ s ∈ slots, s.members.size < s.capacity)
    (dead dead' : AgentRef → Bool) (host : Nat) (species : String) (a : AgentRef) :
    joinSlots dead host species a slots = joinSlots dead' host species a slots := by
  induction slots with
  | nil => rfl
  | cons s rest ih =>
    have hs : s.members.size ≠ s.capacity := Nat.ne_of_lt (h s List.mem_cons_self)
    unfold joinSlots
    rw [ih fun t ht => h t (List.mem_cons_of_mem s ht), joinSlot, joinSlot, if_neg hs, if_neg hs]

theorem mem_listedIds_joinSlots {slots : List Slot}
    (h : ∀ s ∈ slots, s.members.size < s.capacity) (dead : AgentRef → Bool) (host : Nat)
    (species : String) (a : AgentRef) {i : Nat} (hi : i ∈ listedIds slots ∨ i = a.id) :
    i ∈ listedIds (joinSlots dead host species a slots) := by
  rcases hi with hi | rfl
  · obtain ⟨host', species', hlists⟩ := mem_listedIds.mp hi
    rw [joinSlots_of_room h dead fun _ => false]
    exact mem_listedIds.mpr ⟨host', species', lists_joinSlots _ _ _ _ hlists (.inr fun _ _ => rfl)⟩
  · exact mem_listedIds.mpr ⟨host, species, lists_joinSlots_self _ _ _ _ _⟩

theorem room_slotsWithout {held : AgentRef → Bool} {w : World} {a : AgentRef}
    (h : ∀ s ∈ w.slots, s.members.size < s.capacity) :
    ∀ s ∈ slotsWithout held w a, s.members.size < s.capacity := by
  unfold slotsWithout
  split
  · intro s hs
    obtain ⟨t, ht, rfl⟩ := List.mem_map.mp hs
    split
    · exact Nat.lt_of_le_of_lt Array.size_filter_le (h t ht)
    · exact h t ht
  · exact h

/-- All agents but the root are listed. -/
def Listed (w : World) : Prop := ∀ i, 0 < i → i < w.agents.size → i ∈ listedIds w.slots

theorem room_ample (w : World) (i : Nat) :
    ∀ s ∈ (w.withRoom (ample i)).slots, s.members.size < s.capacity := by
  intro s hs
  obtain ⟨t, -, rfl⟩ := List.mem_map.mp hs
  exact Nat.lt_succ_self _

namespace Listed
variable {w : World} (h : w.Listed)
include h

theorem birth (p : Population) (attributes : Record) :
    ((w.withRoom (ample w.agents.size)).birth p attributes).2.Listed := by
  intro i hpos hi
  rw [size_birth] at hi
  refine mem_listedIds_joinSlots (room_ample w _) _ _ _ _ ?_
  rcases Nat.lt_succ_iff_lt_or_eq.mp hi with hi | hi
  · refine .inl ?_
    rw [listedIds_withRoom]
    exact h i hpos hi
  · exact .inr hi

theorem births (p : Population) (defaults : Record) (inits : List Record) :
    (birthsIn ample p defaults inits w).Listed := by
  induction inits generalizing w with
  | nil => exact h
  | cons init rest ih => exact ih (h.birth p _)

theorem create (store : Store) (p : Population) (inits : List Record) :
    (w.createIn ample store p inits).Listed := by
  unfold createIn
  split
  · exact h
  · exact h.births p _ inits

theorem move (held : AgentRef → Bool) (s : Store) (a : AgentRef) (p : Population) :
    ((w.withRoom (ample a.id)).move held s a p).1.Listed := by
  intro i hpos hi
  rw [size_move] at hi
  rw [move_slots]
  have hslots := (slots_forget held (w.withRoom (ample a.id)) a).1
  have hroom : ∀ s ∈ ((w.withRoom (ample a.id)).forget held a).slots,
      s.members.size < s.capacity := by
    rw [hslots]
    exact room_ample w _
  refine mem_listedIds_joinSlots (room_slotsWithout hroom) _ _ _ _ ?_
  by_cases hia : i = a.id
  · exact .inr hia
  · have hlisted := h i hpos hi
    rw [← listedIds_withRoom w (ample a.id), ← hslots] at hlisted
    obtain ⟨host, species, hlists⟩ := mem_listedIds.mp hlisted
    exact .inl (mem_listedIds.mpr ⟨host, species, (lists_slotsWithout hia).mpr hlists⟩)

theorem keep (op : Op) : (op.keep w).Listed := by
  cases op with
  | register s => exact h
  | create store p inits => exact h.create store p inits
  | move held store a p => exact h.move _ store a p
  | kill a =>
    intro i hpos hi
    exact h i hpos (Nat.lt_of_lt_of_eq hi (size_update w a _))
  | sweep => exact h

end Listed

theorem listed_retentive {w : World} (h : w.Listed) (ops : List Op) : (retentive w ops).Listed := by
  induction ops generalizing w with
  | nil => exact h
  | cons op rest ih => exact ih (h.keep op)

/-! ## Runs -/

namespace SameLiving
variable {w v : World}

theorem births (h : SameLiving w v) (room room' : Nat → Slot → Nat) {p : Population}
    (hp : p.host.id < w.agents.size) (defaults defaults' : Record) (inits : List Record) :
    SameLiving (birthsIn room p defaults inits w) (birthsIn room' p defaults' inits v) := by
  induction inits generalizing w v with
  | nil => exact h
  | cons init rest ih =>
    refine ih ((h.withRoom _ _).birth hp _ _) ?_
    rw [size_birth]
    exact Nat.lt_succ_of_lt hp

theorem create (h : SameLiving w v) (room room' : Nat → Slot → Nat) (store : Store)
    {p : Population} (hp : p.host.id < w.agents.size) (inits : List Record) :
    SameLiving (w.createIn room store p inits) (v.createIn room' store p inits) := by
  unfold createIn
  split
  · exact h
  · exact h.births room room' hp _ _ inits

/-- One step: the same is done to both worlds, and one of them may forget. -/
theorem step (h : SameLiving w v) (room : Nat → Slot → Nat) {op : Op} (hop : op.Names w) :
    SameLiving (op.applyIn room w) (op.keep v) := by
  cases op with
  | register s => exact h.register s
  | create store p inits => exact h.create room ample store hop inits
  | move held store a p => exact (h.withRoom _ _).move _ _ store store hop.1 hop.2
  | kill a => exact h.kill a
  | sweep => exact h.sweep

theorem run (h : SameLiving w v) {calls : List Call} (hcalls : Named w calls) :
    SameLiving (forgetful w calls) (retentive v (calls.map (·.op))) := by
  induction calls generalizing w v with
  | nil => exact h
  | cons c rest ih => exact ih (h.step c.room hcalls.1) hcalls.2

end SameLiving

/-- Whatever is swept, whichever slots are full and whoever is held: at every point of a run every
live host has the same members, all alive and in the same order, as if nobody had been
forgotten. -/
theorem forgetting_unobservable (root : Species) (calls pre : List Call)
    (hcalls : Named (start root) calls) (hpre : pre <+: calls) :
    let w := forgetful (start root) pre
    let v := retentive (start root) (pre.map (·.op))
    v.Listed ∧ (∀ a, w.isDead a = v.isDead a) ∧
      ∀ host, w.isDead host = false → ∀ species,
        w.members host species = v.members host species ∧
          ∀ a ∈ w.members host species, w.isDead a = false := by
  obtain ⟨rest, rfl⟩ := hpre
  have hstart : (start root).Listed := fun i hpos hi => absurd hi (Nat.not_lt.mpr hpos)
  have hsame := (SameLiving.refl (Coherent.start root)).run hcalls.of_append
  refine ⟨listed_retentive hstart _, hsame.dead, fun host hhost species => ?_⟩
  exact ⟨hsame.members host hhost species, fun _ ha => alive_of_mem_members ha⟩

/-- A world that holds herds and sheep. -/
def meadow : Species := ⟨"world", none, ["herd", "sheep"], false, [], []⟩

/-- A sheep dies in a herd, and the slot of the herd is full when the next one is born. Then the
herd dies and is swept away, and the sheep moves to the root. -/
def forgettingRun : List Op :=
  let sheep : Species := ⟨"sheep", none, [], false, [], []⟩
  let herd : Species := ⟨"herd", none, ["sheep"], false, [], []⟩
  [.create .empty ⟨⟨0, "world"⟩, herd⟩ [.empty], .create .empty ⟨⟨1, "herd0"⟩, sheep⟩ [.empty],
    .kill ⟨2, "sheep0"⟩, .create .empty ⟨⟨1, "herd0"⟩, sheep⟩ [.empty],
    .kill ⟨1, "herd0"⟩, .sweep,
    .move (fun i => i == 0) .empty ⟨3, "sheep1"⟩ ⟨⟨0, "world"⟩, sheep⟩]

/-- The herd and a sheep are forgotten, and the other sheep is still listed in the herd. -/
theorem forgetting_unobservable_herd :
    listedIds (run (start meadow) forgettingRun).slots = [3, 3] ∧
      listedIds (retentive (start meadow) forgettingRun).slots = [1, 2, 3] ∧
      (run (start meadow) forgettingRun).members ⟨0, "world"⟩ "sheep" =
        (retentive (start meadow) forgettingRun).members ⟨0, "world"⟩ "sheep" := by
  refine ⟨by decide, by decide, ?_⟩
  have hnamed : Named (start meadow) (forgettingRun.map .own) := by decide
  obtain ⟨-, -, hsame⟩ := forgetting_unobservable meadow _ _ hnamed List.prefix_rfl
  rw [forgetful_own] at hsame
  exact (hsame ⟨0, "world"⟩ rfl "sheep").1

end Habitat.World
