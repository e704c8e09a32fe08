import Habitat.Proofs.Run.Capture
import Habitat.Proofs.World.Ways

/-!
# Releases

Without a host that is named, a release takes each candidate up to the nearest host above the
executing agent that declares its species. A release looks for it when the turn of the candidate
comes, while the candidates before it have already moved. Nobody on the way up is moved, so each
search finds what it would have found at first, unless the way up has lost its upper end: hosts are
held weakly, and a slot that forgets its dead may have been all that held one of them.

* `Releasing`: how far a release has got. `Releasing.turn` is one candidate, `Releasing.run` all.
* `Releases`: what the moves come to, compared with the state before; `exists_releases`.
* `release_climbs`: the whole statement, up to the bodies that it runs.
* `release_strands_sheep`: candidates can be rejected for the moves of others.
-/
namespace Habitat

open Exec World

/-! ## Where to -/

/-- The hosts strictly above an agent, nearest first. -/
def State.above (s : State) (x : AgentRef) : List AgentRef := (s.hosts x).tail

/-- The nearest of some hosts that declares the species that an agent is released as. -/
def State.refuge? (s : State) (species : Option String) (hosts : List AgentRef) (a : AgentRef) :
    Option AgentRef :=
  hosts.find? (s.machine.world.welcomes · (species.getD (s.machine.world.speciesOf a)))

/-- Whether an agent can go to one of some hosts: one of them declares its species, and nothing
keeps it in its place. -/
structure State.Releasable (s : State) (species : Option String) (hosts : List AgentRef)
    (a : AgentRef) : Prop where
  welcome : (s.refuge? species hosts a).isSome = true
  free : s.machine.policy.stuck.contains a.name = false

/-- An agent was released: it was captured by the nearest host above that declares its species. -/
def Released (before s : State) (x : AgentRef) (species : Option String) (a : AgentRef) : Prop :=
  ∃ h, before.refuge? species (before.above x) a = some h ∧ Captured before s h species a

theorem State.hosts_eq (s : State) (x : AgentRef) : s.hosts x = x :: s.above x := by
  rw [above, hosts, hostChain_eq]
  rfl

theorem State.mem_hosts (s : State) (x : AgentRef) : x ∈ s.hosts x := by
  rw [hosts_eq]
  exact List.mem_cons_self

theorem State.known_of_mem_above {s : State} {x y : AgentRef} (hy : y ∈ s.above x) :
    (s.machine.world.agent y).gone = false := by
  rw [above, hosts, hostChain_eq, List.tail_cons] at hy
  exact not_gone_of_mem_trailAt ((List.takeWhile_sublist _).subset hy)

theorem State.refuge?_congr {s : State} {species : Option String} {hosts : List AgentRef}
    {a b : AgentRef} (h : a.id = b.id) : s.refuge? species hosts a = s.refuge? species hosts b := by
  unfold refuge? speciesOf agent
  rw [h]

theorem State.welcomes_of_refuge? {s : State} {species : Option String} {hosts : List AgentRef}
    {a h : AgentRef} (hh : s.refuge? species hosts a = some h) :
    s.machine.world.welcomes h (species.getD (s.machine.world.speciesOf a)) = true := by
  have hfound := List.find?_some hh
  exact hfound

section
variable {s : State} {species : Option String} {hosts hosts' : List AgentRef} {a : AgentRef}
  {dead : AgentRef → Bool} (hs : Shortens dead hosts hosts')
include hs

/-- Who can go to one of the hosts that are left could go there before. -/
theorem State.Releasable.of_shortens (h : s.Releasable species hosts' a) :
    s.Releasable species hosts a := by
  obtain ⟨y, hy⟩ := Option.isSome_iff_exists.mp h.welcome
  exact ⟨Option.isSome_iff_exists.mpr ⟨y, hs.find? hy⟩, h.free⟩

/-- Who could go to a host can go there still if it is left. -/
theorem State.Releasable.shortens (h : s.Releasable species hosts a)
    (hkept : ∀ y, s.refuge? species hosts a = some y → y ∈ hosts') :
    s.Releasable species hosts' a := by
  obtain ⟨y, hy⟩ := Option.isSome_iff_exists.mp h.welcome
  exact ⟨Option.isSome_iff_exists.mpr ⟨y, hs.find?_of_mem hy (hkept y hy)⟩, h.free⟩

end

/-- How far a release has got: some agents were released, and nothing else has happened but that
dead agents are gone. -/
structure Releasing (before : State) (x : AgentRef) (species : Option String)
    (candidates released : List AgentRef) (s : State) : Prop where
  scope : s.scope = before.scope
  machine : s.machine =
    { before.machine with world := s.machine.world, store := s.machine.store }
  spares : before.machine.world.Spares s.machine.world (released.map (·.id))
  rooted : s.machine.world.Rooted
  acts : x ∈ s.scope.agents
  here : (s.machine.world.agent x).gone = false
  below : Below x candidates s
  subset : released ⊆ candidates
  shortens : Shortens before.machine.world.isDead (before.above x) (s.above x)
  settled : ∀ a ∈ released, Released before s x species a

namespace Releasing

variable {before s : State} {x a : AgentRef} {species : Option String}
  {candidates released : List AgentRef}

theorem held (h : Releasing before x species candidates released s) : holds s x = true :=
  holds_of_executing h.acts (lt_size_of_not_gone h.here)

/-- Nobody on the way up is moved. -/
theorem not_moved (h : Releasing before x species candidates released s) {y : AgentRef}
    (hy : y ∈ s.hosts x) : y.id ∉ candidates.map (·.id) := by
  intro hmem
  obtain ⟨b, hb, hid⟩ := List.mem_map.mp hmem
  exact h.below b hb (hid ▸ reaches_of_hostChain hy)

theorem known (h : Releasing before x species candidates released s) {y : AgentRef}
    (hy : y ∈ s.hosts x) : (s.machine.world.agent y).gone = false := by
  rw [State.hosts_eq] at hy
  rcases List.mem_cons.mp hy with rfl | hy
  · exact h.here
  · exact State.known_of_mem_above hy

/-- Who was released before is released as the same species, and keeps its attributes. -/
theorem keeps (h : Releasing before x species candidates released s) (a : AgentRef) :
    species.getD (s.machine.world.speciesOf a) = species.getD (before.machine.world.speciesOf a) ∧
      ∀ name v, before.machine.world.attribute? a name = some v →
        s.machine.world.attribute? a name = some v := by
  by_cases ha : a.id ∈ released.map (·.id)
  · obtain ⟨b, hb, hid⟩ := List.mem_map.mp ha
    obtain ⟨_, -, -, hspecies, hattributes⟩ := h.settled b hb
    have hsame (w : World) : w.agent a = w.agent b := by rw [agent, agent, hid]
    simp only [speciesOf, attribute?, hsame] at hspecies hattributes ⊢
    refine ⟨?_, hattributes⟩
    rw [hspecies]
    cases species <;> rfl
  · obtain ⟨_, hsame⟩ := h.spares.same a ha
    rw [h.spares.speciesOf ha]
    refine ⟨rfl, fun name v hv => ?_⟩
    rw [attribute?, hsame]
    exact hv

/-- The destination of a candidate, in terms of the state before. -/
theorem destination (h : Releasing before x species candidates released s)
    (hc : before.machine.world.Complete) (a : AgentRef) :
    releaseTo x none species a s = .ok ((before.refuge? species (s.above x) a).bind fun y =>
      (before.machine.world.find? (species.getD (before.machine.world.speciesOf a))).map
        fun sp => ⟨y, sp⟩) s := by
  have hnear : (s.machine.world.host? (holds s) x).bind (fun y =>
      s.machine.world.populationFor? (holds s) y (species.getD (s.machine.world.speciesOf a))) =
      (s.above x).findSome? (s.machine.world.population? ·
        (species.getD (s.machine.world.speciesOf a))) := by
    rw [State.above, State.hosts, h.rooted.tree.hostChain_cons h.rooted.toLineal]
    cases s.machine.world.host? (holds s) x <;> rfl
  have hold (name : String) : (s.above x).findSome? (s.machine.world.population? · name) =
      (s.above x).findSome? (before.machine.world.population? · name) := by
    rw [← List.head?_filterMap, ← List.head?_filterMap]
    refine congrArg List.head? (List.filterMap_congr fun y hy => ?_)
    refine h.spares.population? (fun hmem => ?_) name
    exact h.not_moved (List.mem_of_mem_tail hy) (List.map_subset _ h.subset hmem)
  have hlt : ∀ y ∈ s.above x, y.id < before.machine.world.agents.size := fun y hy =>
    h.spares.size ▸ lt_size_of_not_gone (h.known (List.mem_of_mem_tail hy))
  rw [releaseTo_none_eq, hnear, (h.keeps a).1, hold, hc.findSome?_population? hlt]
  rfl

/-- The host that a candidate knows stands on the way up, if it can be released. So whatever is
forgotten in its turn is the nearest host that is lost to the executing agent. -/
theorem forget_eq (h : Releasing before x species candidates released s)
    (hosted : isHostedBy (holds before) before.machine.world a x = true) {y : AgentRef}
    (hy : before.refuge? species (s.above x) a = some y) :
    s.machine.world.forget (holds s) a = s.machine.world.forget (holds s) x := by
  have hstep {z z' : AgentRef} (hz : s.machine.world.knownHost? a = some z) (hid : z.id = z'.id)
      (hmem : z' ∈ s.hosts x) :=
    h.rooted.tree.forget_eq h.rooted.toLineal (byId_holds s) h.held hz hid hmem
  by_cases ha : a.id ∈ released.map (·.id)
  · -- It was released to the host that it finds once more.
    obtain ⟨b, hb, hid⟩ := List.mem_map.mp ha
    obtain ⟨z, hz, hcaptured⟩ := h.settled b hb
    obtain rfl : y = z := by
      have hbefore := h.shortens.find? hy
      rw [State.refuge?_congr hid] at hz
      exact Option.some.inj (hbefore.symm.trans hz)
    have hmem : y ∈ s.hosts x := List.mem_of_mem_tail (List.mem_of_find?_eq_some hy)
    refine hstep (knownHost?_eq_some.mpr ⟨?_, h.known hmem⟩) rfl hmem
    rw [← hcaptured.host, agent, agent, hid]
  · obtain ⟨z, hz, hzx⟩ := isHostedBy_iff.mp hosted
    have hhost := (knownHost?_eq_some.mp (knownHost?_of_host? hz)).1
    refine hstep (knownHost?_eq_some.mpr ⟨(h.spares.host ha).trans hhost, ?_⟩) hzx (s.mem_hosts x)
    rw [agent, hzx]
    exact h.here

section
variable (h : Releasing before x species candidates released s) (hmem : a ∈ candidates)
  (hosted : isHostedBy (holds before) before.machine.world a x = true) {p : Population}
  (hp : before.refuge? species (s.above x) a = some p.host)
  (hfree : ¬s.machine.policy.stuck.contains a.name = true)
include h hmem hosted hp hfree

/-- A move may cost the executing agent the hosts above a dead one. -/
theorem shortens_move : Shortens before.machine.world.isDead (s.above x)
    ((Habitat.settled a (some p) s).above x) := by
  have hlt : a.id < s.machine.world.agents.size := h.spares.size ▸ lt_size_of_isHostedBy hosted
  have hdead : s.machine.world.isDead = before.machine.world.isDead := funext h.spares.dead
  refine Shortens.tail (x := x) ?_
  rw [← State.hosts_eq, ← State.hosts_eq, ← hdead, Habitat.settled, after_ok (moveAgent_free hfree)]
  have hmove := spares_move (holds s) s.machine.world s.machine.store a p hlt
  refine hmove.shortens_hostChain (fun y hy => ?_) (fun y hy => ?_) _
  · rw [List.mem_singleton]
    exact fun hid => h.not_moved hy (List.mem_map.mpr ⟨a, hmem, hid.symm⟩)
  · rw [← h.forget_eq hosted hp] at hy
    rw [agent_move (holds s) s.machine.world s.machine.store a p hlt]
    split <;> exact hy

/-- One more candidate moves. -/
theorem move (hname : p.species.name = species.getD (before.machine.world.speciesOf a)) :
    Releasing before x species candidates (a :: released) (Habitat.settled a (some p) s) := by
  have hlt : a.id < s.machine.world.agents.size := h.spares.size ▸ lt_size_of_isHostedBy hosted
  have hmove := spares_move (holds s) s.machine.world s.machine.store a p hlt
  have hagent := agent_move (holds s) s.machine.world s.machine.store a p hlt
  have habove : p.host ∈ s.hosts x := List.mem_of_mem_tail (List.mem_of_find?_eq_some hp)
  have hne : a.id ≠ x.id := fun hid =>
    h.not_moved (s.mem_hosts x) (List.mem_map.mpr ⟨a, hmem, hid⟩)
  have hnot : ¬Reaches s.machine.world.hostId? p.host.id a.id := fun hr =>
    h.below a hmem ((reaches_of_hostChain habove).trans hr)
  have hshortens := h.shortens_move hmem hosted hp hfree
  have hbelow := h.below.settled (o := some p) hmem fun _ _ => hlt
  rw [Habitat.settled, after_ok (moveAgent_free hfree)] at hshortens hbelow ⊢
  refine ⟨h.scope, ?_, h.spares.trans hmove, ⟨?_, ?_⟩, h.acts, ?_, hbelow, ?_,
    h.shortens.trans hshortens, ?_⟩
  · dsimp only
    rw [h.machine]
  · exact h.rooted.toLineal.move (byId_holds s) _ hlt (lt_size_of_not_gone (h.known habove))
  · exact h.rooted.tree.move _ hlt fun _ => hnot
  · dsimp only
    rw [hagent, if_neg hne, gone_forget_of_held (byId_holds s) h.held]
    exact h.here
  · exact List.cons_subset.mpr ⟨hmem, h.subset⟩
  · intro b hb
    by_cases hid : a.id = b.id
    · -- It is the candidate, which moves now, perhaps once more.
      obtain ⟨_, hsame⟩ := (spares_forget (holds s) s.machine.world a).same b List.not_mem_nil
      refine ⟨p.host, (State.refuge?_congr hid) ▸ h.shortens.find? hp, ?_, ?_, fun name v hv => ?_⟩
      · dsimp only
        rw [hagent, if_pos hid]
      · dsimp only
        rw [speciesOf, hagent, if_pos hid]
        refine hname.trans ?_
        rw [speciesOf, speciesOf, agent, agent, hid]
      · dsimp only
        rw [attribute?, hagent, if_pos hid, hsame]
        exact get?_addMissing ((h.keeps b).2 name v hv)
    · have hb : b ∈ released := (List.mem_cons.mp hb).resolve_left fun heq => hid (heq ▸ rfl)
      obtain ⟨z, hz, hcaptured⟩ := h.settled b hb
      refine ⟨z, hz, hcaptured.of_same (hmove.same b ?_)⟩
      rw [List.mem_singleton]
      exact Ne.symm hid

end

/-- A candidate moves if it can be released to one of the hosts that are left. -/
theorem moves_iff (h : Releasing before x species candidates released s)
    (hc : before.machine.world.Complete) {o : Option Population} {t : State}
    (hdest : releaseTo x none species a s = .ok o t) :
    moves a o t = true ↔ before.Releasable species (s.above x) a := by
  cases hdest.symm.trans (h.destination hc a)
  have hpolicy : s.machine.policy = before.machine.policy := by rw [h.machine]
  simp only [moves, hpolicy, Bool.and_eq_true, Bool.not_eq_true']
  constructor
  · rintro ⟨hsome, hfree⟩
    refine ⟨?_, hfree⟩
    cases hy : before.refuge? species (s.above x) a with
    | none => rw [hy] at hsome; cases hsome
    | some y => rfl
  · rintro ⟨hsome, hfree⟩
    refine ⟨?_, hfree⟩
    obtain ⟨y, hy⟩ := Option.isSome_iff_exists.mp hsome
    obtain ⟨sp, hsp⟩ := Option.isSome_iff_exists.mp (hc.isSome_find? (State.welcomes_of_refuge? hy))
    rw [hy, Option.bind_some, hsp]
    rfl

/-- The turn of one candidate. The way up may lose its upper end in it. -/
theorem turn (h : Releasing before x species candidates released s)
    (hc : before.machine.world.Complete) (hmem : a ∈ candidates)
    (hosted : isHostedBy (holds before) before.machine.world a x = true) :
    ∃ o, releaseTo x none species a s = .ok o s ∧
      Releasing before x species candidates (if moves a o s then a :: released else released)
        (Habitat.settled a o s) ∧
      Shortens before.machine.world.isDead (s.above x) ((Habitat.settled a o s).above x) := by
  obtain ⟨o, hdest⟩ : ∃ o, releaseTo x none species a s = .ok o s := ⟨_, h.destination hc a⟩
  refine ⟨o, hdest, ?_⟩
  cases hmoves : moves a o s with
  | false =>
    rw [settled_of_stays hmoves]
    exact ⟨h, .inl rfl⟩
  | true =>
    obtain ⟨hsome, hfree⟩ := Bool.and_eq_true_iff.mp hmoves
    rw [Bool.not_eq_true', Bool.eq_false_iff] at hfree
    obtain ⟨p, rfl⟩ := Option.isSome_iff_exists.mp hsome
    obtain ⟨heq, -⟩ := EStateM.Result.ok.inj (hdest.symm.trans (h.destination hc a))
    obtain ⟨y, hy, hp⟩ := Option.bind_eq_some_iff.mp heq.symm
    obtain ⟨sp, hsp, rfl⟩ := Option.map_eq_some_iff.mp hp
    have hname : sp.name = species.getD (before.machine.world.speciesOf a) := by
      have hfound := List.find?_some hsp
      exact beq_iff_eq.mp hfound
    exact ⟨h.move hmem hosted hy hfree hname, h.shortens_move hmem hosted hy hfree⟩

/-- From any point of a release on, all further candidates have their turns. -/
theorem run (h : Releasing before x species candidates released s)
    (hc : before.machine.world.Complete)
    (hosted : ∀ a ∈ candidates, isHostedBy (holds before) before.machine.world a x = true)
    {rest : List AgentRef} (hrest : rest ⊆ candidates) :
    ∃ (above : Nat → List AgentRef) (chosen : Nat → Bool) (u : State),
      moveAll (releaseTo x none species) rest s =
        .ok (picked chosen rest, picked (fun i => !chosen i) rest) u ∧
      above 0 = s.above x ∧ above rest.length = u.above x ∧
      (∀ i, Shortens before.machine.world.isDead (above i) (above (i + 1))) ∧
      (∀ i a, rest[i]? = some a → (chosen i = true ↔ before.Releasable species (above i) a)) ∧
      Releasing before x species candidates ((picked chosen rest).reverse ++ released) u := by
  induction rest generalizing released s with
  | nil => exact ⟨fun _ => s.above x, fun _ => false, s, rfl, rfl, rfl, fun _ => .inl rfl, nofun, h⟩
  | cons a rest ih =>
    obtain ⟨hmem, hrest⟩ := List.cons_subset.mp hrest
    obtain ⟨o, hdest, hnext, hshortens⟩ := h.turn hc hmem (hosted a hmem)
    obtain ⟨above, chosen, u, hmoves, hfirst, hlast, hways, hchosen, hu⟩ := ih hnext hrest
    refine ⟨prepend (s.above x) above, prepend (moves a o s) chosen, u, ?_, rfl, hlast, ?_, ?_, ?_⟩
    · rw [moveAll_cons hdest hmoves, picked_prepend, picked_not_prepend]
      cases moves a o s <;> rfl
    · intro i
      cases i with
      | zero =>
        rw [prepend, prepend, hfirst]
        exact hshortens
      | succ i => exact hways i
    · intro i b hb
      cases i with
      | zero =>
        cases hb
        exact h.moves_iff hc hdest
      | succ i => exact hchosen i b hb
    · rw [picked_prepend]
      cases hm : moves a o s with
      | false => simpa [hm] using hu
      | true => simpa [hm] using hu

/-- Who was released is with the nearest host that declared the species at first, unless that host
has died. -/
theorem hosted_of_released (h : Releasing before x species candidates released s)
    (ha : a ∈ released) :
    ∃ y, before.refuge? species (before.above x) a = some y ∧ Captured before s y species a ∧
      (isHostedBy (holds s) s.machine.world a y = true ∨
        before.machine.world.isDead y = true) := by
  obtain ⟨y, hy, hcaptured⟩ := h.settled a ha
  refine ⟨y, hy, hcaptured, ?_⟩
  cases hdead : before.machine.world.isDead y with
  | true => exact .inr rfl
  | false =>
    have hknown : (s.machine.world.agent y).gone = false := by
      cases hgone : (s.machine.world.agent y).gone with
      | false => rfl
      | true =>
        -- Only the dead get lost on the way.
        rcases h.spares.lost y hgone with hgone | hdead'
        · exact hgone.symm.trans (State.known_of_mem_above (List.mem_of_find?_eq_some hy))
        · exact hdead'.symm.trans hdead
    have hhost : s.machine.world.host? (holds s) a = some y :=
      host?_eq_some.mpr ⟨knownHost?_eq_some.mpr ⟨hcaptured.host, hknown⟩,
        .inl ((h.spares.dead y).trans hdead)⟩
    exact .inl (isHostedBy_iff.mpr ⟨y, hhost, rfl⟩)

/-- A candidate that was not released is where it was. -/
theorem hosted_of_not_released (h : Releasing before x species candidates released s)
    (acts : x ∈ before.scope.agents) (here : (before.machine.world.agent x).gone = false)
    (hosted : isHostedBy (holds before) before.machine.world a x = true)
    (hnot : a.id ∉ released.map (·.id)) : isHostedBy (holds s) s.machine.world a x = true := by
  rw [isHostedBy_executing h.acts h.here, h.spares.host hnot]
  exact (isHostedBy_executing acts here).mp hosted

/-- All others are what they were, but for hosts that have died. -/
theorem same_of_not_released (h : Releasing before x species candidates released s)
    {b : AgentRef} (hb : b.id ∉ released.map (·.id)) :
    s.machine.world.speciesOf b = before.machine.world.speciesOf b ∧
      (s.machine.world.agent b).attributes = (before.machine.world.agent b).attributes ∧
      (s.machine.world.host? (holds s) b = before.machine.world.host? (holds before) b ∨
        ∃ y, (before.machine.world.agent b).host = some y ∧
          before.machine.world.isDead y = true) := by
  obtain ⟨_, hsame⟩ := h.spares.same b hb
  refine ⟨h.spares.speciesOf hb, by rw [hsame], ?_⟩
  exact h.spares.host?_eq hb _ _

end Releasing

/-! ## What a release comes to -/

/-- What the moves of a release come to, if the candidates at some places are chosen. -/
structure Releases (before moved : State) (x : AgentRef) (species : Option String)
    (candidates : List AgentRef) (above : Nat → List AgentRef) (chosen : Nat → Bool) : Prop where
  /-- Each candidate is judged by the hosts that are above when its turn comes. -/
  chosen_iff : ∀ i a, candidates[i]? = some a →
    (chosen i = true ↔ before.Releasable species (above i) a)
  above_before : above 0 = before.above x
  above_after : above candidates.length = moved.above x
  shortens : ∀ i, Shortens before.machine.world.isDead (above i) (above (i + 1))
  /-- Only who could go somewhere at first is released. -/
  chosen_only : ∀ i a, candidates[i]? = some a → chosen i = true →
    before.Releasable species (before.above x) a
  /-- Whoever could go to a host that is still above in the end is released. -/
  chosen_kept : ∀ i a, candidates[i]? = some a → before.Releasable species (before.above x) a →
    (∀ h, before.refuge? species (before.above x) a = some h → h ∈ moved.above x) →
    chosen i = true
  /-- Each released agent is with the nearest host that declared its species at first. -/
  released : ∀ a ∈ picked chosen candidates, ∃ h,
    before.refuge? species (before.above x) a = some h ∧ Captured before moved h species a ∧
    (isHostedBy (holds moved) moved.machine.world a h = true ∨
      before.machine.world.isDead h = true)
  /-- The other candidates are where they were. -/
  rejected : ∀ a ∈ candidates, a.id ∉ (picked chosen candidates).map (·.id) →
    isHostedBy (holds moved) moved.machine.world a x = true
  /-- All others are what they were, but for hosts that have died. -/
  others : ∀ b : AgentRef, b.id ∉ (picked chosen candidates).map (·.id) →
    moved.machine.world.speciesOf b = before.machine.world.speciesOf b ∧
    (moved.machine.world.agent b).attributes = (before.machine.world.agent b).attributes ∧
    (moved.machine.world.host? (holds moved) b = before.machine.world.host? (holds before) b ∨
      ∃ h, (before.machine.world.agent b).host = some h ∧ before.machine.world.isDead h = true)

/-- The moves of a release, from a state in which the executing agent holds the candidates. -/
theorem exists_releases (before : State) {x : AgentRef} (species : Option String)
    {candidates : List AgentRef} (acts : x ∈ before.scope.agents)
    (here : (before.machine.world.agent x).gone = false) (hr : before.machine.world.Rooted)
    (hc : before.machine.world.Complete)
    (hosted : ∀ a ∈ candidates, isHostedBy (holds before) before.machine.world a x = true) :
    ∃ above chosen moved,
      moveAll (releaseTo x none species) candidates before =
        .ok (picked chosen candidates, picked (fun i => !chosen i) candidates) moved ∧
      Releases before moved x species candidates above chosen ∧
      moved.scope = before.scope ∧ moved.machine.events = before.machine.events := by
  have hstart : Releasing before x species candidates [] before := by
    refine ⟨rfl, rfl, .refl _, hr, acts, here, fun a ha => ?_, nofun, .inl rfl, nofun⟩
    obtain ⟨y, hy, hyx⟩ := isHostedBy_iff.mp (hosted a ha)
    rw [← hyx]
    exact hr.tree.no_return (hostId?_of_host? hy)
  obtain ⟨above, chosen, moved, hmoves, hfirst, hlast, hways, hchosen, hend⟩ :=
    hstart.run hc hosted (List.Subset.refl candidates)
  rw [List.append_nil] at hend
  have hpicked (b : AgentRef) : b.id ∉ (picked chosen candidates).reverse.map (·.id) ↔
      b.id ∉ (picked chosen candidates).map (·.id) := by
    rw [List.map_reverse, List.mem_reverse]
  have hwas (i : Nat) : Shortens before.machine.world.isDead (before.above x) (above i) :=
    hfirst ▸ Shortens.along hways (Nat.zero_le i)
  refine ⟨above, chosen, moved, hmoves, ?_, hend.scope, by rw [hend.machine]⟩
  refine ⟨hchosen, hfirst, hlast, hways, ?_, ?_, ?_, ?_, ?_⟩
  · intro i a ha hi
    exact ((hchosen i a ha).mp hi).of_shortens (hwas i)
  · intro i a ha hcan hkept
    have hi : i ≤ candidates.length := Nat.le_of_lt (List.getElem?_eq_some_iff.mp ha).1
    have hleft := (Shortens.along hways hi).subset
    refine (hchosen i a ha).mpr (hcan.shortens (hwas i) fun y hy => hleft ?_)
    exact hlast ▸ hkept y hy
  · intro a ha
    exact hend.hosted_of_released (List.mem_reverse.mpr ha)
  · intro a ha hnot
    exact hend.hosted_of_not_released acts here (hosted a ha) ((hpicked a).mpr hnot)
  · intro b hb
    exact hend.same_of_not_released ((hpicked b).mpr hb)

/-! ## The statement -/

/-- What follows the moves and the report: the bodies, and the agents that moved as the value. -/
def Exec.afterMoves (run : Sequence → Exec Value) (verb : String) (returns : Option String)
    (body : Sequence) (moved : List AgentRef) : Exec Value := do
  let _ ← fanOut run verb body moved .nil true
  let result ← agentList moved
  store returns result
  return result

section
variable {s t : State} {x : AgentRef} {v : Value}

theorem planRelease_eq {target : Expr} (species : Option String) (hx : s.scope.agent = some x)
    (hv : eval target s = .ok v t) :
    planRelease target species none s =
      .ok ⟨"release", "because no destination population can welcome them", none,
        releaseTo x none species, (t.machine.store.agents v).filter fun a =>
          isHostedBy (holds t) t.machine.world a x⟩ t := by
  unfold planRelease
  rw [bind_ok (currentAgent_of_agent hx "release"), bind_ok hv]
  rfl

/-- A release without a host that is named takes the candidates up one after another, each to the
nearest host above the executing agent that declares its species. Nobody is released who could not
go there at first, and everybody who could is, as long as that host stays above; the executing agent
may lose the hosts above a dead one while others move. One error names the candidates that are not
released, before any body runs. -/
theorem release_climbs (target : Expr) (species : Option String) (hx : s.scope.agent = some x)
    (here : (s.machine.world.agent x).gone = false) (hr : s.machine.world.Rooted)
    (hc : s.machine.world.Complete) (hv : eval target s = .ok v t) :
    let candidates := (t.machine.store.agents v).filter fun a =>
      isHostedBy (holds t) t.machine.world a x
    let before := t.holding (candidates.map .agent)
    before.machine.world = s.machine.world ∧
    ∃ above chosen moved,
      Releases before moved x species candidates above chosen ∧
      moved.machine.events = s.machine.events ∧
      ∀ handlers fuel run returns body,
        statementWith handlers fuel run (.release target species none returns body) s =
          bracket id State.release
            (afterMoves run "release" returns body (picked chosen candidates))
            (moved.refusing x "release" "because no destination population can welcome them"
              (picked (fun i => !chosen i) candidates)) := by
  intro candidates before
  obtain ⟨hscope, hmachine⟩ := eval_keeps hv
  have hworld : t.machine.world = s.machine.world := by rw [hmachine]
  have acts : x ∈ t.scope.agents := by
    rw [hscope]
    exact List.mem_of_mem_head? hx
  have here' : (t.machine.world.agent x).gone = false := hworld.symm ▸ here
  have hosted : ∀ a ∈ candidates, isHostedBy (holds before) before.machine.world a x = true := by
    intro a ha
    rw [isHostedBy_executing (s := before) acts here']
    exact (isHostedBy_executing acts here').mp (List.mem_filter.mp ha).2
  obtain ⟨above, chosen, moved, hmoves, hreleases, hmoved, hevents⟩ :=
    exists_releases before species acts here' (hworld.symm ▸ hr) (hworld.symm ▸ hc) hosted
  refine ⟨hworld, above, chosen, moved, hreleases, ?_, ?_⟩
  · rw [hevents]
    exact (congrArg Machine.events hmachine).trans rfl
  intro handlers fuel run returns body
  have hexecutes : moved.scope.agent = some x := by
    rw [hmoved]
    exact hscope ▸ hx
  have hreport := reportRejected_eq_refusing hexecutes "release"
    "because no destination population can welcome them" (picked (fun i => !chosen i) candidates)
  refine (bind_ok (planRelease_eq species hx hv)).trans ?_
  unfold relocate withHeld
  exact bracket_congr ((bind_ok hmoves).trans (bind_ok hreport))

end

/-- A fold in a pen of a herd, with two sheep. The pen has died, and only a dead sheep of the herd
still refers to it. -/
def strandedFold : State :=
  let species (name : String) (micro : List String) : Species := ⟨name, none, micro, false, [], []⟩
  let herd := species "herd" ["pen", "sheep"]
  let pen := species "pen" ["fold"]
  let fold := species "fold" ["sheep"]
  let sheep := species "sheep" []
  let w := (start (species "world" ["herd"])).register herd
  let w := ((w.register pen).register fold).register sheep
  let w := (w.populate .empty ⟨⟨0, "world"⟩, herd⟩ [.empty]).2.1
  let w := (w.populate .empty ⟨⟨1, "herd0"⟩, pen⟩ [.empty]).2.1
  let w := (w.populate .empty ⟨⟨2, "pen0"⟩, fold⟩ [.empty]).2.1
  let w := (w.populate .empty ⟨⟨3, "fold0"⟩, sheep⟩ [.empty, .empty]).2.1
  let w := (w.populate .empty ⟨⟨1, "herd0"⟩, sheep⟩ [.empty]).2.1
  let w := w.setAttribute ⟨6, "sheep2"⟩ "friend" (.agent ⟨2, "pen0"⟩)
  let w := (w.kill ⟨2, "pen0"⟩).kill ⟨6, "sheep2"⟩
  -- The slot of the pen is full, so it forgets the dead one.
  let w := (w.populate .empty ⟨⟨1, "herd0"⟩, pen⟩ [.empty]).2.1
  let known := [("ewe", .agent ⟨4, "sheep0"⟩), ("ram", .agent ⟨5, "sheep1"⟩)]
  ⟨(Scope.start ⟨3, "fold0"⟩ "main").declareAll known, .start .standard w .empty⟩

theorem rooted_strandedFold : strandedFold.machine.world.Rooted := by
  simp only [strandedFold, Machine.start]
  refine Rooted.populate ((fades_kill _ _).rooted ((fades_kill _ _).rooted
    ((fades_setAttribute _ _ _ _).rooted ?_))) (by decide) _ _
  refine Rooted.populate (Rooted.populate (Rooted.populate (Rooted.populate (Rooted.populate
    ?_ ?_ _ _) ?_ _ _) ?_ _ _) ?_ _ _) ?_ _ _
  · refine (fades_register _ _).rooted ((fades_register _ _).rooted
      ((fades_register _ _).rooted ((fades_register _ _).rooted ?_)))
    exact ⟨lineal_start _, tree_start _⟩
  all_goals decide

/-- The fold releases its sheep; the first one can go to the herd, and does. -/
theorem release_climbs_strandedFold :
    ∃ v t, eval (.list [.var "ewe" .any, .var "ram" .any] .any) strandedFold = .ok v t ∧
      ∃ candidates above chosen moved,
        Releases (t.holding (candidates.map .agent)) moved ⟨3, "fold0"⟩ none candidates above
          chosen ∧ candidates.map (·.name) = ["sheep0", "sheep1"] ∧ chosen 0 = true := by
  refine ⟨_, _, rfl, ?_⟩
  obtain ⟨-, above, chosen, moved, hreleases, -⟩ :=
    release_climbs (x := ⟨3, "fold0"⟩) (s := strandedFold)
      (.list [.var "ewe" .any, .var "ram" .any] .any) none rfl (by decide +kernel)
      rooted_strandedFold (by decide +kernel) rfl
  refine ⟨_, above, chosen, moved, hreleases, by decide +kernel, ?_⟩
  refine (hreleases.chosen_iff 0 ⟨4, "sheep0"⟩ rfl).mpr ?_
  rw [hreleases.above_before]
  exact ⟨by decide +kernel, by decide +kernel⟩

/-- Before the release the herd is there for both sheep of the fold. Once the first one is in the
herd, nobody is left that holds the dead pen in between: the dead sheep left the full slot. So the
second sheep is rejected. -/
theorem release_strands_sheep :
    let fold : AgentRef := ⟨3, "fold0"⟩
    let ram : AgentRef := ⟨5, "sheep1"⟩
    let ended := after (statement 1 (sequence 1)
      (.release (.list [.var "ewe" .any, .var "ram" .any] .any) none none none [])) strandedFold
    strandedFold.machine.world.Tree ∧ strandedFold.machine.world.Complete ∧
    isHostedBy (holds strandedFold) strandedFold.machine.world ram fold = true ∧
    (strandedFold.refuge? none (strandedFold.above fold) ram).map (·.name) = some "herd0" ∧
    isHostedBy (holds ended) ended.machine.world ram fold = true ∧
    ended.machine.reports.map (·.message) =
      ["fold0 can't release sheep1 because no destination population can welcome them"] :=
  ⟨rooted_strandedFold.tree, by decide +kernel, by decide +kernel, by decide +kernel,
    by decide +kernel, by decide +kernel⟩

end Habitat
