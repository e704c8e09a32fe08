import Habitat.Proofs.World.Membership
import Mathlib.Data.List.Perm.Subperm
import Mathlib.Logic.Relation

/-!
# The hierarchy of hosts

Hosts form a tree as long as no agent is put below itself: following the hosts that agents know
ends, so the walks that look for a population end as well.

Links are followed by number. An agent that gets a new host gets one new link; the rest of the
links can only go, when a host that nothing holds is forgotten. So a move keeps the tree unless
the agent is met on the way up from its new host (`tree_move_iff`).

* `Ends.of_link`, `not_ends_of_link`: one new link.
* `Lineal`: what else must be known about hosts and slots, and is kept by every change.
* `Rooted.populate`, `Tree.move`, `tree_move_iff`: what births and moves do to a tree.
* `Tree.hostChainAt_eq`: walks along hosts end.
-/
namespace Habitat

/-! ## Links -/

/-- Following links from number to number ends. -/
def Ends (f : Nat → Option Nat) : Prop := WellFounded fun j i => f i = some j

/-- A number is met when links are followed, from the first one on. -/
def Reaches (f : Nat → Option Nat) : Nat → Nat → Prop := Relation.ReflTransGen fun i j => f i = some j

section
variable {f g : Nat → Option Nat}

theorem Ends.mono (hf : Ends f) (h : ∀ i j, g i = some j → f i = some j) : Ends g :=
  Subrelation.wf (fun {j i} hij => h i j hij) hf

theorem Reaches.mono {i j : Nat} (hg : Reaches g i j) (h : ∀ i j, g i = some j → f i = some j) :
    Reaches f i j := Relation.ReflTransGen.mono h i j hg

/-- Nothing is above itself. -/
theorem Ends.no_return (hf : Ends f) {i j : Nat} (hij : f i = some j) : ¬Reaches f j i := by
  induction i using hf.induction generalizing j with
  | _ i ih =>
    intro hji
    rcases Relation.ReflTransGen.cases_head hji with rfl | ⟨k, hjk, hki⟩
    · exact ih j hij hij .refl
    · exact ih j hij hjk (hki.tail hij)

/-- Links that start where one does not get make no difference. -/
theorem Reaches.of_links {x a c : Nat} (h : Reaches g x c) (hx : ¬Reaches f x a)
    (hg : ∀ i j, g i = some j → f i = some j ∨ i = a) : Reaches f x c := by
  induction h with
  | refl => exact .refl
  | @tail i j _ hij ih =>
    rcases hg i j hij with hij | hi
    · exact ih.tail hij
    · rw [hi] at ih
      exact absurd ih hx

/-- Links stay without a circle if the new one leads to where its start is not met. -/
theorem Ends.of_link (hf : Ends f) {a h : Nat} (hh : ¬Reaches f h a)
    (hg : ∀ i j, g i = some j → f i = some j ∨ (i = a ∧ j = h)) : Ends g := by
  -- what is above the new host has only old links
  have habove : ∀ i, Reaches f h i → Acc (fun j i => g i = some j) i := by
    intro i
    induction i using hf.induction with
    | _ i ih =>
      intro hi
      refine Acc.intro i fun j hij => ?_
      rcases hg i j hij with hij | ⟨rfl, -⟩
      · exact ih j hij (hi.tail hij)
      · exact absurd hi hh
  refine ⟨fun i => ?_⟩
  induction i using hf.induction with
  | _ i ih =>
    refine Acc.intro i fun j hij => ?_
    rcases hg i j hij with hij | ⟨-, rfl⟩
    · exact ih j hij
    · exact habove j .refl

/-- A new link to where its start is met closes a circle. -/
theorem not_ends_of_link {a h : Nat} (hh : Reaches f h a) (ha : g a = some h)
    (hg : ∀ i j, i ≠ a → f i = some j → Reaches f j a → g i = some j) : ¬Ends g := by
  have hback : ∀ i, Reaches f i a → Reaches g i a := by
    intro i hi
    induction hi using Relation.ReflTransGen.head_induction_on with
    | refl => exact .refl
    | @head i j hij hja ih =>
      by_cases hia : i = a
      · rw [hia]
        exact .refl
      · exact .head (hg i j hia hij hja) ih
  exact fun hends => hends.no_return ha (hback h hh)

/-! ## Walks -/

/-- The numbers met when so many links are followed. -/
def walk (f : Nat → Option Nat) : Nat → Nat → List Nat
  | 0, _ => []
  | n + 1, i =>
    match f i with
    | some j => j :: walk f n j
    | none => []

theorem walk_some {i j : Nat} (n : Nat) (h : f i = some j) : walk f (n + 1) i = j :: walk f n j := by
  simp only [walk, h]

theorem walk_none {i : Nat} (n : Nat) (h : f i = none) : walk f n i = [] := by
  cases n with
  | zero => rfl
  | succ n => simp only [walk, h]

theorem reaches_of_mem_walk {n i j : Nat} (h : j ∈ walk f n i) :
    ∃ k, f i = some k ∧ Reaches f k j := by
  induction n generalizing i with
  | zero => cases h
  | succ n ih =>
    cases hi : f i with
    | none => rw [walk_none _ hi] at h; cases h
    | some k =>
      rw [walk_some n hi] at h
      refine ⟨k, rfl, ?_⟩
      rcases List.mem_cons.mp h with rfl | h
      · exact .refl
      · obtain ⟨l, hl, hlj⟩ := ih h
        exact .head hl hlj

/-- Without the links to a number, walks stop before it. -/
theorem mem_walk_without {y n i j : Nat} (h : ∀ i k, g i = some k → f i = some k ∧ k ≠ y)
    (hj : j ∈ walk g n i) : j ∈ (walk f n i).takeWhile (· != y) := by
  induction n generalizing i with
  | zero => cases hj
  | succ n ih =>
    cases hi : g i with
    | none => rw [walk_none _ hi] at hj; cases hj
    | some k =>
      obtain ⟨hk, hne⟩ := h i k hi
      rw [walk_some n hi] at hj
      rw [walk_some n hk, List.takeWhile_cons_of_pos (by simpa using hne)]
      rcases List.mem_cons.mp hj with rfl | hj
      · exact List.mem_cons_self
      · exact List.mem_cons_of_mem _ (ih hj)

theorem Ends.nodup_walk (hf : Ends f) (n i : Nat) : (walk f n i).Nodup := by
  induction n generalizing i with
  | zero => exact List.nodup_nil
  | succ n ih =>
    cases hi : f i with
    | none => rw [walk_none _ hi]; exact List.nodup_nil
    | some j =>
      rw [walk_some n hi]
      refine List.nodup_cons.mpr ⟨fun hmem => ?_, ih j⟩
      obtain ⟨k, hk, hkj⟩ := reaches_of_mem_walk hmem
      exact hf.no_return hk hkj

variable {size : Nat} (hsize : ∀ i j, f i = some j → j < size)
include hsize

theorem lt_of_mem_walk {n i j : Nat} (hj : j ∈ walk f n i) : j < size := by
  obtain ⟨k, hk, hkj⟩ := reaches_of_mem_walk hj
  rcases Relation.ReflTransGen.cases_tail hkj with rfl | ⟨l, -, hlj⟩
  · exact hsize _ _ hk
  · exact hsize _ _ hlj

theorem Ends.length_walk_le (hf : Ends f) (n i : Nat) : (walk f n i).length ≤ size := by
  have hsub : walk f n i ⊆ List.range size := fun j hj =>
    List.mem_range.mpr (lt_of_mem_walk hsize hj)
  have hle := (List.subperm_of_subset (hf.nodup_walk n i) hsub).length_le
  rwa [List.length_range] at hle

omit hsize in
theorem walk_succ_of_length_le {n i : Nat} (h : (walk f (n + 1) i).length ≤ n) :
    walk f (n + 1) i = walk f n i := by
  induction n generalizing i with
  | zero => exact List.eq_nil_of_length_eq_zero (Nat.le_zero.mp h)
  | succ n ih =>
    cases hi : f i with
    | none => rw [walk_none _ hi, walk_none _ hi]
    | some j =>
      rw [walk_some _ hi] at h
      rw [walk_some _ hi, walk_some _ hi, ih (Nat.le_of_succ_le_succ h)]

/-- Walks end before they are longer than there are numbers. -/
theorem Ends.walk_eq (hf : Ends f) {n : Nat} (hn : size ≤ n) (i : Nat) :
    walk f n i = walk f size i := by
  induction hn with
  | refl => rfl
  | @step n hn ih =>
    rw [walk_succ_of_length_le (Nat.le_trans (hf.length_walk_le hsize (n + 1) i) hn), ih]

theorem Ends.mem_walk_of_reaches (hf : Ends f) {i j : Nat} (h : Reaches f i j) :
    i = j ∨ j ∈ walk f size i := by
  induction h using Relation.ReflTransGen.head_induction_on with
  | refl => exact .inl rfl
  | head hij _ ih =>
    right
    rw [← hf.walk_eq hsize (Nat.le_succ size), walk_some _ hij]
    rcases ih with rfl | ih
    · exact List.mem_cons_self
    · exact List.mem_cons_of_mem _ ih

end

namespace World

/-! ## Hosts as links -/

/-- The number of the host that an agent knows. -/
def hostId? (w : World) (i : Nat) : Option Nat := (w.knownHost? ⟨i, ""⟩).map (·.id)

theorem hostId?_eq_some {w : World} {i j : Nat} :
    w.hostId? i = some j ↔
      (w.agents.get i).host.map (·.id) = some j ∧ (w.agents.get j).gone = false := by
  simp only [hostId?, Option.map_eq_some_iff, knownHost?_eq_some, agent]
  constructor
  · intro hx
    obtain ⟨h, ⟨hh, hg⟩, rfl⟩ := hx
    exact ⟨⟨h, hh, rfl⟩, hg⟩
  · intro hx
    obtain ⟨⟨h, hh, rfl⟩, hg⟩ := hx
    exact ⟨h, ⟨hh, hg⟩, rfl⟩

theorem hostId?_of_host? {held : AgentRef → Bool} {w : World} {a h : AgentRef}
    (hh : w.host? held a = some h) : w.hostId? a.id = some h.id :=
  congrArg (Option.map fun x : AgentRef => x.id) (knownHost?_of_host? hh)

theorem map_trailAt (w : World) (n : Nat) (a : AgentRef) :
    (w.trailAt n a).map (·.id) = walk w.hostId? n a.id := by
  induction n generalizing a with
  | zero => rfl
  | succ n ih =>
    have hid : w.hostId? a.id = (w.knownHost? a).map (·.id) := rfl
    cases h : w.knownHost? a with
    | none =>
      rw [h] at hid
      rw [walk_none _ hid, trailAt, h, List.map_nil]
    | some x =>
      rw [h] at hid
      rw [walk_some n hid, trailAt, h, List.map_cons, ih]

/-- Following hosts ends, from every agent. -/
def Tree (w : World) : Prop := Ends w.hostId?

/-- Only agents of the world are hosts, and slots tell the hosts and species of their members,
except for slots of hosts that are gone. -/
structure Lineal (w : World) : Prop where
  hosts : ∀ i h, (w.agents.get i).host = some h → h.id < w.agents.size
  listed : ∀ host species i, Lists w.slots host species i → host < w.agents.size ∧
    ((w.agents.get host).gone = true ∨
      ((w.agents.get i).host.map (·.id) = some host ∧ (w.agents.get i).species = species))

/-- Both records of hosts are in order, and hosts form a tree. -/
structure Rooted (w : World) : Prop extends Lineal w where
  tree : Tree w

theorem Lineal.hostId?_lt {w : World} (h : Lineal w) (i j : Nat) (hij : w.hostId? i = some j) :
    j < w.agents.size := by
  obtain ⟨hh, -⟩ := hostId?_eq_some.mp hij
  obtain ⟨x, hx, rfl⟩ := Option.map_eq_some_iff.mp hh
  exact h.hosts i x hx

/-- A host that is not gone is the host of its members. -/
theorem Lineal.hostId?_of_mem_members {w : World} (h : Lineal w) {x a : AgentRef}
    {species : String} (hx : (w.agent x).gone = false) (ha : a ∈ w.members x species) :
    w.hostId? a.id = some x.id := by
  obtain ⟨s, hs, hmem⟩ := List.mem_flatMap.mp ha
  obtain ⟨hs, hkey⟩ := List.mem_filter.mp hs
  simp only [Bool.and_eq_true, beq_iff_eq] at hkey
  have hm : a ∈ s.members := (Array.mem_filter.mp (Array.mem_toList_iff.mp hmem)).1
  have hlists : Lists w.slots x.id species a.id := ⟨s, hs, hkey.1, hkey.2, a, hm, rfl⟩
  obtain ⟨-, hgone | ⟨hhost, -⟩⟩ := h.listed x.id species a.id hlists
  · rw [agent, hgone] at hx
    cases hx
  · exact hostId?_eq_some.mpr ⟨hhost, hx⟩

/-! ## Changes that give nobody a new host -/

/-- A world with the same agents in the same places, of which more may be gone. -/
structure Fades (w w' : World) : Prop where
  size : w'.agents.size = w.agents.size
  same : ∀ i, (w'.agents.get i).host = (w.agents.get i).host ∧
    (w'.agents.get i).species = (w.agents.get i).species
  gone : ∀ i, (w.agents.get i).gone = true → (w'.agents.get i).gone = true
  lists : ∀ host species i, Lists w'.slots host species i → Lists w.slots host species i

theorem Fades.hostId? {w w' : World} (h : Fades w w') (i j : Nat) (hij : w'.hostId? i = some j) :
    w.hostId? i = some j := by
  obtain ⟨hh, hg⟩ := hostId?_eq_some.mp hij
  rw [(h.same i).1] at hh
  refine hostId?_eq_some.mpr ⟨hh, ?_⟩
  cases hgone : (w.agents.get j).gone with
  | false => rfl
  | true => rw [h.gone j hgone] at hg; cases hg

theorem Fades.tree {w w' : World} (h : Fades w w') (ht : Tree w) : Tree w' := ht.mono h.hostId?

theorem Fades.lineal {w w' : World} (h : Fades w w') (hl : Lineal w) : Lineal w' := by
  refine ⟨?_, ?_⟩
  · intro i x hx
    rw [(h.same i).1] at hx
    rw [h.size]
    exact hl.hosts i x hx
  · intro host species i hi
    rw [(h.same i).1, (h.same i).2, h.size]
    obtain ⟨hlt, hrec⟩ := hl.listed host species i (h.lists host species i hi)
    exact ⟨hlt, hrec.imp_left (h.gone host)⟩

theorem Fades.rooted {w w' : World} (h : Fades w w') (hw : Rooted w) : Rooted w' :=
  ⟨h.lineal hw.toLineal, h.tree hw.tree⟩

theorem fades_update (w : World) (a : AgentRef) {f : Agent → Agent}
    (hf : ∀ x, (f x).host = x.host ∧ (f x).species = x.species ∧
      (x.gone = true → (f x).gone = true)) : Fades w (w.update a f) := by
  have hget : ∀ i, (w.update a f).agents.get i = f (w.agents.get i) ∨
      (w.update a f).agents.get i = w.agents.get i := by
    intro i
    have h := agent_update w a ⟨i, ""⟩ f
    split at h
    · exact .inl h
    · exact .inr h
  refine ⟨size_update w a f, ?_, ?_, fun _ _ _ h => h⟩
  · intro i
    rcases hget i with h | h
    · rw [h]
      exact ⟨(hf _).1, (hf _).2.1⟩
    · rw [h]
      exact ⟨rfl, rfl⟩
  · intro i hi
    rcases hget i with h | h
    · rw [h]
      exact (hf _).2.2 hi
    · rw [h]
      exact hi

theorem fades_refl (w : World) : Fades w w := ⟨rfl, fun _ => ⟨rfl, rfl⟩, fun _ h => h, fun _ _ _ h => h⟩

theorem fades_kill (w : World) (a : AgentRef) : Fades w (w.kill a) :=
  fades_update w a fun _ => ⟨rfl, rfl, id⟩

theorem fades_setAttribute (w : World) (a : AgentRef) (name : String) (v : Value) :
    Fades w (w.setAttribute a name v) := fades_update w a fun _ => ⟨rfl, rfl, id⟩

theorem fades_register (w : World) (s : Species) : Fades w (w.register s) :=
  ⟨rfl, fun _ => ⟨rfl, rfl⟩, fun _ h => h, fun _ _ _ h => h⟩

theorem fades_sweep (w : World) : Fades w w.sweep :=
  ⟨rfl, fun _ => ⟨rfl, rfl⟩, fun _ h => h, fun _ _ _ h => (lists_sweep.mp h).1⟩

theorem fades_forget (held : AgentRef → Bool) (w : World) (a : AgentRef) :
    Fades w (w.forget held a) := by
  rcases forget_cases held w a with h | ⟨h, -, -, -, heq⟩
  · rw [h]
    exact fades_refl w
  · rw [heq]
    exact fades_update w h fun _ => ⟨rfl, rfl, fun _ => rfl⟩

theorem start_host (root : Species) (i : Nat) : ((start root).agents.get i).host = none := by
  rw [start, Heap.get_push]
  split <;> rfl

theorem lineal_start (root : Species) : Lineal (start root) := by
  refine ⟨?_, ?_⟩
  · intro i h hh
    rw [start_host] at hh
    cases hh
  · intro host species i hx
    obtain ⟨s, hs, -⟩ := hx
    cases hs

theorem tree_start (root : Species) : Tree (start root) := by
  refine ⟨fun i => Acc.intro i fun j hij => ?_⟩
  obtain ⟨hh, -⟩ := hostId?_eq_some.mp hij
  rw [start_host] at hh
  cases hh

/-! ## Births -/

theorem birth_get (w : World) (p : Population) (attributes : Record) (i : Nat) :
    (w.birth p attributes).2.agents.get i =
      if i = w.agents.size then
        ⟨w.nextName p.species.name, p.species.name, some p.host, attributes, false, false⟩
      else w.agents.get i := Heap.get_push _ _ i

theorem Lineal.birth {w : World} (h : Lineal w) {p : Population}
    (hp : p.host.id < w.agents.size) (attributes : Record) : Lineal (w.birth p attributes).2 := by
  refine ⟨?_, ?_⟩
  · intro i x hx
    rw [size_birth]
    rw [birth_get] at hx
    split at hx
    · cases hx
      exact Nat.lt_succ_of_lt hp
    · exact Nat.lt_succ_of_lt (h.hosts i x hx)
  · intro host species i hi
    rw [size_birth, birth_get, birth_get]
    rcases lists_of_joinSlots _ _ _ _ hi with ⟨rfl, rfl, rfl⟩ | hi
    · rw [if_pos rfl]
      exact ⟨Nat.lt_succ_of_lt hp, .inr ⟨rfl, rfl⟩⟩
    · obtain ⟨hlt, hrec⟩ := h.listed host species i hi
      rw [if_neg (Nat.ne_of_lt hlt)]
      refine ⟨Nat.lt_succ_of_lt hlt, hrec.imp_right fun hrec => ?_⟩
      -- whoever has a host is in the world already
      have hne : i ≠ w.agents.size := by
        intro hx
        subst hx
        rw [Heap.get_of_size_le _ _ (Nat.le_refl _)] at hrec
        cases hrec.1
      rw [if_neg hne]
      exact hrec

/-- A new agent is nobody's host yet. -/
theorem Tree.birth {w : World} (ht : Tree w) (h : Lineal w) {p : Population}
    (hp : p.host.id < w.agents.size) (attributes : Record) : Tree (w.birth p attributes).2 := by
  refine Ends.of_link ht (a := w.agents.size) (h := p.host.id) ?_ ?_
  · intro hr
    rcases Relation.ReflTransGen.cases_tail hr with heq | ⟨k, -, hk⟩
    · omega
    · exact absurd (h.hostId?_lt _ _ hk) (Nat.lt_irrefl _)
  · intro i j hij
    obtain ⟨hh, hg⟩ := hostId?_eq_some.mp hij
    rw [birth_get] at hh
    split at hh
    case isTrue hi => exact .inr ⟨hi, (Option.some.inj hh).symm⟩
    case isFalse =>
      obtain ⟨x, hx, rfl⟩ := Option.map_eq_some_iff.mp hh
      rw [birth_get, if_neg (Nat.ne_of_lt (h.hosts i x hx))] at hg
      exact .inl (hostId?_eq_some.mpr ⟨hh, hg⟩)

/-- What each birth keeps, a whole population of births keeps. -/
theorem populate_keeps {P : World → Prop} {p : Population}
    (hbirth : ∀ w attributes, p.host.id < w.agents.size → P w → P (w.birth p attributes).2)
    {w : World} (hp : p.host.id < w.agents.size) (hw : P w) (s : Store) (inits : List Record) :
    P (w.populate s p inits).2.1 := by
  simp only [World.populate]
  generalize (w.defaults s p.species).1 = defaults
  induction inits generalizing w with
  | nil => exact hw
  | cons init rest ih =>
    have hlt : p.host.id < (w.birth p (defaults.extend init.fields)).2.agents.size := by
      rw [size_birth]
      omega
    exact ih hlt (hbirth w _ hp hw)

theorem Lineal.populate {w : World} (h : Lineal w) {p : Population}
    (hp : p.host.id < w.agents.size) (s : Store) (inits : List Record) :
    Lineal (w.populate s p inits).2.1 :=
  populate_keeps (fun _ attributes hlt hl => hl.birth hlt attributes) hp h s inits

theorem Rooted.populate {w : World} (h : Rooted w) {p : Population}
    (hp : p.host.id < w.agents.size) (s : Store) (inits : List Record) :
    Rooted (w.populate s p inits).2.1 := by
  refine populate_keeps (fun v attributes hlt hv => ?_) hp h s inits
  exact ⟨hv.toLineal.birth hlt attributes, hv.tree.birth hv.toLineal hlt attributes⟩

/-! ## Moves -/

/-- An agent that cannot tell its host any more has a host that is gone. -/
theorem Lineal.gone_of_blind {w : World} (h : Lineal w) {held : AgentRef → Bool} {a x : AgentRef}
    (hblind : w.host? held a = none) (hx : (w.agent a).host = some x) :
    ((w.forget held a).agent x).gone = true := by
  cases hg : (w.agent x).gone with
  | true => exact (fades_forget held w a).gone x.id hg
  | false =>
    have hknown : w.knownHost? a = some x := knownHost?_eq_some.mpr ⟨hx, hg⟩
    have hlost : (w.isDead x && !held x) = true := by
      cases hd : w.isDead x && !held x with
      | true => rfl
      | false =>
        simp only [host?, hknown, hd] at hblind
        cases hblind
    have hsize : w.agents.size = (w.agents.size - 1) + 1 := by
      have := lt_size_of_host hx
      omega
    have hforget : w.forget held a = w.update x fun y => { y with gone := true } := by
      unfold forget
      rw [hsize]
      simp only [trailAt, hknown, List.find?_cons, hlost]
    rw [hforget, agent_update, if_pos ⟨rfl, h.hosts a.id x hx⟩]

section
variable {w : World} {held : AgentRef → Bool} {a : AgentRef} {p : Population}

/-- Whoever stays in its old slot when it moves has a host that is gone. -/
theorem Lineal.gone_of_stays (h : Lineal w) (hid : ById held) {host : Nat} {species : String}
    (hi : Lists (slotsWithout held (w.forget held a) a) host species a.id) :
    host < w.agents.size ∧ ((w.forget held a).agents.get host).gone = true := by
  have hf := (fades_forget held w a).lineal h
  obtain ⟨hlt, hrec⟩ := hf.listed host species a.id (lists_of_slotsWithout hi)
  rw [size_forget] at hlt
  refine ⟨hlt, ?_⟩
  rcases hrec with hg | ⟨hhost, rfl⟩
  · exact hg
  · obtain ⟨x, hx, rfl⟩ := Option.map_eq_some_iff.mp hhost
    cases hh : (w.forget held a).host? held a with
    | some y =>
      have hy := (knownHost?_eq_some.mp (knownHost?_of_host? hh)).1
      obtain rfl : x = y := Option.some.inj (hx.symm.trans hy)
      exact absurd hi (not_lists_slotsWithout hh)
    | none =>
      rw [host?_forget hid] at hh
      rw [((fades_forget held w a).same a.id).1] at hx
      exact h.gone_of_blind hh hx

theorem Lineal.move (h : Lineal w) (hid : ById held) (s : Store) (ha : a.id < w.agents.size)
    (hp : p.host.id < w.agents.size) : Lineal (w.move held s a p).1 := by
  have hf := (fades_forget held w a).lineal h
  refine ⟨?_, ?_⟩
  · intro i x hx
    obtain ⟨attributes, hget⟩ := move_get held w s a p ha i
    rw [hget] at hx
    rw [size_move]
    split at hx
    · cases hx
      exact hp
    · rw [← size_forget held w a]
      exact hf.hosts i x hx
  · intro host species i hi
    obtain ⟨attributes, hget⟩ := move_get held w s a p ha i
    have hgone : ((w.move held s a p).1.agents.get host).gone =
        ((w.forget held a).agents.get host).gone := by
      obtain ⟨_, hget⟩ := move_get held w s a p ha host
      rw [hget]
      split <;> rfl
    rw [size_move, hgone, hget]
    rw [move_slots] at hi
    rcases lists_of_joinSlots _ _ _ _ hi with ⟨rfl, rfl, rfl⟩ | hi
    · rw [if_pos rfl]
      exact ⟨hp, .inr ⟨rfl, rfl⟩⟩
    · by_cases hia : a.id = i
      · subst hia
        obtain ⟨hlt, hg⟩ := h.gone_of_stays hid hi
        exact ⟨hlt, .inl hg⟩
      · rw [if_neg hia]
        obtain ⟨hlt, hrec⟩ := hf.listed host species i ((lists_slotsWithout (Ne.symm hia)).mp hi)
        rw [size_forget] at hlt
        exact ⟨hlt, hrec⟩

/-- Whatever statements do, hosts and slots stay in order. -/
theorem Lineal.change {w w' : World} (h : Lineal w) (hc : Change w w') : Lineal w' := by
  cases hc with
  | assigned a name v => exact (fades_setAttribute w a name v).lineal h
  | death a => exact (fades_kill w a).lineal h
  | lost held a => exact (fades_forget held w a).lineal h
  | born s p inits hp => exact h.populate hp s inits
  | moved held hid s a p ha hp => exact h.move hid s ha hp

/-- The links after a move: those before it that are not forgotten, and one new link. -/
theorem hostId?_move (s : Store) (ha : a.id < w.agents.size) {i j : Nat} :
    (w.move held s a p).1.hostId? i = some j ↔
      (i ≠ a.id ∧ (w.forget held a).hostId? i = some j) ∨
        (i = a.id ∧ j = p.host.id ∧ ((w.forget held a).agents.get j).gone = false) := by
  obtain ⟨attributes, hget⟩ := move_get held w s a p ha i
  obtain ⟨_, hget'⟩ := move_get held w s a p ha j
  have hgone : ((w.move held s a p).1.agents.get j).gone =
      ((w.forget held a).agents.get j).gone := by
    rw [hget']
    split <;> rfl
  rw [hostId?_eq_some, hostId?_eq_some, hget, hgone]
  by_cases hia : a.id = i
  · subst hia
    rw [if_pos rfl]
    constructor
    · intro hx
      obtain ⟨hh, hg⟩ := hx
      exact .inr ⟨rfl, (Option.some.inj hh).symm, hg⟩
    · intro hx
      rcases hx with ⟨hne, -⟩ | ⟨-, rfl, hg⟩
      · exact absurd rfl hne
      · exact ⟨rfl, hg⟩
  · rw [if_neg hia]
    simp [Ne.symm hia]

/-- Only hosts above an agent are forgotten when it moves. -/
theorem gone_forget {j : Nat} (h : ((w.forget held a).agents.get j).gone = true) :
    (w.agents.get j).gone = true ∨ ∃ k, w.hostId? a.id = some k ∧ Reaches w.hostId? k j := by
  rcases forget_cases held w a with heq | ⟨y, hy, -, -, heq⟩
  · rw [heq] at h
    exact .inl h
  · rw [heq] at h
    have hupdate := agent_update w y ⟨j, ""⟩ fun x => { x with gone := true }
    split at hupdate
    case isTrue hj =>
      obtain ⟨rfl, -⟩ := hj
      refine .inr (reaches_of_mem_walk (n := w.agents.size) ?_)
      rw [← map_trailAt]
      exact List.mem_map_of_mem hy
    case isFalse =>
      left
      rw [← h]
      exact (congrArg (·.gone) hupdate).symm

/-- A move keeps the tree if the agent is not met on the way up from its new host, or if that
host is gone. -/
theorem Tree.move (ht : Tree w) (s : Store) (ha : a.id < w.agents.size)
    (hr : (w.agent p.host).gone = false → ¬Reaches w.hostId? p.host.id a.id) :
    Tree (w.move held s a p).1 := by
  have hfades := fades_forget held w a
  cases hg : (w.agent p.host).gone with
  | false =>
    refine Ends.of_link ht (hr hg) fun i j hij => ?_
    rcases (hostId?_move s ha).mp hij with ⟨-, hij⟩ | ⟨rfl, rfl, -⟩
    · exact .inl (hfades.hostId? i j hij)
    · exact .inr ⟨rfl, rfl⟩
  | true =>
    refine ht.mono fun i j hij => ?_
    rcases (hostId?_move s ha).mp hij with ⟨-, hij⟩ | ⟨-, rfl, hg'⟩
    · exact hfades.hostId? i j hij
    · rw [hfades.gone p.host.id hg] at hg'
      cases hg'

/-- There is no other way to keep it. -/
theorem tree_move_iff (ht : Tree w) (s : Store) (ha : a.id < w.agents.size) :
    Tree (w.move held s a p).1 ↔
      ¬((w.agent p.host).gone = false ∧ Reaches w.hostId? p.host.id a.id) := by
  refine ⟨fun htree ⟨hg, hr⟩ => ?_, fun hr => ht.move s ha fun hg h => hr ⟨hg, h⟩⟩
  -- what is met before the agent is not above it, so it is not forgotten
  have hstays : ∀ j, (w.agents.get j).gone = false → Reaches w.hostId? j a.id →
      ((w.forget held a).agents.get j).gone = false := by
    intro j hj hja
    cases hgone : ((w.forget held a).agents.get j).gone with
    | false => rfl
    | true =>
      rcases gone_forget hgone with hj' | ⟨k, hk, hkj⟩
      · rw [hj] at hj'
        cases hj'
      · exact absurd (hkj.trans hja) (ht.no_return hk)
  refine not_ends_of_link hr ?_ ?_ htree
  · exact (hostId?_move s ha).mpr (.inr ⟨rfl, rfl, hstays _ hg hr⟩)
  · intro i j hia hij hja
    obtain ⟨hh, hg⟩ := hostId?_eq_some.mp hij
    refine (hostId?_move s ha).mpr (.inl ⟨hia, hostId?_eq_some.mpr ⟨?_, hstays j hg hja⟩⟩)
    rw [((fades_forget held w a).same i).1]
    exact hh

end

/-! ## Worlds that come about -/

/-- A new world, and what registrations, sweeps and statements make of it. -/
inductive Reachable : World → Prop
  | start (root : Species) : Reachable (start root)
  | register {w : World} (s : Species) : Reachable w → Reachable (w.register s)
  | sweep {w : World} : Reachable w → Reachable w.sweep
  | change {w w' : World} : Reachable w → Change w w' → Reachable w'

theorem Reachable.lineal {w : World} (h : Reachable w) : Lineal w := by
  induction h with
  | start root => exact lineal_start root
  | register s _ ih => exact (fades_register _ s).lineal ih
  | sweep _ ih => exact (fades_sweep _).lineal ih
  | change _ hc ih => exact ih.change hc

theorem Reachable.follows {w w' : World} (h : Reachable w) (hw : Follows w w') : Reachable w' := by
  induction hw with
  | refl => exact h
  | tail _ hc ih => exact ih.change hc

/-! ## Walks along hosts -/

/-- The number of the host of an agent, if it is alive or still held. -/
def heldId? (held : AgentRef → Bool) (w : World) (i : Nat) : Option Nat :=
  (w.host? held ⟨i, ""⟩).map (·.id)

theorem hostId?_of_heldId? {held : AgentRef → Bool} {w : World} (i j : Nat)
    (h : heldId? held w i = some j) : w.hostId? i = some j := by
  obtain ⟨x, hx, rfl⟩ := Option.map_eq_some_iff.mp h
  exact hostId?_of_host? hx

theorem map_hostChainAt (held : AgentRef → Bool) (w : World) (n : Nat) (a : AgentRef) :
    (w.hostChainAt held (n + 1) a).map (·.id) = a.id :: walk (heldId? held w) n a.id := by
  induction n generalizing a with
  | zero =>
    rw [hostChainAt]
    cases w.host? held a with
    | none => rfl
    | some x => rfl
  | succ n ih =>
    have hid : heldId? held w a.id = (w.host? held a).map (·.id) := rfl
    cases h : w.host? held a with
    | none =>
      rw [h] at hid
      rw [walk_none _ hid, hostChainAt, h]
      rfl
    | some x =>
      rw [h] at hid
      rw [walk_some n hid, hostChainAt, h, List.map_cons, ih]

/-- A walk that has stopped goes no further with more steps. -/
theorem hostChainAt_succ {held : AgentRef → Bool} {w : World} {n : Nat} {a : AgentRef}
    (h : (w.hostChainAt held (n + 1) a).length ≤ n) :
    w.hostChainAt held (n + 1) a = w.hostChainAt held n a := by
  induction n generalizing a with
  | zero =>
    rw [hostChainAt] at h
    cases h
  | succ n ih =>
    rw [hostChainAt] at h ⊢
    rw [hostChainAt]
    cases hx : w.host? held a with
    | none => rfl
    | some x =>
      rw [hx] at h
      dsimp only
      rw [ih (Nat.le_of_succ_le_succ h)]

/-- Walks along hosts end: more steps than there are agents lead nowhere new. -/
theorem Tree.hostChainAt_eq {w : World} (ht : Tree w) (hl : Lineal w) (held : AgentRef → Bool)
    (a : AgentRef) {n : Nat} (hn : w.agents.size < n) :
    w.hostChainAt held n a = w.hostChain held a := by
  have hends : Ends (heldId? held w) := ht.mono hostId?_of_heldId?
  have hlt : ∀ i j, heldId? held w i = some j → j < w.agents.size := fun i j h =>
    hl.hostId?_lt i j (hostId?_of_heldId? i j h)
  induction hn with
  | refl => rfl
  | @step n hn ih =>
    rw [hostChainAt_succ, ih]
    have hlen := congrArg List.length (map_hostChainAt held w n a)
    rw [List.length_map, List.length_cons] at hlen
    have hle := hends.length_walk_le hlt n a.id
    have hn' : w.agents.size + 1 ≤ n := hn
    omega

/-! ## What is checked before an agent is captured -/

section
variable {w : World} {held : AgentRef → Bool}

/-- Whoever is met on a walk along hosts is above. -/
theorem reaches_of_mem_hostChain {h : AgentRef} {j : Nat}
    (hj : j ∈ h.id :: walk (heldId? held w) w.agents.size h.id) :
    Reaches (heldId? held w) h.id j := by
  rcases List.mem_cons.mp hj with heq | hj
  · rw [heq]
    exact .refl
  · obtain ⟨k, hk, hkj⟩ := reaches_of_mem_walk hj
    exact .head hk hkj

theorem heldId?_forget (hid : ById held) (h : AgentRef) :
    heldId? held (w.forget held h) = heldId? held w := by
  funext i
  rw [heldId?, heldId?, host?_forget hid]

/-- What is met before a number is met. -/
theorem mem_of_mem_takeWhile {l l' : List Nat} {y j : Nat}
    (h : j ∈ (l ++ y :: l').takeWhile (· != y)) : j ∈ l := by
  induction l with
  | nil =>
    rw [List.nil_append, List.takeWhile_cons_of_neg (by simp)] at h
    cases h
  | cons x rest ih =>
    rw [List.cons_append, List.takeWhile_cons] at h
    split at h
    · rcases List.mem_cons.mp h with rfl | h
      · exact List.mem_cons_self
      · exact List.mem_cons_of_mem _ (ih h)
    · cases h

/-- Nobody has a host that is gone. -/
theorem hostId?_update_gone {y : AgentRef} (hy : y.id < w.agents.size) {i k : Nat}
    (hik : (w.update y fun x => { x with gone := true }).hostId? i = some k) :
    w.hostId? i = some k ∧ k ≠ y.id := by
  have hfades := fades_update w y (f := fun x => { x with gone := true })
    fun _ => ⟨rfl, rfl, fun _ => rfl⟩
  refine ⟨hfades.hostId? i k hik, ?_⟩
  intro hk
  subst hk
  have hgone := (hostId?_eq_some.mp hik).2
  have hupdate := agent_update w y y fun x => { x with gone := true }
  rw [if_pos ⟨rfl, hy⟩] at hupdate
  rw [← agent, hupdate] at hgone
  cases hgone

/-- Above an agent whose nearest lost host was forgotten, no host is lost. -/
theorem not_lost_of_mem_walk (hl : Lineal w) (hid : ById held) {h x : AgentRef}
    (hx : x.id ∈ walk (w.forget held h).hostId? w.agents.size h.id) :
    (w.isDead x && !held x) = false := by
  -- whether a host is lost is decided by its number
  have hlost : ∀ z : AgentRef, z.id = x.id → (w.isDead z && !held z) = false →
      (w.isDead x && !held x) = false := by
    intro z hz h
    rw [hid z x hz, isDead, agent, hz] at h
    exact h
  unfold forget at hx
  split at hx
  case h_1 y hfind =>
    obtain ⟨-, pre, post, htrail, hpre⟩ := List.find?_eq_some_iff_append.mp hfind
    have hwalk := map_trailAt w w.agents.size h
    rw [htrail, List.map_append, List.map_cons] at hwalk
    have hy : y.id < w.agents.size := by
      refine lt_of_mem_walk hl.hostId?_lt (n := w.agents.size) (i := h.id) ?_
      rw [← hwalk]
      simp
    have hbefore := mem_walk_without (fun i k hik => hostId?_update_gone hy hik) hx
    rw [← hwalk] at hbefore
    obtain ⟨z, hz, hzx⟩ := List.mem_map.mp (mem_of_mem_takeWhile hbefore)
    exact hlost z hzx (by simpa only [Bool.not_eq_true'] using hpre z hz)
  case h_2 hfind =>
    rw [← map_trailAt] at hx
    obtain ⟨z, hz, hzx⟩ := List.mem_map.mp hx
    exact hlost z hzx (by simpa using List.find?_eq_none.mp hfind z hz)

/-- Above an agent whose nearest lost host was forgotten, the hosts that are known are the ones
that are alive or held. -/
theorem heldId?_of_reaches (ht : Tree w) (hl : Lineal w) (hid : ById held) {h : AgentRef}
    {i j : Nat} (hr : Reaches (w.forget held h).hostId? h.id i)
    (hij : (w.forget held h).hostId? i = some j) : heldId? held (w.forget held h) i = some j := by
  have ht' := (fades_forget held w h).tree ht
  have hl' := (fades_forget held w h).lineal hl
  obtain ⟨x, hx, rfl⟩ := Option.map_eq_some_iff.mp hij
  have hmem : x.id ∈ walk (w.forget held h).hostId? w.agents.size h.id := by
    rw [← size_forget held w h]
    rcases Ends.mem_walk_of_reaches hl'.hostId?_lt ht' (hr.tail hij) with heq | hmem
    · rw [← heq] at hij
      exact absurd hr (ht'.no_return hij)
    · exact hmem
  have hkept := not_lost_of_mem_walk hl hid hmem
  rw [heldId?, host?, hx]
  dsimp only
  rw [isDead_forget, hkept]
  rfl

/-- The check that an agent is not met above another one is exact, once the nearest lost host
there is forgotten. -/
theorem isInHostChain_iff (ht : Tree w) (hl : Lineal w) (hid : ById held) (h a : AgentRef) :
    w.isInHostChain held h a = true ↔ Reaches (w.forget held h).hostId? h.id a.id := by
  have hends : Ends (heldId? held w) := ht.mono hostId?_of_heldId?
  have hlt : ∀ i j, heldId? held w i = some j → j < w.agents.size := fun i j h =>
    hl.hostId?_lt i j (hostId?_of_heldId? i j h)
  have hchain : w.isInHostChain held h a = true ↔
      a.id ∈ h.id :: walk (heldId? held w) w.agents.size h.id := by
    rw [← map_hostChainAt, isInHostChain, hostChain]
    simp [List.any_eq_true]
  rw [hchain]
  constructor
  · intro hmem
    have hreach := reaches_of_mem_hostChain hmem
    rw [← heldId?_forget hid h] at hreach
    exact hreach.mono hostId?_of_heldId?
  · intro hreach
    have hheld : ∀ j, Reaches (w.forget held h).hostId? h.id j →
        Reaches (heldId? held w) h.id j := by
      rw [← heldId?_forget hid h]
      intro j hj
      induction hj with
      | refl => exact .refl
      | tail hr hij ih => exact ih.tail (heldId?_of_reaches ht hl hid hr hij)
    rcases hends.mem_walk_of_reaches hlt (hheld a.id hreach) with heq | hmem
    · rw [heq]
      exact List.mem_cons_self
    · exact List.mem_cons_of_mem _ hmem

theorem reaches_of_hostChain {h x : AgentRef} (hx : x ∈ w.hostChain held h) :
    Reaches w.hostId? h.id x.id := by
  have hmem := List.mem_map_of_mem (f := (·.id)) hx
  rw [hostChain, map_hostChainAt] at hmem
  exact (reaches_of_mem_hostChain hmem).mono hostId?_of_heldId?

theorem reaches_of_isInHostChain {h a : AgentRef} (ha : w.isInHostChain held h a = true) :
    Reaches w.hostId? h.id a.id := by
  obtain ⟨x, hx, heq⟩ := List.any_eq_true.mp ha
  rw [← beq_iff_eq.mp heq]
  exact reaches_of_hostChain hx

theorem isInHostChain_forget (hid : ById held) (h a b : AgentRef) :
    (w.forget held h).isInHostChain held a b = w.isInHostChain held a b := by
  have hchain : ∀ n x, (w.forget held h).hostChainAt held n x = w.hostChainAt held n x := by
    intro n
    induction n with
    | zero => intro x; rfl
    | succ n ih =>
      intro x
      rw [hostChainAt, hostChainAt, host?_forget hid]
      cases w.host? held x with
      | none => rfl
      | some y => exact congrArg (x :: ·) (ih y)
  rw [isInHostChain, isInHostChain, hostChain, hostChain, hchain, size_forget]

end
end World
end Habitat
