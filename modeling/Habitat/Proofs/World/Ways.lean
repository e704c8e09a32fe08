import Habitat.Proofs.World.Hierarchy
import Habitat.Proofs.World.Losses

/-!
# The way up in a tree

Where hosts are a tree, the hosts above an agent are its host and the hosts above that one
(`Tree.hostChain_eq`). So whoever stands on the way up from an agent sees the same lost host above
as that agent itself (`Tree.forget_eq`).

* `welcomes_iff`: a host has a population of a species if its species or an ancestor of that one
  declares it.
* `populationFor?_eq`: the nearest population, in terms of the nearest host that declares it.
* `Shortens.find?`: what is found on a way that has lost its upper end was found there before.
-/
namespace Habitat.World

/-! ## One step up -/

section
variable {w : World} (ht : Tree w) (hl : Lineal w)
include ht hl

theorem Tree.trailAt_eq {n : Nat} (hn : w.agents.size ≤ n) (a : AgentRef) :
    w.trailAt n a = w.trailAt w.agents.size a := by
  -- The trail is the way up if everything is held.
  have hall (n : Nat) (a : AgentRef) :
      w.hostChainAt (fun _ => true) (n + 1) a = a :: w.trailAt n a := by
    induction n generalizing a with
    | zero =>
      rw [hostChainAt]
      cases w.host? (fun _ => true) a <;> rfl
    | succ n ih =>
      rw [hostChainAt, trailAt, host?]
      cases w.knownHost? a with
      | none => rfl
      | some h => simp [ih]
  have hchain := ht.hostChainAt_eq hl (fun _ => true) a (Nat.lt_succ_of_le hn)
  rw [hall, hostChain, hall] at hchain
  exact (List.cons.inj hchain).2

theorem Tree.trailAt_cons {a h : AgentRef} (hh : w.knownHost? a = some h) :
    w.trailAt w.agents.size a = h :: w.trailAt w.agents.size h := by
  rw [← ht.trailAt_eq hl (Nat.le_succ _), trailAt, hh]

/-- An agent, and the hosts of its host. -/
theorem Tree.hostChain_cons (held : AgentRef → Bool) (a : AgentRef) :
    w.hostChain held a = a :: match w.host? held a with
      | some h => w.hostChain held h
      | none => [] := by
  rw [← ht.hostChainAt_eq hl held a (Nat.lt_succ_of_lt (Nat.lt_succ_self _)), hostChainAt]
  cases w.host? held a <;> rfl

end

/-! ## The nearest lost host -/

/-- The nearest host above an agent that has died and that nothing holds. -/
def firstLost (held : AgentRef → Bool) (w : World) (a : AgentRef) : Option AgentRef :=
  (w.trailAt w.agents.size a).find? (w.isLost held)

theorem trailAt_congr (w : World) {a b : AgentRef} (h : a.id = b.id) (n : Nat) :
    w.trailAt n a = w.trailAt n b := by
  have hknown : w.knownHost? a = w.knownHost? b := by rw [knownHost?, knownHost?, agent, agent, h]
  cases n with
  | zero => rfl
  | succ n => rw [trailAt, trailAt, hknown]

theorem forget_of_firstLost {held : AgentRef → Bool} {w : World} {a b : AgentRef}
    (h : w.firstLost held a = w.firstLost held b) : w.forget held a = w.forget held b := by
  unfold firstLost isLost at h
  unfold forget
  rw [h]

section
variable {w : World} (ht : Tree w) (hl : Lineal w) {held : AgentRef → Bool} (hid : ById held)
include ht hl

theorem Tree.firstLost_cons {a h : AgentRef} (hh : w.knownHost? a = some h)
    (hlost : w.isLost held h = false) : w.firstLost held a = w.firstLost held h := by
  rw [firstLost, ht.trailAt_cons hl hh, List.find?_cons, hlost]
  rfl

/-- Whoever stands on the way up from an agent sees the same lost host above. -/
theorem Tree.firstLost_of_mem {x h : AgentRef} (hh : h ∈ w.hostChain held x) :
    w.firstLost held h = w.firstLost held x ∧ (h = x ∨ w.isLost held h = false) := by
  generalize hi : x.id = i
  induction i using ht.induction generalizing x with
  | _ i ih =>
    rw [ht.hostChain_cons hl] at hh
    rcases List.mem_cons.mp hh with rfl | hh
    · exact ⟨rfl, .inl rfl⟩
    · cases hhost : w.host? held x with
      | none =>
        rw [hhost] at hh
        cases hh
      | some y =>
        rw [hhost] at hh
        have hknown := knownHost?_of_host? hhost
        have hkept : w.isLost held y = false := by
          rcases (host?_eq_some.mp hhost).2 with hdead | hheld
          · simp [isLost, hdead]
          · simp [isLost, hheld]
        have hlink : w.hostId? i = some y.id := hi ▸ hostId?_of_host? hhost
        obtain ⟨hfirst, hlast⟩ := ih y.id hlink hh rfl
        refine ⟨hfirst.trans (ht.firstLost_cons hl hknown hkept).symm, .inr ?_⟩
        rcases hlast with rfl | hlast
        · exact hkept
        · exact hlast

include hid

/-- An agent whose host stands on the way up from another one finds the same host to forget. -/
theorem Tree.forget_eq {a x y h : AgentRef} (hx : held x = true) (hy : w.knownHost? a = some y)
    (hyh : y.id = h.id) (hh : h ∈ w.hostChain held x) : w.forget held a = w.forget held x := by
  obtain ⟨hfirst, hlast⟩ := ht.firstLost_of_mem hl hh
  have hlost : w.isLost held y = false := by
    have hsame : w.isLost held y = w.isLost held h := by
      rw [isLost, isLost, hid y h hyh, isDead, isDead, agent, agent, hyh]
    rw [hsame]
    rcases hlast with rfl | hlast
    · simp [isLost, hx]
    · exact hlast
  refine forget_of_firstLost ?_
  rw [ht.firstLost_cons hl hy hlost, ← hfirst, firstLost, firstLost, w.trailAt_congr hyh]

end

/-! ## Hosts that declare a species -/

/-- Whether the species of a host, or an ancestor of it, declares a micro-species. -/
def welcomes (w : World) (h : AgentRef) (name : String) : Bool :=
  (w.lineage (w.speciesOf h)).any fun s => s.micro.contains name

/-- Every micro-species that is declared is registered. -/
def Complete (w : World) : Prop := ∀ s ∈ w.species, ∀ name ∈ s.micro, (w.find? name).isSome = true

instance (w : World) : Decidable w.Complete :=
  inferInstanceAs (Decidable (∀ s ∈ w.species, ∀ name ∈ s.micro, (w.find? name).isSome = true))

theorem Complete.isSome_find? {w : World} (hc : w.Complete) {h : AgentRef} {name : String}
    (hw : w.welcomes h name = true) : (w.find? name).isSome = true := by
  obtain ⟨s, hs, hname⟩ := List.any_eq_true.mp hw
  obtain ⟨_, -, hfind⟩ := List.mem_filterMap.mp hs
  exact hc s (List.mem_of_find?_eq_some hfind) name (List.contains_iff_mem.mp hname)

theorem population?_eq (w : World) {h : AgentRef} (hlt : h.id < w.agents.size) (name : String) :
    w.population? h name =
      if w.welcomes h name then (w.find? name).map fun s => ⟨h, s⟩ else none := by
  unfold population? microSpecies? welcomes
  rw [if_pos hlt]
  split <;> rfl

/-- The nearest population of a species is that of the nearest host that declares the species. -/
theorem Complete.findSome?_population? {w : World} (hc : w.Complete) {hosts : List AgentRef}
    (hlt : ∀ h ∈ hosts, h.id < w.agents.size) (name : String) :
    hosts.findSome? (w.population? · name) =
      (hosts.find? (w.welcomes · name)).bind fun h => (w.find? name).map fun s => ⟨h, s⟩ := by
  induction hosts with
  | nil => rfl
  | cons h rest ih =>
    rw [List.findSome?_cons, List.find?_cons, w.population?_eq (hlt h List.mem_cons_self)]
    cases hw : w.welcomes h name with
    | true =>
      obtain ⟨s, hs⟩ := Option.isSome_iff_exists.mp (hc.isSome_find? hw)
      simp [hs]
    | false => exact ih fun h hh => hlt h (List.mem_cons_of_mem _ hh)

/-! ## Ways that get shorter -/

/-- What is found on a way that has lost its upper end was found there before. -/
theorem Shortens.find? {dead : AgentRef → Bool} {way way' : List AgentRef}
    (h : Shortens dead way way') {p : AgentRef → Bool} {y : AgentRef} (hy : way'.find? p = some y) :
    way.find? p = some y := by
  rcases h with rfl | ⟨x, above, rfl, -⟩
  · exact hy
  · rw [List.find?_append, hy, Option.some_or]

/-- What was found on a way is found there, as long as it stands on the way. -/
theorem Shortens.find?_of_mem {dead : AgentRef → Bool} {way way' : List AgentRef}
    (h : Shortens dead way way') {p : AgentRef → Bool} {y : AgentRef} (hy : way.find? p = some y)
    (hmem : y ∈ way') : way'.find? p = some y := by
  obtain ⟨z, hz⟩ := Option.isSome_iff_exists.mp
    (List.find?_isSome.mpr ⟨y, hmem, List.find?_some hy⟩)
  rwa [← h.find? hz, hy] at hz

/-- The way above the first agent. -/
theorem Shortens.tail {dead : AgentRef → Bool} {x : AgentRef} {way way' : List AgentRef}
    (h : Shortens dead (x :: way) (x :: way')) : Shortens dead way way' := by
  rcases h with heq | ⟨y, above, heq, hdead⟩
  · exact .inl (List.cons.inj heq).2
  · exact .inr ⟨y, above, (List.cons.inj heq).2, hdead⟩

end Habitat.World
