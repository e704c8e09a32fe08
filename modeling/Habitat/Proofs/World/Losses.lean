import Habitat.Proofs.World.Defaults
import Habitat.Proofs.World.Membership

/-!
# Hosts that are lost

A move touches one agent, and may find that dead agents are gone: `Spares` says so of a world and
a later one. What is gone is nobody's host any more, so the hosts above an agent may get fewer. They
lose their upper end only, and they lose it to a dead host (`Shortens`).

* `spares_forget`, `spares_move`: one change.
* `hostChain_eq`: the hosts of an agent are those on the way up before the first one that is lost.
* `Spares.shortens_hostChain`: the hosts of an agent that is not moved, and whose hosts are not.
* `get?_addMissing`: no attribute is replaced.
-/
namespace Habitat.World

/-! ## Worlds that differ in few agents -/

/-- A later world in which all agents are what they were, but for some numbers, and but for dead
agents that are gone. -/
structure Spares (w w' : World) (moved : List Nat) : Prop where
  size : w'.agents.size = w.agents.size
  species : w'.species = w.species
  dead : ∀ b, w'.isDead b = w.isDead b
  same : ∀ b : AgentRef, b.id ∉ moved → ∃ gone, w'.agent b = { w.agent b with gone := gone }
  gone : ∀ b, (w.agent b).gone = true → (w'.agent b).gone = true
  lost : ∀ b, (w'.agent b).gone = true → (w.agent b).gone = true ∨ w.isDead b = true

namespace Spares

variable {w w' w'' : World} {moved moved' : List Nat}

theorem refl (w : World) : Spares w w [] where
  size := rfl
  species := rfl
  dead _ := rfl
  same b _ := ⟨(w.agent b).gone, rfl⟩
  gone _ h := h
  lost _ h := .inl h

theorem trans (h : Spares w w' moved) (h' : Spares w' w'' moved') :
    Spares w w'' (moved' ++ moved) where
  size := h'.size.trans h.size
  species := h'.species.trans h.species
  dead b := (h'.dead b).trans (h.dead b)
  same b hb := by
    rw [List.mem_append, not_or] at hb
    obtain ⟨_, hsame⟩ := h.same b hb.2
    obtain ⟨gone, hsame'⟩ := h'.same b hb.1
    exact ⟨gone, by rw [hsame', hsame]⟩
  gone b hb := h'.gone b (h.gone b hb)
  lost b hb := by
    rcases h'.lost b hb with hb | hb
    · exact h.lost b hb
    · exact .inr ((h.dead b).symm.trans hb)

theorem speciesOf (h : Spares w w' moved) {b : AgentRef} (hb : b.id ∉ moved) :
    w'.speciesOf b = w.speciesOf b := by
  obtain ⟨_, hsame⟩ := h.same b hb
  rw [World.speciesOf, hsame]
  rfl

theorem host (h : Spares w w' moved) {b : AgentRef} (hb : b.id ∉ moved) :
    (w'.agent b).host = (w.agent b).host := by
  obtain ⟨_, hsame⟩ := h.same b hb
  rw [hsame]

/-- Who is not moved holds the same populations. -/
theorem population? (h : Spares w w' moved) {b : AgentRef} (hb : b.id ∉ moved) (name : String) :
    w'.population? b name = w.population? b name := by
  unfold World.population?
  rw [h.size, h.speciesOf hb, microSpecies?_congr h.species]

end Spares

/-- A population is of the species that was asked for. -/
theorem population?_name {w : World} {h : AgentRef} {name : String} {p : Population}
    (hp : w.population? h name = some p) : p.species.name = name := by
  unfold population? microSpecies? find? at hp
  split at hp
  case isFalse => cases hp
  case isTrue =>
    obtain ⟨s, hs, rfl⟩ := Option.map_eq_some_iff.mp hp
    split at hs
    · have hname := List.find?_some hs
      exact beq_iff_eq.mp hname
    · cases hs

/-- Forgetting a host finds that a dead agent is gone. -/
theorem spares_forget (held : AgentRef → Bool) (w : World) (a : AgentRef) :
    Spares w (w.forget held a) [] := by
  rcases forget_cases held w a with heq | ⟨h, -, hdead, -, heq⟩
  · rw [heq]
    exact .refl w
  · have hagent (b : AgentRef) := agent_update w h b fun x => { x with gone := true }
    refine ⟨size_forget held w a, species_forget held w a, isDead_forget held w a, ?_, ?_, ?_⟩
    all_goals
      intro b hb
      rw [heq, hagent] at *
    · split
      · exact ⟨true, rfl⟩
      · exact ⟨_, rfl⟩
    · split
      · rfl
      · exact hb
    · split at hb
      case isTrue hid =>
        rw [isDead, agent, ← hid.1]
        exact .inr hdead
      case isFalse => exact .inl hb

/-- A move touches one agent. -/
theorem spares_move (held : AgentRef → Bool) (w : World) (s : Store) (a : AgentRef)
    (p : Population) (ha : a.id < w.agents.size) : Spares w (w.move held s a p).1 [a.id] := by
  have hforget := spares_forget held w a
  have hagent := agent_move held w s a p ha
  have hgone (b : AgentRef) :
      ((w.move held s a p).1.agent b).gone = ((w.forget held a).agent b).gone := by
    rw [hagent]
    split <;> rfl
  refine ⟨size_move held w s a p, species_forget held w a, fun b => isDead_move held w s a b p,
    ?_, ?_, ?_⟩
  · intro b hb
    rw [hagent, if_neg fun h => hb (List.mem_singleton.mpr h.symm)]
    exact hforget.same b List.not_mem_nil
  · intro b hb
    rw [hgone]
    exact hforget.gone b hb
  · intro b hb
    rw [hgone] at hb
    exact hforget.lost b hb

/-- Nothing that is held is forgotten. -/
theorem gone_forget_of_held {held : AgentRef → Bool} (hid : ById held) {w : World}
    {a b : AgentRef} (hb : held b = true) :
    ((w.forget held a).agent b).gone = (w.agent b).gone := by
  rcases forget_cases held w a with heq | ⟨h, -, -, hheld, heq⟩
  · rw [heq]
  · rw [heq, agent_update, if_neg]
    intro heq
    rw [hid h b heq.1, hb] at hheld
    cases hheld

/-! ## The way up -/

/-- A way that has lost its upper end, from a dead agent on, or nothing. -/
def Shortens (dead : AgentRef → Bool) (way way' : List AgentRef) : Prop :=
  way' = way ∨ ∃ h above, way = way' ++ h :: above ∧ dead h = true

theorem Shortens.trans {dead : AgentRef → Bool} {way way' way'' : List AgentRef}
    (h : Shortens dead way way') (h' : Shortens dead way' way'') : Shortens dead way way'' := by
  rcases h with rfl | ⟨x, above, rfl, hx⟩
  · exact h'
  · rcases h' with rfl | ⟨y, above', rfl, hy⟩
    · exact .inr ⟨x, above, rfl, hx⟩
    · exact .inr ⟨y, above' ++ x :: above, by rw [List.append_assoc, List.cons_append], hy⟩

theorem Shortens.cons {dead : AgentRef → Bool} {way way' : List AgentRef}
    (h : Shortens dead way way') (a : AgentRef) : Shortens dead (a :: way) (a :: way') := by
  rcases h with rfl | ⟨x, above, rfl, hx⟩
  · exact .inl rfl
  · exact .inr ⟨x, above, rfl, hx⟩

theorem Shortens.subset {dead : AgentRef → Bool} {way way' : List AgentRef}
    (h : Shortens dead way way') : way' ⊆ way := by
  rcases h with rfl | ⟨x, above, rfl, -⟩
  · exact fun _ ha => ha
  · exact fun _ ha => List.mem_append_left _ ha

theorem Shortens.length_le {dead : AgentRef → Bool} {way way' : List AgentRef}
    (h : Shortens dead way way') : way'.length ≤ way.length := by
  rcases h with rfl | ⟨x, above, rfl, -⟩
  · exact Nat.le_refl _
  · simp

/-- What was lost does not come back. -/
theorem Shortens.antisymm {dead : AgentRef → Bool} {way way' : List AgentRef}
    (h : Shortens dead way way') (h' : Shortens dead way' way) : way' = way := by
  rcases h with h | ⟨x, above, rfl, -⟩
  · exact h
  · have hle := h'.length_le
    rw [List.length_append, List.length_cons] at hle
    omega

/-- A way that gets shorter step by step. -/
theorem Shortens.along {dead : AgentRef → Bool} {ways : Nat → List AgentRef}
    (h : ∀ i, Shortens dead (ways i) (ways (i + 1))) {i j : Nat} (hij : i ≤ j) :
    Shortens dead (ways i) (ways j) := by
  induction hij with
  | refl => exact .inl rfl
  | step _ ih => exact ih.trans (h _)

/-- A way up to the first agent of a kind that only the dead are of. -/
theorem shortens_takeWhile {dead lost : AgentRef → Bool} (h : ∀ a, lost a = true → dead a = true)
    (way : List AgentRef) : Shortens dead way (way.takeWhile fun a => !lost a) := by
  induction way with
  | nil => exact .inl rfl
  | cons a rest ih =>
    rw [List.takeWhile_cons]
    cases ha : lost a with
    | false => exact ih.cons a
    | true => exact .inr ⟨a, rest, rfl, h a ha⟩

/-- Whether a host has died and nothing holds it. -/
def isLost (held : AgentRef → Bool) (w : World) (a : AgentRef) : Bool := w.isDead a && !held a

theorem isDead_of_isLost {held : AgentRef → Bool} {w : World} {a : AgentRef}
    (h : w.isLost held a = true) : w.isDead a = true := (Bool.and_eq_true_iff.mp h).1

/-- The hosts of an agent are those on the way up before the first one that is lost. -/
theorem hostChain_eq (held : AgentRef → Bool) (w : World) (a : AgentRef) :
    w.hostChain held a =
      a :: (w.trailAt w.agents.size a).takeWhile fun h => !w.isLost held h := by
  unfold hostChain
  generalize w.agents.size = n
  induction n generalizing a with
  | zero =>
    rw [hostChainAt]
    cases w.host? held a <;> rfl
  | succ n ih =>
    rw [hostChainAt, host?, trailAt]
    cases w.knownHost? a with
    | none => rfl
    | some h =>
      rw [List.takeWhile_cons]
      cases hlost : w.isLost held h with
      | true => simp only [isLost] at hlost; simp [hlost]
      | false => simp only [isLost] at hlost; simp [hlost, ih]

/-- What is not in the world is gone. -/
theorem lt_size_of_not_gone {w : World} {a : AgentRef} (h : (w.agent a).gone = false) :
    a.id < w.agents.size := by
  refine Nat.lt_of_not_le fun hge => ?_
  rw [agent, Heap.get_of_size_le _ _ hge] at h
  cases h

theorem not_gone_of_mem_trailAt {w : World} {n : Nat} {a h : AgentRef} (hh : h ∈ w.trailAt n a) :
    (w.agent h).gone = false := by
  induction n generalizing a with
  | zero => cases hh
  | succ n ih =>
    rw [trailAt] at hh
    cases hknown : w.knownHost? a with
    | none =>
      rw [hknown] at hh
      cases hh
    | some x =>
      rw [hknown] at hh
      rcases List.mem_cons.mp hh with rfl | hh
      · exact (knownHost?_eq_some.mp hknown).2
      · exact ih hh

/-- The first lost host on the way up is gone once it is forgotten. -/
theorem gone_of_find? {held : AgentRef → Bool} {w : World} {a h : AgentRef}
    (hfind : (w.trailAt w.agents.size a).find? (w.isLost held) = some h) :
    ((w.forget held a).agent h).gone = true := by
  have hforget : w.forget held a = w.update h fun x => { x with gone := true } := by
    unfold forget
    unfold isLost at hfind
    rw [hfind]
  have hlt := lt_size_of_not_gone (not_gone_of_mem_trailAt (List.mem_of_find?_eq_some hfind))
  rw [hforget, agent_update, if_pos ⟨rfl, hlt⟩]

namespace Spares

variable {w w' : World} {moved : List Nat}

/-- Who is not moved knows the host that it knew, unless that is gone now. -/
theorem knownHost?_eq (h : Spares w w' moved) {x : AgentRef} (hx : x.id ∉ moved) :
    w'.knownHost? x = (w.knownHost? x).filter fun y => !(w'.agent y).gone := by
  unfold knownHost?
  rw [h.host hx]
  cases (w.agent x).host with
  | none => rfl
  | some y =>
    cases hgone : (w.agent y).gone with
    | true => simp [hgone, h.gone y hgone]
    | false => cases hgone' : (w'.agent y).gone <;> simp [hgone, hgone', Option.filter_some]

/-- The way up from an agent, before the first host of a kind, if that one is gone now. -/
theorem shortens_trailAt (h : Spares w w' moved) {lost : AgentRef → Bool} (n : Nat) {x : AgentRef}
    (hx : x.id ∉ moved)
    (hclear : ∀ y ∈ (w.trailAt n x).takeWhile (fun h => !lost h), y.id ∉ moved)
    (hlost : ∀ y, (w.trailAt n x).find? lost = some y → (w'.agent y).gone = true) :
    Shortens w.isDead ((w.trailAt n x).takeWhile fun h => !lost h) (w'.trailAt n x) := by
  induction n generalizing x with
  | zero => exact .inl rfl
  | succ n ih =>
    rw [trailAt] at hclear hlost ⊢
    rw [trailAt, h.knownHost?_eq hx]
    cases hknown : w.knownHost? x with
    | none => exact .inl rfl
    | some y =>
      simp only [hknown, List.takeWhile_cons, List.find?_cons] at hclear hlost ⊢
      cases hy : lost y with
      | true =>
        rw [hy] at hlost
        simp only [Option.filter_some, hlost y rfl, Bool.not_true, Bool.false_eq_true, if_false]
        exact .inl rfl
      | false =>
        simp only [hy, Bool.not_false, if_true, List.mem_cons, forall_eq_or_imp] at hclear hlost
        cases hgone : (w'.agent y).gone with
        | true =>
          -- The way ends below a host that was not gone before, so that host is dead.
          rcases h.lost y hgone with hwas | hdead
          · rw [(knownHost?_eq_some.mp hknown).2] at hwas
            cases hwas
          · simp only [Option.filter_some, hgone, Bool.not_true, Bool.false_eq_true, if_false]
            exact .inr ⟨y, _, rfl, hdead⟩
        | false =>
          simp only [Option.filter_some, hgone, Bool.not_false, if_true]
          exact (ih hclear.1 hclear.2 hlost).cons y

/-- The hosts of an agent that is not moved, and whose hosts are not, once the nearest lost one
is forgotten. -/
theorem shortens_hostChain (h : Spares w w' moved) {held : AgentRef → Bool} {x : AgentRef}
    (hclear : ∀ y ∈ w.hostChain held x, y.id ∉ moved)
    (hgone : ∀ y, ((w.forget held x).agent y).gone = true → (w'.agent y).gone = true)
    (held' : AgentRef → Bool) :
    Shortens w.isDead (w.hostChain held x) (w'.hostChain held' x) := by
  rw [hostChain_eq, List.forall_mem_cons] at hclear
  rw [hostChain_eq, hostChain_eq, h.size]
  refine Shortens.cons (.trans ?_ (shortens_takeWhile ?_ _)) x
  · exact h.shortens_trailAt _ hclear.1 hclear.2 fun y hy => hgone y (gone_of_find? hy)
  · intro a ha
    exact (h.dead a).symm.trans (isDead_of_isLost ha)

/-- Who is not moved keeps its host, unless that has died. -/
theorem host?_eq (h : Spares w w' moved) {x : AgentRef} (hx : x.id ∉ moved)
    (held held' : AgentRef → Bool) :
    w'.host? held' x = w.host? held x ∨
      ∃ y, (w.agent x).host = some y ∧ w.isDead y = true := by
  cases hhost : (w.agent x).host with
  | none =>
    left
    rw [host?, host?, knownHost?, knownHost?, h.host hx, hhost]
  | some y =>
    cases hdead : w.isDead y with
    | true => exact .inr ⟨y, rfl, hdead⟩
    | false =>
      left
      have hgone : (w'.agent y).gone = (w.agent y).gone := by
        cases hwas : (w.agent y).gone with
        | true => exact h.gone y hwas
        | false =>
          cases his : (w'.agent y).gone with
          | false => rfl
          | true =>
            rcases h.lost y his with h' | h'
            · exact h'.symm.trans hwas
            · exact h'.symm.trans hdead
      refine Option.ext fun z => ?_
      simp only [host?_eq_some, knownHost?_eq_some, h.host hx, hhost, h.dead]
      constructor
      · rintro ⟨⟨⟨⟩, hz⟩, -⟩
        exact ⟨⟨rfl, hgone.symm.trans hz⟩, .inl hdead⟩
      · rintro ⟨⟨⟨⟩, hz⟩, -⟩
        exact ⟨⟨rfl, hgone.trans hz⟩, .inl hdead⟩

end Spares

/-! ## Attributes -/

/-- An agent that moves keeps its attributes. -/
theorem get?_addMissing {attributes defaults : Record} {name : String} {v : Value}
    (h : attributes.get? name = some v) : (addMissing attributes defaults).get? name = some v := by
  unfold addMissing
  induction defaults.fields generalizing attributes with
  | nil => exact h
  | cons f rest ih =>
    refine ih ?_
    dsimp only
    split
    · exact h
    · next hlacks =>
      rw [Record.insert, Record.get?, Record.lookup_insertField, if_neg]
      · exact h
      · rintro rfl
        exact hlacks (Option.isSome_iff_exists.mpr ⟨v, h⟩)

end Habitat.World
