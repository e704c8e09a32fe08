import Habitat.Proofs.Store.Footprint
import Habitat.Proofs.World.Change
import Habitat.Run.Dispatch

/-!
# What looking around in the world reads

Whoever looks for hosts, populations and agents of a species asks of those on the way whether they
are dead. A host that has died is found only as long as something holds it, which depends on all
that runs: that is `shared`. What else there is to an agent than its attributes and its death does
not change while nobody is born or moves (`World.outline`).

Two worlds with one outline give the same answers if the deaths are the same that are asked for:
`World.Resembles.reachable`, `World.Resembles.canCapture` and their neighbours.
-/
namespace Habitat

/-- An agent without its attributes, as if it lived. -/
def Agent.outline (x : Agent) : Agent := { x with attributes := .empty, dead := false }

namespace World

/-- The world without attributes and deaths. -/
def outline (w : World) : World := { w with agents := ⟨w.agents.cells.map Agent.outline⟩ }

section
variable (w : World) (a : AgentRef)

theorem outline_update {f : Agent → Agent} (hf : ∀ x, (f x).outline = x.outline) :
    (w.update a f).outline = w.outline := by
  have hcells : (w.agents.modify a.id f).cells.map Agent.outline =
      w.agents.cells.map Agent.outline := by
    apply Array.ext
    · simp [Heap.modify]
    · intro i hi _
      simp only [Array.getElem_map, Heap.modify, Array.getElem_modify]
      split
      · exact hf _
      · rfl
  simp only [outline, update, hcells]

/-- Asking for the host that an agent knows. -/
def hostReads : List Access :=
  match w.knownHost? a with
  | some h => .read (.life h.id) :: if w.isDead h then [.shared] else []
  | none => []

/-- Going from host to host, at most `n` times, until one is found. -/
def chainReads (found : AgentRef → Bool) : Nat → AgentRef → List Access
  | 0, _ => [.endless]
  | n + 1, a =>
    if found a then [] else w.hostReads a ++
      match w.knownHost? a with
      | some h => if w.isDead h then [] else chainReads found n h
      | none => []

/-- Looking for a population among the hosts of an agent. -/
def populationReads (species : String) : List Access :=
  w.chainReads (fun h => (w.population? h species).isSome) (w.agents.size + 1) a

/-- Asking whether `other` is the agent or one of its hosts. -/
def inChainReads (other : AgentRef) : List Access :=
  w.chainReads (fun h => h.id == other.id) (w.agents.size + 1) a

/-- Asking which of the next `n` hosts are dead. -/
def trailReads : Nat → AgentRef → List Access
  | 0, _ => []
  | n + 1, a => w.hostReads a ++
    match w.knownHost? a with
    | some h => if w.isDead h then [] else trailReads n h
    | none => []

/-- Forgetting a host that has died. -/
def forgetReads : List Access := w.trailReads w.agents.size a

/-- Asking which members of populations live. -/
def memberReads (slots : List Slot) : List Access :=
  slots.flatMap fun s => s.members.toList.map fun m => .read (.life m.id)

/-- Finding the live agents of a population. -/
def membersReads (host : AgentRef) (species : String) : List Access :=
  memberReads (w.slots.filter fun s => s.host == host.id && s.species == species)

/-- Asking whether a candidate can be captured. -/
def captureReads (held : AgentRef → Bool) (macroAgent candidate : AgentRef) : List Access :=
  .read (.life candidate.id) ::
    if w.isDead candidate then [] else w.inChainReads macroAgent candidate ++
      if w.isInHostChain held macroAgent candidate then [] else w.hostReads candidate

/-- Finding the live agents of a species that an agent reaches. -/
def reachableReads (held : AgentRef → Bool) (a : Option AgentRef) (species : String) :
    List Access :=
  ((a.map fun a => w.populationReads a species).getD []) ++
    match a.bind (w.populationFor? held · species) with
    | some p => w.membersReads p.host species
    | none => memberReads (w.slots.filter fun s => s.species == species)

end

/-- Two worlds in which those who ask for nothing but what they may see the same. -/
structure Resembles (P : Access → Prop) (w w' : World) : Prop where
  outline : w'.outline = w.outline
  dead : ∀ a, P (.read (.life a.id)) → w'.isDead a = w.isDead a
  ends : ¬P .endless
  alone : ¬P .shared

section
variable {P : Access → Prop} {w w' : World} (h : Resembles P w w')
include h

namespace Resembles

theorem size : w'.agents.size = w.agents.size := by
  have hsize (w : World) : w.outline.agents.cells.size = w.agents.size := Array.size_map
  rw [← hsize, ← hsize, h.outline]

theorem agent (a : AgentRef) : (w'.agent a).outline = (w.agent a).outline := by
  have hget (w : World) : (w.agent a).outline = w.outline.agents.cells.getD a.id
      (default : Agent).outline := by
    simp only [World.agent, Heap.get, World.outline, Array.getD_eq_getD_getElem?,
      Array.getElem?_map]
    cases w.agents.cells[a.id]? <;> rfl
  rw [hget, hget, h.outline]

theorem speciesOf (a : AgentRef) : w'.speciesOf a = w.speciesOf a := by
  have hspecies := congrArg Agent.species (h.agent a)
  exact hspecies

theorem slots : w'.slots = w.slots := by
  have hslots := congrArg World.slots h.outline
  exact hslots

theorem species : w'.species = w.species := by
  have hspecies := congrArg World.species h.outline
  exact hspecies

theorem knownHost? (a : AgentRef) : w'.knownHost? a = w.knownHost? a := by
  have hgone (a : AgentRef) : (w'.agent a).gone = (w.agent a).gone := by
    have hgone := congrArg Agent.gone (h.agent a)
    exact hgone
  have hhost : (w'.agent a).host = (w.agent a).host := by
    have hhost := congrArg Agent.host (h.agent a)
    exact hhost
  simp only [World.knownHost?, hhost, hgone]

theorem population? (a : AgentRef) (species : String) :
    w'.population? a species = w.population? a species := by
  rw [World.population?, World.population?, h.size, h.speciesOf, microSpecies?_congr h.species]

theorem findAction? (species action : String) :
    w'.findAction? species action = w.findAction? species action := by
  rw [World.findAction?, World.findAction?, lineage_congr h.species]

/-! ### Hosts -/

theorem alive_of_hostReads {a b : AgentRef} (hP : ∀ x ∈ w.hostReads a, P x)
    (hb : w.knownHost? a = some b) : w.isDead b = false := by
  rw [hostReads, hb, List.forall_mem_cons] at hP
  rw [Bool.eq_false_iff]
  intro hdead
  rw [if_pos hdead] at hP
  exact h.alone (hP.2 _ List.mem_cons_self)

/-- A known host that lives is found, whatever is held. -/
theorem host? {a : AgentRef} (hP : ∀ x ∈ w.hostReads a, P x) (held held' : AgentRef → Bool) :
    w'.host? held' a = w.knownHost? a ∧ w.host? held a = w.knownHost? a := by
  rw [World.host?, World.host?, h.knownHost?]
  cases hknown : w.knownHost? a with
  | none => exact ⟨rfl, rfl⟩
  | some b =>
    have hlives := h.alive_of_hostReads hP hknown
    rw [hostReads, hknown, List.forall_mem_cons] at hP
    simp only [h.dead b hP.1, hlives, Bool.false_and, Bool.false_eq_true, if_false, and_self]

theorem isHostedBy {a : AgentRef} (hP : ∀ x ∈ w.hostReads a, P x) (held held' : AgentRef → Bool)
    (b : AgentRef) : Exec.isHostedBy held' w' a b = Exec.isHostedBy held w a b := by
  obtain ⟨hhost', hhost⟩ := h.host? hP held held'
  rw [Exec.isHostedBy, Exec.isHostedBy, hhost', hhost]

/-- Going from host to host ends with the same one. -/
theorem find?_hostChainAt {found : AgentRef → Bool} {n : Nat} {a : AgentRef}
    (hP : ∀ x ∈ w.chainReads found n a, P x) (held held' : AgentRef → Bool) :
    (w'.hostChainAt held' n a).find? found = (w.hostChainAt held n a).find? found := by
  induction n generalizing a with
  | zero => exact absurd (hP _ List.mem_cons_self) h.ends
  | succ n ih =>
    rw [hostChainAt, hostChainAt, List.find?_cons, List.find?_cons]
    rw [chainReads] at hP
    cases hfound : found a with
    | true => rfl
    | false =>
      rw [hfound, if_neg Bool.false_ne_true, List.forall_mem_append] at hP
      obtain ⟨hhost', hhost⟩ := h.host? hP.1 held held'
      rw [hhost', hhost]
      cases hknown : w.knownHost? a with
      | none => rfl
      | some b =>
        have hlives := h.alive_of_hostReads hP.1 hknown
        rw [hknown] at hP
        dsimp only at hP
        rw [hlives, if_neg Bool.false_ne_true] at hP
        exact ih hP.2

theorem populationFor? {a : AgentRef} {species : String}
    (hP : ∀ x ∈ w.populationReads a species, P x) (held held' : AgentRef → Bool) :
    w'.populationFor? held' a species = w.populationFor? held a species := by
  have hfind := h.find?_hostChainAt hP held held'
  have hfirst (f : AgentRef → Option Population) (as : List AgentRef) :
      as.findSome? f = (as.find? fun a => (f a).isSome).bind f := by
    induction as with
    | nil => rfl
    | cons a rest ih =>
      rw [List.findSome?_cons, List.find?_cons, ih]
      cases ha : f a with
      | none => rfl
      | some p => exact ha.symm
  unfold World.populationFor? hostChain
  rw [h.size, funext (h.population? · species), hfirst, hfirst, hfind]

theorem isInHostChain {a other : AgentRef} (hP : ∀ x ∈ w.inChainReads a other, P x)
    (held held' : AgentRef → Bool) :
    w'.isInHostChain held' a other = w.isInHostChain held a other := by
  have hfind := h.find?_hostChainAt hP held held'
  unfold World.isInHostChain hostChain
  rw [h.size, ← List.isSome_find?, ← List.isSome_find?, hfind]

theorem canCapture {held : AgentRef → Bool} {macroAgent candidate : AgentRef}
    (hP : ∀ x ∈ w.captureReads held macroAgent candidate, P x) (held' : AgentRef → Bool) :
    Exec.canCapture held' w' macroAgent candidate =
      Exec.canCapture held w macroAgent candidate := by
  rw [captureReads, List.forall_mem_cons] at hP
  rw [Exec.canCapture, Exec.canCapture, h.dead candidate hP.1]
  cases hdead : w.isDead candidate with
  | true => rfl
  | false =>
    rw [hdead, if_neg Bool.false_ne_true, List.forall_mem_append] at hP
    rw [h.isInHostChain hP.2.1 held held']
    cases hchain : w.isInHostChain held macroAgent candidate with
    | true => rfl
    | false =>
      rw [hchain, if_neg Bool.false_ne_true] at hP
      rw [h.isHostedBy hP.2.2 held held']

/-- Nobody has died whom it could find gone. -/
theorem forget {a : AgentRef} (hP : ∀ x ∈ w.forgetReads a, P x) (held held' : AgentRef → Bool) :
    w'.forget held' a = w' ∧ w.forget held a = w := by
  have hlives : ∀ n a, (∀ x ∈ w.trailReads n a, P x) →
      w'.trailAt n a = w.trailAt n a ∧
        ∀ b ∈ w.trailAt n a, w.isDead b = false ∧ w'.isDead b = false := by
    intro n
    induction n with
    | zero => exact fun _ _ => ⟨rfl, fun _ hb => absurd hb List.not_mem_nil⟩
    | succ n ih =>
      intro a hP
      rw [trailReads, List.forall_mem_append] at hP
      rw [trailAt, trailAt, h.knownHost?]
      cases hknown : w.knownHost? a with
      | none => exact ⟨rfl, fun _ hb => absurd hb List.not_mem_nil⟩
      | some b =>
        have hb := h.alive_of_hostReads hP.1 hknown
        rw [hostReads, hknown, List.forall_mem_cons] at hP
        dsimp only at hP
        rw [hb, if_neg Bool.false_ne_true] at hP
        obtain ⟨htrail, hrest⟩ := ih b hP.2
        exact ⟨congrArg (b :: ·) htrail,
          List.forall_mem_cons.mpr ⟨⟨hb, (h.dead b hP.1.1).trans hb⟩, hrest⟩⟩
  obtain ⟨htrail, hall⟩ := hlives _ a hP
  have hnone (w : World) (as : List AgentRef) (has : ∀ b ∈ as, w.isDead b = false)
      (held : AgentRef → Bool) : (as.find? fun b => w.isDead b && !held b) = none :=
    List.find?_eq_none.mpr fun b hb => by simp [has b hb]
  rw [World.forget, World.forget, h.size, htrail, hnone w' _ fun b hb => (hall b hb).2,
    hnone w _ fun b hb => (hall b hb).1]
  exact ⟨rfl, rfl⟩

/-! ### Populations -/

theorem live {slots : List Slot} (hP : ∀ x ∈ memberReads slots, P x) :
    slots.flatMap (·.live w'.isDead) = slots.flatMap (·.live w.isDead) := by
  refine List.flatMap_congr fun s hs => ?_
  have hsame : ∀ a ∈ s.members, w'.isDead a = w.isDead a := fun a ha =>
    h.dead a (hP _ (List.mem_flatMap.mpr
      ⟨s, hs, List.mem_map_of_mem (Array.mem_toList_iff.mpr ha)⟩))
  rw [Slot.live, Slot.live, Array.toList_filter, Array.toList_filter]
  exact List.filter_congr fun a ha => by rw [hsame a (Array.mem_toList_iff.mp ha)]

theorem members {host : AgentRef} {species : String}
    (hP : ∀ x ∈ w.membersReads host species, P x) :
    w'.members host species = w.members host species := by
  rw [World.members, World.members, h.slots, h.live hP]

theorem reachable {held : AgentRef → Bool} {a : Option AgentRef} {species : String}
    (hP : ∀ x ∈ w.reachableReads held a species, P x) (held' : AgentRef → Bool) :
    w'.reachable held' a species = w.reachable held a species := by
  rw [reachableReads, List.forall_mem_append] at hP
  have hpopulation : a.bind (w'.populationFor? held' · species) =
      a.bind (w.populationFor? held · species) := by
    cases a with
    | none => rfl
    | some a => exact h.populationFor? hP.1 held held'
  rw [World.reachable, World.reachable, hpopulation]
  cases hp : a.bind (w.populationFor? held · species) with
  | none =>
    rw [hp] at hP
    dsimp only
    rw [World.agentsOf, World.agentsOf, h.slots, h.live hP.2]
  | some p =>
    rw [hp] at hP
    exact h.members hP.2

end Resembles
end
end World
end Habitat
