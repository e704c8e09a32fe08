import Habitat.Run.Statement
import Habitat.Proofs.Run.Hosting
import Habitat.Proofs.Run.Turns
import Habitat.Proofs.World.Losses

/-!
# Captures

A capture looks at one candidate after another, while the moves of those before it have already
changed hosts, species and populations. Yet it decides nearly as if nothing had happened: who may be
captured can be told from the state before the first move and the hosts that the macro-agent still
has. Those get fewer only where a dead host is let go of.

* `holds_of_executing`: the agents that execute are held, so they are nowhere lost.
* `Capturing`: how far a capture has got. `Capturing.turn` is one candidate, `Capturing.run` all.
* `Decides`: who is chosen, in terms of the state before; `Decides.chosen_of_first` and
  `Decides.chosen_iff_first` compare this with the hosts before.
* `capture_partitions`: the whole statement, up to the bodies that it runs.
* `capture_takes_lost_host`: the order of the candidates can matter.
-/
namespace Habitat

open Exec World

/-! ## What a scope holds -/

namespace Marks

/-- Whether an agent is in the set. -/
def has (k : Marks) (i : Nat) : Bool := k.agents.getD i false

theorem size_add (k : Marks) (v : Value) : (k.add v).agents.size = k.agents.size := by
  induction v generalizing k with
  | pair a b iha ihb => rw [add, ihb, iha]
  | agent a => exact Array.size_setIfInBounds
  | _ => rfl

theorem has_add {k : Marks} {i : Nat} (h : k.has i = true) (v : Value) :
    (k.add v).has i = true := by
  induction v generalizing k with
  | pair a b iha ihb =>
    rw [add]
    exact ihb (iha h)
  | agent a =>
    simp only [has, add, Array.getD_eq_getD_getElem?] at h ⊢
    rw [Array.getElem?_setIfInBounds]
    split
    · split <;> simp_all
    · exact h
  | _ => exact h

theorem has_addAll {k : Marks} {i : Nat} (h : k.has i = true) (vs : List Value) :
    (k.addAll vs).has i = true := by
  induction vs generalizing k with
  | nil => exact h
  | cons v rest ih => exact ih (has_add h v)

theorem has_addAll_of_mem {k : Marks} {a : AgentRef} (ha : a.id < k.agents.size)
    {vs : List Value} (hmem : .agent a ∈ vs) : (k.addAll vs).has a.id = true := by
  induction vs generalizing k with
  | nil => cases hmem
  | cons v rest ih =>
    rcases List.mem_cons.mp hmem with rfl | hmem
    · refine has_addAll ?_ rest
      simp [has, add, ha]
    · exact ih (k := k.add v) (by rw [size_add]; exact ha) hmem

theorem size_addAll (k : Marks) (vs : List Value) :
    (k.addAll vs).agents.size = k.agents.size := by
  induction vs generalizing k with
  | nil => rfl
  | cons v rest ih => exact (ih _).trans (size_add k v)

end Marks

/-- What is referred to from outside stays, round by round. -/
theorem Machine.has_retained (m : Machine) {outside : Marks} {i : Nat}
    (hout : outside.has i = true) (n : Nat) {k : Marks} (hk : k.has i = true) :
    (m.retained outside n k).has i = true := by
  induction n generalizing k with
  | zero => exact hk
  | succ n ih =>
    have hnext : (m.retain outside k).has i = true := Marks.has_addAll hout _
    rw [retained]
    split
    · exact hnext
    · exact ih hnext

/-- The agents that execute are held. -/
theorem Exec.holds_of_executing {s : State} {a : AgentRef} (ha : a ∈ s.scope.agents)
    (hlt : a.id < s.machine.world.agents.size) : holds s a = true := by
  have hsize : a.id < ((Marks.uniform s.machine false).addAll s.machine.roots).agents.size := by
    rw [Marks.size_addAll]
    simpa [Marks.uniform] using hlt
  have hmem : Value.agent a ∈ s.scope.holdings := by
    rw [Scope.holdings]
    exact List.mem_append_left _ (List.mem_cons_of_mem _ (List.mem_map_of_mem ha))
  have hall : (Marks.uniform s.machine true).has a.id = true := by
    simp [Marks.has, Marks.uniform, hlt]
  rw [holds, Machine.holds, ← Marks.has]
  exact s.machine.has_retained (Marks.has_addAll_of_mem hsize hmem) _ hall

/-! ## Who is captured -/

/-- An agent and its hosts, innermost first. -/
def State.hosts (s : State) (a : AgentRef) : List AgentRef :=
  s.machine.world.hostChain (holds s) a

/-- The state once the nearest lost host above an agent is forgotten. -/
def State.forgetting (s : State) (a : AgentRef) : State :=
  ⟨s.scope, { s.machine with world := s.machine.world.forget (holds s) a }⟩

/-- Whether a macro-agent with some hosts may capture an agent: it is alive, not one of the hosts
and not captured yet, there is a population for it, and nothing keeps it in its place. -/
structure Capturable (s : State) (m : AgentRef) (species : Option String)
    (hosts : List AgentRef) (a : AgentRef) : Prop where
  alive : s.machine.world.isDead a = false
  apart : ∀ h ∈ hosts, h.id ≠ a.id
  elsewhere : isHostedBy (holds s) s.machine.world a m = false
  welcome : (s.machine.world.population? m
    (species.getD (s.machine.world.speciesOf a))).isSome = true
  free : s.machine.policy.stuck.contains a.name = false

/-- An agent was captured: it has a new host and a new species, and all attributes that it had. -/
structure Captured (before s : State) (m : AgentRef) (species : Option String) (a : AgentRef) :
    Prop where
  host : (s.machine.world.agent a).host = some m
  species : s.machine.world.speciesOf a = species.getD (before.machine.world.speciesOf a)
  attributes : ∀ name v, before.machine.world.attribute? a name = some v →
    s.machine.world.attribute? a name = some v

/-- Later, it is still so, if nothing touches the agent. -/
theorem Captured.of_same {before s s' : State} {m a : AgentRef} {species : Option String}
    (h : Captured before s m species a)
    (hsame : ∃ gone, s'.machine.world.agent a = { s.machine.world.agent a with gone := gone }) :
    Captured before s' m species a := by
  obtain ⟨_, hsame⟩ := hsame
  obtain ⟨hhost, hspecies, hattributes⟩ := h
  refine ⟨?_, ?_, fun name v hv => ?_⟩
  · rw [hsame]
    exact hhost
  · rw [speciesOf, hsame]
    exact hspecies
  · rw [attribute?, hsame]
    exact hattributes name v hv

/-- How far a capture has got: some agents were captured, and nothing else has happened but that
dead agents are gone. -/
structure Capturing (before : State) (m : AgentRef) (species : Option String)
    (captured : List AgentRef) (s : State) : Prop where
  scope : s.scope = before.scope
  machine : s.machine =
    { before.machine with world := s.machine.world, store := s.machine.store }
  spares : before.machine.world.Spares s.machine.world (captured.map (·.id))
  acts : m ∈ s.scope.agents
  here : (s.machine.world.agent m).gone = false
  outside : m.id ∉ captured.map (·.id)
  settled : ∀ a ∈ captured, Captured before s m species a

/-- Who is hosted by an agent that executes names it as its host. -/
theorem isHostedBy_executing {s : State} {m a : AgentRef} (hexec : m ∈ s.scope.agents)
    (here : (s.machine.world.agent m).gone = false) :
    isHostedBy (holds s) s.machine.world a m = true ↔
      (s.machine.world.agent a).host.map (·.id) = some m.id := by
  have hheld : holds s m = true := holds_of_executing hexec (lt_size_of_not_gone here)
  simp only [isHostedBy_iff, host?_eq_some, knownHost?_eq_some, Option.map_eq_some_iff]
  constructor
  · rintro ⟨h, ⟨⟨hhost, -⟩, -⟩, hid⟩
    exact ⟨h, hhost, hid⟩
  · rintro ⟨h, hhost, hid⟩
    refine ⟨h, ⟨⟨hhost, ?_⟩, .inr ?_⟩, hid⟩
    · rw [agent, hid]
      exact here
    · rw [byId_holds s h m hid]
      exact hheld

/-- Whether a candidate moves, given where it may go. -/
def moves (a : AgentRef) (o : Option Population) (t : State) : Bool :=
  o.isSome && !t.machine.policy.stuck.contains a.name

theorem settled_of_stays {a : AgentRef} {o : Option Population} {t : State}
    (h : moves a o t = false) : settled a o t = t := by
  cases o with
  | none => rfl
  | some p =>
    have hstuck : t.machine.policy.stuck.contains a.name = true := by simpa [moves] using h
    rw [settled, after_ok (moveAgent_stuck hstuck)]

namespace Capturing

section
variable {before s : State} {m a : AgentRef} {species : Option String} {captured : List AgentRef}

theorem refl (acts : m ∈ before.scope.agents)
    (here : (before.machine.world.agent m).gone = false) :
    Capturing before m species [] before where
  scope := rfl
  machine := rfl
  spares := .refl _
  acts := acts
  here := here
  outside := List.not_mem_nil
  settled := nofun

theorem held (h : Capturing before m species captured s) : holds s m = true :=
  holds_of_executing h.acts (lt_size_of_not_gone h.here)

theorem policy (h : Capturing before m species captured s) :
    s.machine.policy = before.machine.policy := by
  rw [h.machine]

theorem forget (h : Capturing before m species captured s) :
    Capturing before m species captured (s.forgetting m) := by
  have hforget := spares_forget (holds s) s.machine.world m
  refine ⟨h.scope, ?_, ?_, h.acts, ?_, h.outside, ?_⟩
  · rw [State.forgetting, h.machine]
  · exact h.spares.trans hforget
  · exact (gone_forget_of_held (byId_holds s) h.held).trans h.here
  · exact fun a ha => (h.settled a ha).of_same (hforget.same a List.not_mem_nil)

/-- One more agent moves. -/
theorem move (h : Capturing before m species captured s) {p : Population}
    (hp : before.machine.world.population? m
      (species.getD (before.machine.world.speciesOf a)) = some p)
    (ha : a.id ∉ captured.map (·.id)) (halive : before.machine.world.isDead a = false)
    (hne : m.id ≠ a.id) (hfree : ¬s.machine.policy.stuck.contains a.name = true) :
    Capturing before m species (a :: captured) (Habitat.settled a (some p) s) := by
  have hlt : a.id < s.machine.world.agents.size := h.spares.size ▸ lt_size_of_alive halive
  have hmove := spares_move (holds s) s.machine.world s.machine.store a p hlt
  have hagent := agent_move (holds s) s.machine.world s.machine.store a p hlt
  rw [Habitat.settled, after_ok (moveAgent_free hfree)]
  refine ⟨h.scope, ?_, h.spares.trans hmove, h.acts, ?_, ?_, ?_⟩
  · dsimp only
    rw [h.machine]
  · dsimp only
    rw [hagent, if_neg (Ne.symm hne), gone_forget_of_held (byId_holds s) h.held]
    exact h.here
  · rw [List.map_cons, List.mem_cons, not_or]
    exact ⟨hne, h.outside⟩
  · intro b hb
    rcases List.mem_cons.mp hb with rfl | hb
    · obtain ⟨_, hsame⟩ := (h.spares.trans (spares_forget (holds s) s.machine.world b)).same b ha
      refine ⟨?_, ?_, fun name v hv => ?_⟩
      · dsimp only
        rw [hagent, if_pos rfl, (population?_host hp).1]
      · dsimp only
        rw [speciesOf, hagent, if_pos rfl, population?_name hp]
      · dsimp only
        rw [attribute?, hagent, if_pos rfl, hsame]
        exact get?_addMissing hv
    · refine (h.settled b hb).of_same (hmove.same b ?_)
      rw [List.mem_singleton]
      exact fun hid => ha (List.mem_map.mpr ⟨b, hb, hid⟩)

/-- Who has the macro-agent for its host: those who had it before, and the captured ones. -/
theorem hosted_iff (h : Capturing before m species captured s) :
    isHostedBy (holds s) s.machine.world a m = true ↔
      isHostedBy (holds before) before.machine.world a m = true ∨ a.id ∈ captured.map (·.id) := by
  have here : (before.machine.world.agent m).gone = false := by
    cases hgone : (before.machine.world.agent m).gone with
    | false => rfl
    | true => exact (h.spares.gone m hgone).symm.trans h.here
  rw [isHostedBy_executing h.acts h.here, isHostedBy_executing (h.scope ▸ h.acts) here]
  by_cases ha : a.id ∈ captured.map (·.id)
  · obtain ⟨b, hb, hid⟩ := List.mem_map.mp ha
    have hhost : (s.machine.world.agent a).host = some m := by
      rw [agent, ← hid]
      exact (h.settled b hb).host
    simp [hhost, ha]
  · simp [h.spares.host ha, ha]

/-- Who may be captured can be told from the state before the first move, the hosts of the
macro-agent apart. -/
theorem canCapture_iff (h : Capturing before m species captured s) :
    canCapture (holds s) (s.machine.world.forget (holds s) m) m a = true ↔
      before.machine.world.isDead a = false ∧ (∀ x ∈ s.hosts m, x.id ≠ a.id) ∧
        isHostedBy (holds before) before.machine.world a m = false ∧
        a.id ∉ captured.map (·.id) := by
  have hhosted : isHostedBy (holds s) (s.machine.world.forget (holds s) m) a m =
      isHostedBy (holds s) s.machine.world a m := by
    rw [isHostedBy, isHostedBy, host?_forget (byId_holds s)]
  simp only [canCapture, isDead_forget, isInHostChain_forget (byId_holds s), hhosted,
    h.spares.dead, Bool.and_eq_true, Bool.not_eq_true', and_assoc]
  refine and_congr_right fun _ => and_congr ?_ ?_
  · simp [isInHostChain, State.hosts]
  · rw [← Bool.not_eq_true, h.hosted_iff, not_or, Bool.not_eq_true]

end

section
variable {before s : State} {m : AgentRef} {species : Option String} {captured : List AgentRef}
  {fixed : Option Population} (hfixed : fixed = species.bind (before.machine.world.population? m))
  (hsome : species.isSome = true → fixed.isSome = true)
include hfixed hsome

/-- A candidate goes to the population that was there for it before the first move. -/
theorem destination (h : Capturing before m species captured s) (a : AgentRef) :
    ∃ o, captureInto m fixed a s = .ok o (s.forgetting m) ∧
      ∀ p, o = some p ↔
        canCapture (holds s) (s.machine.world.forget (holds s) m) m a = true ∧
        before.machine.world.population? m
          (species.getD (before.machine.world.speciesOf a)) = some p := by
  refine ⟨_, captureInto_eq m fixed a s, fun p => ?_⟩
  split
  case isFalse hcan => simp [hcan]
  case isTrue hcan =>
    have hnew := (h.canCapture_iff.mp hcan).2.2.2
    have hspares := h.spares.trans (spares_forget (holds s) s.machine.world m)
    rw [hcan, eq_self, true_and]
    cases species with
    | none => rw [hfixed, hspares.population? h.outside, hspares.speciesOf hnew]; rfl
    | some name =>
      obtain ⟨q, hq⟩ := Option.isSome_iff_exists.mp (hsome rfl)
      rw [hq, Option.some_or, ← hq, hfixed]
      rfl

/-- A candidate moves if it may be captured, and was not before. -/
theorem moves_iff (h : Capturing before m species captured s) {a : AgentRef}
    {o : Option Population} {t : State} (hdest : captureInto m fixed a s = .ok o t) :
    moves a o t = true ↔
      Capturable before m species (s.hosts m) a ∧ a.id ∉ captured.map (·.id) := by
  obtain ⟨_, heq, hgoes⟩ := h.destination hfixed hsome a
  cases hdest.symm.trans heq
  have hpolicy : (s.forgetting m).machine.policy = before.machine.policy := h.policy
  simp only [moves, hpolicy, Bool.and_eq_true, Option.isSome_iff_exists, Bool.not_eq_true', hgoes,
    h.canCapture_iff]
  constructor
  · rintro ⟨⟨p, ⟨halive, hapart, helsewhere, hnew⟩, hp⟩, hfree⟩
    exact ⟨⟨halive, hapart, helsewhere, Option.isSome_iff_exists.mpr ⟨p, hp⟩, hfree⟩, hnew⟩
  · rintro ⟨⟨halive, hapart, helsewhere, hwelcome, hfree⟩, hnew⟩
    obtain ⟨p, hp⟩ := Option.isSome_iff_exists.mp hwelcome
    exact ⟨⟨p, ⟨halive, hapart, helsewhere, hnew⟩, hp⟩, hfree⟩

/-- The turn of one candidate. The macro-agent may lose hosts in it. -/
theorem turn (h : Capturing before m species captured s) (a : AgentRef) :
    ∃ o t, captureInto m fixed a s = .ok o t ∧
      Capturing before m species (if moves a o t then a :: captured else captured)
        (Habitat.settled a o t) ∧
      Shortens before.machine.world.isDead (s.hosts m) ((Habitat.settled a o t).hosts m) := by
  obtain ⟨o, hdest, hgoes⟩ := h.destination hfixed hsome a
  have hspares := spares_forget (holds s) s.machine.world m
  have hdead : s.machine.world.isDead = before.machine.world.isDead := funext h.spares.dead
  refine ⟨o, s.forgetting m, hdest, ?_⟩
  cases hmoves : moves a o (s.forgetting m) with
  | false =>
    rw [settled_of_stays hmoves, ← hdead]
    refine ⟨h.forget, ?_⟩
    exact hspares.shortens_hostChain (fun _ _ => List.not_mem_nil) (fun _ hy => hy) _
  | true =>
    obtain ⟨hsomewhere, hfree⟩ := Bool.and_eq_true_iff.mp hmoves
    obtain ⟨p, rfl⟩ := Option.isSome_iff_exists.mp hsomewhere
    rw [Bool.not_eq_true', Bool.eq_false_iff] at hfree
    obtain ⟨hcan, hp⟩ := (hgoes p).mp rfl
    obtain ⟨halive, hapart, -, hnew⟩ := h.canCapture_iff.mp hcan
    have hne : m.id ≠ a.id := by
      refine hapart m ?_
      rw [State.hosts, hostChain_eq]
      exact List.mem_cons_self
    refine ⟨h.forget.move hp hnew halive hne hfree, ?_⟩
    have hmove := spares_move (holds (s.forgetting m)) (s.forgetting m).machine.world
      s.machine.store a p (lt_size_of_alive ((h.forget.spares.dead a).trans halive))
    rw [State.hosts, State.hosts, ← hdead, world_settled, if_neg hfree]
    refine (hspares.trans hmove).shortens_hostChain (fun x hx => ?_) hmove.gone _
    rw [List.append_nil, List.mem_singleton]
    exact hapart x hx

end
end Capturing

/-! ## All candidates -/

/-- The agents at the chosen places of a list, in order. -/
def picked (chosen : Nat → Bool) : List AgentRef → List AgentRef
  | [] => []
  | a :: rest =>
    let others := picked (fun i => chosen (i + 1)) rest
    if chosen 0 then a :: others else others

/-- A sequence with one more element in front. -/
def prepend {α : Type} (x : α) (f : Nat → α) : Nat → α
  | 0 => x
  | i + 1 => f i

theorem picked_prepend (x : Bool) (f : Nat → Bool) (a : AgentRef) (rest : List AgentRef) :
    picked (prepend x f) (a :: rest) = if x then a :: picked f rest else picked f rest := rfl

theorem picked_not_prepend (x : Bool) (f : Nat → Bool) (a : AgentRef) (rest : List AgentRef) :
    picked (fun i => !prepend x f i) (a :: rest) =
      if x then picked (fun i => !f i) rest else a :: picked (fun i => !f i) rest := by
  cases x <;> rfl

/-- Which candidates are chosen, each when its turn comes: those that may be captured, given the
hosts that the macro-agent has then, and are not captured yet. Its hosts get fewer from turn to
turn. -/
structure Decides (before : State) (m : AgentRef) (species : Option String)
    (captured candidates : List AgentRef) (hosts : Nat → List AgentRef) (chosen : Nat → Bool) :
    Prop where
  shortens : ∀ i, Shortens before.machine.world.isDead (hosts i) (hosts (i + 1))
  chosen_iff : ∀ i a, candidates[i]? = some a →
    (chosen i = true ↔ Capturable before m species (hosts i) a ∧
      a.id ∉ captured.map (·.id) ∧
      ∀ j < i, chosen j = true → ∀ b, candidates[j]? = some b → b.id ≠ a.id)

/-- The candidates move in their order, and each goes to one side. -/
theorem moveAll_cons {dest : AgentRef → Exec (Option Population)} {a : AgentRef}
    {rest yes no : List AgentRef} {s t u : State} {o : Option Population}
    (h : dest a s = .ok o t) (hrest : moveAll dest rest (settled a o t) = .ok (yes, no) u) :
    moveAll dest (a :: rest) s =
      .ok (if moves a o t then (a :: yes, no) else (yes, a :: no)) u := by
  rw [moveAll, bind_ok h]
  cases o with
  | none => exact bind_ok hrest
  | some p =>
    by_cases hstuck : t.machine.policy.stuck.contains a.name = true
    · have hmove := moveAgent_stuck (p := p) hstuck
      rw [settled, after_ok hmove] at hrest
      rw [moves, hstuck]
      exact (bind_ok hmove).trans (bind_ok hrest)
    · have hmove := moveAgent_free (p := p) hstuck
      rw [settled, after_ok hmove] at hrest
      rw [moves, Bool.eq_false_iff.mpr hstuck]
      exact (bind_ok hmove).trans (bind_ok hrest)

section
variable {before s : State} {m : AgentRef} {species : Option String}
  {captured : List AgentRef} {fixed : Option Population}

/-- From any point of a capture on, all further candidates have their turns. -/
theorem Capturing.run (h : Capturing before m species captured s)
    (hfixed : fixed = species.bind (before.machine.world.population? m))
    (hsome : species.isSome = true → fixed.isSome = true) (candidates : List AgentRef) :
    ∃ hosts chosen u,
      moveAll (captureInto m fixed) candidates s =
        .ok (picked chosen candidates, picked (fun i => !chosen i) candidates) u ∧
      hosts 0 = s.hosts m ∧ hosts candidates.length = u.hosts m ∧
      Decides before m species captured candidates hosts chosen ∧
      Capturing before m species ((picked chosen candidates).reverse ++ captured) u := by
  induction candidates generalizing captured s with
  | nil =>
    refine ⟨fun _ => s.hosts m, fun _ => false, s, rfl, rfl, rfl, ⟨fun _ => .inl rfl, nofun⟩, h⟩
  | cons a rest ih =>
    obtain ⟨o, t, hdest, hnext, hshortens⟩ := h.turn hfixed hsome a
    obtain ⟨hosts, chosen, u, hrest, hfirst, hlast, hdecides, hu⟩ := ih hnext
    refine ⟨prepend (s.hosts m) hosts, prepend (moves a o t) chosen, u, ?_, rfl, hlast,
      ⟨?_, ?_⟩, ?_⟩
    · rw [moveAll_cons hdest hrest, picked_prepend, picked_not_prepend]
      cases moves a o t <;> rfl
    · intro i
      cases i with
      | zero =>
        rw [prepend, prepend, hfirst]
        exact hshortens
      | succ i => exact hdecides.shortens i
    · intro i b hb
      cases i with
      | zero =>
        cases hb
        rw [prepend, h.moves_iff hfixed hsome hdest]
        simp [prepend]
      | succ i =>
        rw [prepend, hdecides.chosen_iff i b hb, Nat.forall_lt_succ_left]
        refine and_congr_right fun _ => ?_
        cases hm : moves a o t with
        | false => simp [prepend]
        | true =>
          simp only [if_true, List.map_cons, List.mem_cons, not_or]
          constructor
          · rintro ⟨⟨hne, hnew⟩, hlater⟩
            refine ⟨hnew, fun _ c hc => ?_, hlater⟩
            cases hc
            exact Ne.symm hne
          · rintro ⟨hnew, hne, hlater⟩
            exact ⟨⟨Ne.symm (hne rfl a rfl), hnew⟩, hlater⟩
    · rw [picked_prepend]
      cases hm : moves a o t with
      | false => simpa [hm] using hu
      | true => simpa [hm] using hu

end

theorem Capturable.mono {s : State} {m a : AgentRef} {species : Option String}
    {hosts hosts' : List AgentRef} (h : Capturable s m species hosts a) (hsub : hosts' ⊆ hosts) :
    Capturable s m species hosts' a :=
  { h with apart := fun x hx => h.apart x (hsub hx) }

namespace Decides

variable {before : State} {m : AgentRef} {species : Option String} {candidates : List AgentRef}
  {hosts : Nat → List AgentRef} {chosen : Nat → Bool}

/-- Who may be captured before the first move is captured, at the latest when its turn comes. -/
theorem chosen_of_first (h : Decides before m species [] candidates hosts chosen) {i : Nat}
    {a : AgentRef} (ha : candidates[i]? = some a) (hcap : Capturable before m species (hosts 0) a)
    (hfirst : ∀ j < i, ∀ b, candidates[j]? = some b → b.id ≠ a.id) : chosen i = true := by
  rw [h.chosen_iff i a ha]
  refine ⟨hcap.mono (Shortens.along h.shortens (Nat.zero_le i)).subset, List.not_mem_nil, ?_⟩
  exact fun j hj _ => hfirst j hj

/-- Where the hosts of the macro-agent stay the same, nobody else is captured. -/
theorem chosen_iff_first (h : Decides before m species [] candidates hosts chosen)
    (hsame : hosts candidates.length = hosts 0) {i : Nat} {a : AgentRef}
    (ha : candidates[i]? = some a) :
    chosen i = true ↔ Capturable before m species (hosts 0) a ∧
      ∀ j < i, ∀ b, candidates[j]? = some b → Capturable before m species (hosts 0) b →
        b.id ≠ a.id := by
  have hhosts {j : Nat} {b : AgentRef} (hb : candidates[j]? = some b) : hosts j = hosts 0 := by
    have hj : j ≤ candidates.length := Nat.le_of_lt (List.getElem?_eq_some_iff.mp hb).1
    have hlater := Shortens.along h.shortens hj
    exact (Shortens.along h.shortens (Nat.zero_le j)).antisymm (hsame ▸ hlater)
  rw [h.chosen_iff i a ha, hhosts ha]
  simp only [List.map_nil, List.not_mem_nil, not_false_eq_true, true_and]
  refine and_congr_right fun _ => ⟨?_, fun hnew j hj hchosen b hb => ?_⟩
  · intro hnew j hj b hb hcap hid
    -- If this one was passed over, the same agent was captured even earlier.
    by_cases hchosen : chosen j = true
    · exact hnew j hj hchosen b hb hid
    · rw [h.chosen_iff j b hb, hhosts hb] at hchosen
      refine hchosen ⟨hcap, List.not_mem_nil, fun k hk hchosen c hc hid' => ?_⟩
      exact hnew k (Nat.lt_trans hk hj) hchosen c hc (hid'.trans hid)
  · refine hnew j hj b hb ?_
    rw [← hhosts hb]
    exact ((h.chosen_iff j b hb).mp hchosen).1

end Decides
/-! ## The statement -/

/-- What is told about agents that are not captured. -/
def captureReason : Option String → String
  | some name => "as " ++ name ++ " agents"
  | none => "as micro-agents: no appropriate micro-population can welcome them"

/-- The state after one error has been reported that names all agents that are not captured, in
order; without such agents there is none. -/
def State.rejecting (s : State) (m : AgentRef) (species : Option String)
    (rejected : List AgentRef) : State :=
  if rejected.isEmpty then s else
  let names := ", ".intercalate (rejected.map (·.name))
  let message := m.name ++ " can't capture " ++ names ++ " " ++ captureReason species
  { s with machine := s.machine.emit (.report ⟨.error, message, some m.name⟩) }

/-- What follows the moves and the report: the bodies, and the captured agents as the value. -/
def Exec.afterCapture (run : Sequence → Exec Value) (returns : Option String) (body : Sequence)
    (captured : List AgentRef) : Exec Value := do
  let _ ← fanOut run "capture" body captured .nil true
  let result ← agentList captured
  store returns result
  return result

theorem Exec.bracket_congr {α : Type} {enter enter' leave : State → State} {x y : Exec α}
    {s t : State} (h : x (enter s) = y (enter' t)) :
    bracket enter leave x s = bracket enter' leave y t := by
  simp only [bracket, h]

section
variable {s t : State} {m : AgentRef} {v : Value} {fixed : Option Population}

theorem planCapture_eq {target : Expr} {species : Option String}
    (hm : s.scope.agent = some m) (hv : eval target s = .ok v t)
    (hfixed : fixed = species.bind (s.machine.world.population? m))
    (hsome : species.isSome = true → fixed.isSome = true) :
    planCapture target species s =
      .ok ⟨"capture", captureReason species, none, captureInto m fixed, t.machine.store.agents v⟩
        t := by
  unfold planCapture
  rw [bind_ok (currentAgent_of_agent hm "capture"), bind_ok hv, machine_bind_apply]
  cases species with
  | none => rw [hfixed]; rfl
  | some name =>
    obtain ⟨p, hp⟩ := Option.isSome_iff_exists.mp (hsome rfl)
    have hrequire : requirePopulation m name t = .ok p t := by
      have hpop : t.machine.world.population? m name = some p := by
        rw [(eval_keeps hv).2]
        exact hfixed.symm.trans hp
      unfold requirePopulation
      rw [machine_bind_apply, hpop]
      rfl
    rw [hp]
    exact bind_ok hrequire

theorem refusing_capture (s : State) (m : AgentRef) (species : Option String)
    (rejected : List AgentRef) :
    s.refusing m "capture" (captureReason species) rejected = s.rejecting m species rejected := by
  have htext (name : String) :
      name ++ " can't " ++ "capture" ++ " " = name ++ " can't capture " := by
    rw [String.append_assoc, String.append_assoc]
    rfl
  unfold State.refusing State.rejecting
  rw [htext]

theorem reportRejected_eq (hm : s.scope.agent = some m) (species : Option String)
    (rejected : List AgentRef) :
    reportRejected "capture" rejected (captureReason species) s =
      .ok () (s.rejecting m species rejected) := by
  rw [reportRejected_eq_refusing hm, refusing_capture]

/-- Captures keep hosts a tree, from candidate to candidate. -/
theorem rooted_captureInto {before : State} {m : AgentRef} {fixed : Option Population}
    (hr : before.machine.world.Rooted) (hfixed : ∀ p, fixed = some p → p.host = m)
    (hoffers : ∀ p, fixed = some p → before.machine.world.Offers p) (pre : List AgentRef) :
    (after (moveAll (captureInto m fixed) pre) before).machine.world.Rooted := by
  let r : Relocation := ⟨"capture", "", none, captureInto m fixed, pre⟩
  have hguides : Guides r.destination r.candidates fun u =>
      before.machine.world.Within u.machine.world :=
    Named.guides (r := r) (named_captureInto hfixed) (fits_captureInto rfl hoffers)
  have hkeeps : misplaces r.destination r.candidates before = false :=
    hguides.harmless (fun _ _ _ _ _ _ hu => misplaced_captureInto hfixed hu) (.refl _) hr
  exact hguides.rooted (.refl _) hr hkeeps (List.prefix_refl _)

/-- What the moves of a capture come to, if the candidates at some places are chosen. -/
structure Partitions (before moved : State) (m : AgentRef) (species : Option String)
    (candidates : List AgentRef) (hosts : Nat → List AgentRef) (chosen : Nat → Bool) : Prop where
  /-- Whoever has moved already, hosts form a tree. So the walks along hosts end that are taken for
  the next candidate. -/
  rooted : ∀ pre, pre <+: candidates →
    (after (moveAll (captureInto m (species.bind (before.machine.world.population? m))) pre)
      before).machine.world.Rooted
  /-- Each candidate is judged by the hosts that the macro-agent has when its turn comes. -/
  decides : Decides before m species [] candidates hosts chosen
  hosts_before : hosts 0 = before.hosts m
  hosts_after : hosts candidates.length = moved.hosts m
  /-- Whoever may be captured before the first move is, the first time that it is listed. -/
  chosen_first : ∀ i a, candidates[i]? = some a → Capturable before m species (before.hosts m) a →
    (∀ j < i, ∀ b, candidates[j]? = some b → b.id ≠ a.id) → chosen i = true
  /-- Nobody else is captured, as long as the macro-agent keeps its hosts. -/
  chosen_only : moved.hosts m = before.hosts m → ∀ i a, candidates[i]? = some a →
    (chosen i = true ↔ Capturable before m species (before.hosts m) a ∧
      ∀ j < i, ∀ b, candidates[j]? = some b → Capturable before m species (before.hosts m) b →
        b.id ≠ a.id)
  captured : ∀ a ∈ picked chosen candidates, Captured before moved m species a ∧
    isHostedBy (holds moved) moved.machine.world a m = true
  /-- All others are what they were, but for hosts that have died. -/
  others : ∀ b : AgentRef, b.id ∉ (picked chosen candidates).map (·.id) →
    moved.machine.world.speciesOf b = before.machine.world.speciesOf b ∧
    (moved.machine.world.agent b).attributes = (before.machine.world.agent b).attributes ∧
    (moved.machine.world.host? (holds moved) b = before.machine.world.host? (holds before) b ∨
      ∃ h, (before.machine.world.agent b).host = some h ∧ before.machine.world.isDead h = true)

/-- The moves of a capture, from a state in which the macro-agent executes. -/
theorem exists_partitions {species : Option String} (before : State)
    (acts : m ∈ before.scope.agents) (here : (before.machine.world.agent m).gone = false)
    (hr : before.machine.world.Rooted)
    (hfixed : fixed = species.bind (before.machine.world.population? m))
    (hsome : species.isSome = true → fixed.isSome = true) (candidates : List AgentRef) :
    ∃ hosts chosen moved,
      moveAll (captureInto m fixed) candidates before =
        .ok (picked chosen candidates, picked (fun i => !chosen i) candidates) moved ∧
      Partitions before moved m species candidates hosts chosen ∧
      moved.scope = before.scope ∧ moved.machine.events = before.machine.events := by
  obtain ⟨hosts, chosen, moved, hmoves, hfirst, hlast, hdecides, hcapturing⟩ :=
    (Capturing.refl acts here).run hfixed hsome candidates
  rw [List.append_nil] at hcapturing
  have hpicked (b : AgentRef) : b.id ∈ (picked chosen candidates).reverse.map (·.id) ↔
      b.id ∈ (picked chosen candidates).map (·.id) := by
    rw [List.map_reverse, List.mem_reverse]
  refine ⟨hosts, chosen, moved, hmoves, ?_, hcapturing.scope, by rw [hcapturing.machine]⟩
  have hpopulation (p : Population) (hp : fixed = some p) :
      ∃ name, before.machine.world.population? m name = some p := by
    rw [hfixed] at hp
    obtain ⟨name, -, hp⟩ := Option.bind_eq_some_iff.mp hp
    exact ⟨name, hp⟩
  refine ⟨?_, hdecides, hfirst, hlast, ?_, ?_, ?_, ?_⟩
  · intro pre _
    rw [← hfixed]
    refine rooted_captureInto hr (fun p hp => ?_) (fun p hp => ?_) pre
    · obtain ⟨name, hp⟩ := hpopulation p hp
      exact (population?_host hp).1
    · obtain ⟨name, hp⟩ := hpopulation p hp
      exact population?_offers hp
  · intro i a ha hcap
    exact hdecides.chosen_of_first ha (hfirst ▸ hcap)
  · intro hsame i a ha
    rw [← hfirst]
    exact hdecides.chosen_iff_first (hlast.trans (hsame.trans hfirst.symm)) ha
  · intro a ha
    have hcaptured := hcapturing.settled a (List.mem_reverse.mpr ha)
    refine ⟨hcaptured, ?_⟩
    rw [isHostedBy_executing hcapturing.acts hcapturing.here, hcaptured.host]
    rfl
  · intro b hb
    rw [← hpicked] at hb
    obtain ⟨_, hsame⟩ := hcapturing.spares.same b hb
    refine ⟨hcapturing.spares.speciesOf hb, by rw [hsame], ?_⟩
    exact hcapturing.spares.host?_eq hb _ _

/-- Where hosts form a tree, a capture takes the candidates one after another, and hosts stay a
tree. Those that may be captured before the first move are captured, the first time that they are
listed; nobody else is, as long as the macro-agent keeps its hosts. It may lose those above a dead
one, and who is not its host any more may be captured from then on. One error names the candidates
that are not captured, before any body runs. -/
theorem capture_partitions (target : Expr) (species : Option String)
    (hm : s.scope.agent = some m) (here : (s.machine.world.agent m).gone = false)
    (hr : s.machine.world.Rooted) (hv : eval target s = .ok v t)
    (hpop : ∀ name, species = some name → (s.machine.world.population? m name).isSome = true) :
    let candidates := t.machine.store.agents v
    let before := t.holding (candidates.map .agent)
    before.machine.world = s.machine.world ∧
    ∃ hosts chosen moved,
      Partitions before moved m species candidates hosts chosen ∧
      moved.machine.events = s.machine.events ∧
      ∀ handlers fuel run returns body,
        statementWith handlers fuel run (.capture target species returns body) s =
          bracket id State.release (afterCapture run returns body (picked chosen candidates))
            (moved.rejecting m species (picked (fun i => !chosen i) candidates)) := by
  intro candidates before
  obtain ⟨hscope, hmachine⟩ := eval_keeps hv
  have hworld : t.machine.world = s.machine.world := by rw [hmachine]
  have hsome : species.isSome = true →
      (species.bind (s.machine.world.population? m)).isSome = true := by
    intro hs
    obtain ⟨name, rfl⟩ := Option.isSome_iff_exists.mp hs
    exact hpop name rfl
  have acts : m ∈ before.scope.agents := by
    rw [show before.scope = s.scope from hscope]
    exact List.mem_of_mem_head? hm
  obtain ⟨hosts, chosen, moved, hmoves, hpartitions, hmoved, hevents⟩ :=
    exists_partitions before acts (hworld.symm ▸ here) (hworld.symm ▸ hr)
      (congrArg (fun w => species.bind (World.population? w m)) hworld.symm) hsome candidates
  refine ⟨hworld, hosts, chosen, moved, hpartitions, ?_, ?_⟩
  · rw [hevents]
    exact (congrArg Machine.events hmachine).trans rfl
  intro handlers fuel run returns body
  have hexecutes : moved.scope.agent = some m := by
    rw [hmoved]
    exact hscope ▸ hm
  have hreport := reportRejected_eq hexecutes species (picked (fun i => !chosen i) candidates)
  refine (bind_ok (planCapture_eq hm hv rfl hsome)).trans ?_
  unfold relocate withHeld
  exact bracket_congr ((bind_ok hmoves).trans (bind_ok hreport))

end

/-- A fold in a pen of a herd. The pen has died, and only a dead sheep of the fold still refers to
it. The fold knows a live sheep and the herd. -/
def lostPen : State :=
  let species (name : String) (micro : List String) : Species := ⟨name, none, micro, false, [], []⟩
  let herd := species "herd" ["pen"]
  let pen := species "pen" ["fold"]
  let fold := species "fold" ["sheep"]
  let sheep := species "sheep" []
  let w := (start (species "world" ["herd", "sheep"])).register herd
  let w := ((w.register pen).register fold).register sheep
  let w := (w.populate .empty ⟨⟨0, "world"⟩, herd⟩ [.empty]).2.1
  let w := (w.populate .empty ⟨⟨1, "herd0"⟩, pen⟩ [.empty]).2.1
  let w := (w.populate .empty ⟨⟨2, "pen0"⟩, fold⟩ [.empty]).2.1
  let w := (w.populate .empty ⟨⟨3, "fold0"⟩, sheep⟩ [.empty]).2.1
  let w := (w.populate .empty ⟨⟨0, "world"⟩, sheep⟩ [.empty]).2.1
  let w := w.setAttribute ⟨4, "sheep0"⟩ "friend" (.agent ⟨2, "pen0"⟩)
  let w := (w.kill ⟨2, "pen0"⟩).kill ⟨4, "sheep0"⟩
  -- The slot of the pen is full, so it forgets the dead one.
  let w := (w.populate .empty ⟨⟨1, "herd0"⟩, pen⟩ [.empty]).2.1
  let known := [("ewe", .agent ⟨5, "sheep1"⟩), ("herd", .agent ⟨1, "herd0"⟩)]
  ⟨(Scope.start ⟨3, "fold0"⟩ "main").declareAll known, .start .standard w .empty⟩

theorem rooted_lostPen : lostPen.machine.world.Rooted := by
  simp only [lostPen, Machine.start]
  refine Rooted.populate ((fades_kill _ _).rooted ((fades_kill _ _).rooted
    ((fades_setAttribute _ _ _ _).rooted ?_))) (by decide) _ _
  refine Rooted.populate (Rooted.populate (Rooted.populate (Rooted.populate (Rooted.populate
    ?_ ?_ _ _) ?_ _ _) ?_ _ _) ?_ _ _) ?_ _ _
  · refine (fades_register _ _).rooted ((fades_register _ _).rooted
      ((fades_register _ _).rooted ((fades_register _ _).rooted ?_)))
    exact ⟨lineal_start _, tree_start _⟩
  all_goals decide

/-- The fold captures the sheep and the herd; the sheep comes first, and it may be captured. -/
theorem capture_partitions_lostPen :
    ∃ v t, eval (.list [.var "ewe" .any, .var "herd" .any] .any) lostPen = .ok v t ∧
      ∃ hosts chosen moved,
        Partitions (t.holding ((t.machine.store.agents v).map .agent)) moved ⟨3, "fold0"⟩
          (some "sheep") (t.machine.store.agents v) hosts chosen ∧ chosen 0 = true := by
  refine ⟨_, _, rfl, ?_⟩
  obtain ⟨-, hosts, chosen, moved, hpartitions, -⟩ :=
    capture_partitions (m := ⟨3, "fold0"⟩) (s := lostPen)
      (.list [.var "ewe" .any, .var "herd" .any] .any) (some "sheep") rfl (by decide +kernel)
      rooted_lostPen rfl (fun name hname => by cases hname; decide +kernel)
  refine ⟨hosts, chosen, moved, hpartitions, ?_⟩
  refine hpartitions.chosen_first 0 ⟨5, "sheep1"⟩ rfl ⟨?_, ?_, ?_, ?_, ?_⟩ nofun
  all_goals decide +kernel

/-- The herd is a host of the fold. Once the sheep has been captured, it is so no longer: the dead
sheep left the full slot, and nothing holds the pen any more. So the herd is captured if it is
listed after the sheep, and not if it is listed before. -/
theorem capture_takes_lost_host :
    let fold : AgentRef := ⟨3, "fold0"⟩
    let herd : AgentRef := ⟨1, "herd0"⟩
    let ended (names : List String) : State := after (statement 1 (sequence 1)
      (.capture (.list (names.map (.var · .any)) .any) (some "sheep") none [])) lostPen
    let ofFold (s : State) : Bool := isHostedBy (holds s) s.machine.world herd fold
    lostPen.machine.world.Tree ∧
    lostPen.machine.world.isInHostChain (holds lostPen) fold herd = true ∧
    (ofFold (ended ["ewe", "herd"]) = true ∧ (ended ["ewe", "herd"]).machine.reports.length = 0) ∧
    ofFold (ended ["herd", "ewe"]) = false ∧ (ended ["herd", "ewe"]).machine.reports.length = 1 := by
  intro fold herd ended ofFold
  exact ⟨rooted_lostPen.tree, by decide +kernel, by decide +kernel, by decide +kernel⟩

end Habitat
