import Habitat.Proofs.Run.Discipline
import Habitat.Proofs.World.Change
import Habitat.Run.Dispatch

/-!
# What relocations work out

The results of the steps that create and move agents, as equations: where a population was found,
which candidates a plan lists, and what one destination and one move do to the state.

* `planCapture_eq_ok`, `planRelease_eq_ok`, `planMigrate_eq_ok`: the plans.
* `captureInto_eq`, `releaseTo_some_eq`, `releaseTo_none_eq`, `moveAgent_stuck`,
  `moveAgent_free`: one candidate.
* `Relocation.Fits`: whoever a plan moves, and where to, is in the world.
* `reportRejected_eq_refusing`: what is told about those that did not move.
-/
namespace Habitat.Exec

/-- New agents get the nearest host that can have them. -/
theorem birthplace_eq_ok {executor : AgentRef} {species : String} {p : Population} {s t : State}
    (h : birthplace executor species s = .ok p t) :
    s.machine.world.populationFor? (holds s) executor species = some p ∧ t = s := by
  unfold birthplace at h
  rw [get_bind_apply] at h
  dsimp only at h
  split at h
  · obtain ⟨_, _, hfail, -⟩ := bind_eq_ok h
    cases hfail
  · cases hp : s.machine.world.populationFor? (holds s) executor species with
    | none => rw [hp] at h; cases h
    | some q =>
      rw [hp] at h
      dsimp only at h
      split at h
      · cases h
      · cases h
        exact ⟨rfl, rfl⟩

theorem currentAgent_eq_ok {statement : String} {a : AgentRef} {s t : State}
    (h : currentAgent statement s = .ok a t) : s.scope.agent = some a ∧ t = s := by
  unfold currentAgent at h
  rw [scope_bind_apply] at h
  cases ha : s.scope.agent with
  | none => rw [ha] at h; cases h
  | some b =>
    rw [ha] at h
    cases h
    exact ⟨rfl, rfl⟩

theorem requirePopulation_eq_ok {host : AgentRef} {species : String} {p : Population}
    {s t : State} (h : requirePopulation host species s = .ok p t) :
    s.machine.world.population? host species = some p ∧ t = s := by
  unfold requirePopulation at h
  rw [machine_bind_apply] at h
  cases hp : s.machine.world.population? host species with
  | none => rw [hp] at h; cases h
  | some q =>
    rw [hp] at h
    cases h
    exact ⟨rfl, rfl⟩

theorem byId_holds (s : State) : World.ById (holds s) := by
  intro a b h
  simp only [holds, Machine.holds, h]

/-! ## One candidate -/

/-- A candidate is captured if it can be, once the hosts that nothing holds are forgotten. -/
theorem captureInto_eq (m : AgentRef) (fixed : Option Population) (a : AgentRef) (s : State) :
    captureInto m fixed a s =
      let w := s.machine.world.forget (holds s) m
      .ok (if canCapture (holds s) w m a then fixed.or (w.population? m (w.speciesOf a)) else none)
        ⟨s.scope, { s.machine with world := w }⟩ := by
  cases fixed <;> rfl

theorem releaseTo_some_eq (x h : AgentRef) (species : Option String) (a : AgentRef) (s : State) :
    releaseTo x (some h) species a s =
      let w := s.machine.world.forget (holds s) h
      .ok (if h.id == x.id then none else
        w.population? h (species.getD (s.machine.world.speciesOf a)))
        ⟨s.scope, { s.machine with world := w }⟩ := rfl

theorem releaseTo_none_eq (x : AgentRef) (species : Option String) (a : AgentRef) (s : State) :
    releaseTo x none species a s =
      .ok ((s.machine.world.host? (holds s) x).bind fun h =>
        s.machine.world.populationFor? (holds s) h
          (species.getD (s.machine.world.speciesOf a))) s := rfl

theorem moveAgent_stuck {a : AgentRef} {p : Population} {s : State}
    (h : s.machine.policy.stuck.contains a.name = true) :
    moveAgent a p s = .ok (.error (.raised (a.name ++ " is stuck"))) s := by
  unfold moveAgent
  rw [get_bind_apply]
  dsimp only
  rw [if_pos h]
  rfl

theorem moveAgent_free {a : AgentRef} {p : Population} {s : State}
    (h : ¬s.machine.policy.stuck.contains a.name = true) :
    moveAgent a p s =
      let r := s.machine.world.move (holds s) s.machine.store a p
      .ok (.ok ()) ⟨s.scope, { s.machine with world := r.1, store := r.2 }⟩ := by
  unfold moveAgent
  rw [get_bind_apply]
  dsimp only
  rw [if_neg h]
  rfl

/-! ## Plans -/

theorem planCapture_eq_ok {target : Expr} {species : Option String} {r : Relocation}
    {s t : State} (h : planCapture target species s = .ok r t) :
    ∃ m fixed, s.scope.agent = some m ∧ r.verb = "capture" ∧ r.into = none ∧
      r.destination = captureInto m fixed ∧
      ∀ p, fixed = some p → p.host = m ∧ t.machine.world.Offers p := by
  unfold planCapture at h
  obtain ⟨m, s₁, hm, h₁⟩ := bind_eq_ok h
  obtain ⟨v, s₂, -, h₂⟩ := bind_eq_ok h₁
  obtain ⟨hm, rfl⟩ := currentAgent_eq_ok hm
  rw [machine_bind_apply] at h₂
  cases species with
  | none =>
    cases h₂
    exact ⟨m, none, hm, rfl, rfl, rfl, nofun⟩
  | some name =>
    obtain ⟨p, s₃, hp, h₃⟩ := bind_eq_ok h₂
    cases h₃
    obtain ⟨hp, rfl⟩ := requirePopulation_eq_ok hp
    refine ⟨m, some p, hm, rfl, rfl, rfl, ?_⟩
    intro q hx
    cases hx
    exact ⟨(World.population?_host hp).1, World.population?_offers hp⟩

theorem planRelease_eq_ok {target : Expr} {species : Option String} {host : Option Expr}
    {r : Relocation} {s t : State} (h : planRelease target species host s = .ok r t) :
    ∃ x, s.scope.agent = some x ∧ r.verb = "release" ∧
      r.destination = releaseTo x r.into species ∧ (r.into = none ↔ host = none) ∧
      ∀ a ∈ r.candidates, isHostedBy (holds t) t.machine.world a x = true := by
  unfold planRelease at h
  obtain ⟨x, s₁, hx, h₁⟩ := bind_eq_ok h
  obtain ⟨v, s₂, -, h₂⟩ := bind_eq_ok h₁
  obtain ⟨hx, rfl⟩ := currentAgent_eq_ok hx
  cases host with
  | none =>
    cases h₂
    exact ⟨x, hx, rfl, rfl, by simp, fun a ha => (List.mem_filter.mp ha).2⟩
  | some e =>
    obtain ⟨v', s₃, -, h₃⟩ := bind_eq_ok h₂
    obtain ⟨a, s₄, -, h₄⟩ := bind_eq_ok h₃
    cases h₄
    exact ⟨x, hx, rfl, rfl, by simp, fun a ha => (List.mem_filter.mp ha).2⟩

theorem planMigrate_eq_ok {source target : String} {r : Relocation} {s t : State}
    (h : planMigrate source target s = .ok r t) :
    ∃ x p, s.scope.agent = some x ∧ r.verb = "migrate" ∧ r.into = none ∧
      r.destination = (fun _ => pure (some p)) ∧
      r.candidates = t.machine.world.members x source ∧
      t.machine.world.population? x target = some p := by
  unfold planMigrate at h
  obtain ⟨x, s₁, hx, h₁⟩ := bind_eq_ok h
  obtain ⟨q, s₂, hq, h₂⟩ := bind_eq_ok h₁
  obtain ⟨p, s₃, hp, h₃⟩ := bind_eq_ok h₂
  rw [machine_bind_apply] at h₃
  cases h₃
  obtain ⟨hx, rfl⟩ := currentAgent_eq_ok hx
  obtain ⟨-, rfl⟩ := requirePopulation_eq_ok hq
  obtain ⟨hp, rfl⟩ := requirePopulation_eq_ok hp
  exact ⟨x, p, hx, rfl, rfl, rfl, rfl, hp⟩

theorem alive_of_canCapture {held : AgentRef → Bool} {w : World} {m a : AgentRef}
    (h : canCapture held w m a = true) : w.isDead a = false := by
  simp only [canCapture, Bool.and_eq_true, Bool.not_eq_true'] at h
  exact h.1.1

theorem isHostedBy_iff {held : AgentRef → Bool} {w : World} {a x : AgentRef} :
    isHostedBy held w a x = true ↔ ∃ h, w.host? held a = some h ∧ h.id = x.id := by
  simp [isHostedBy, Option.any_eq_true]

theorem lt_size_of_isHostedBy {held : AgentRef → Bool} {w : World} {a x : AgentRef}
    (h : isHostedBy held w a x = true) : a.id < w.agents.size := by
  obtain ⟨y, hy, -⟩ := isHostedBy_iff.mp h
  exact World.lt_size_of_host (World.knownHost?_eq_some.mp (World.knownHost?_of_host? hy)).1

/-- From a world on, whoever is moved is in the world, which offers the new population. -/
def Relocation.Fits (r : Relocation) (w : World) : Prop :=
  ∀ a ∈ r.candidates, ∀ s p t, w.Within s.machine.world →
    r.destination a s = .ok (some p) t →
    a.id < t.machine.world.agents.size ∧ t.machine.world.Offers p

/-- Whoever is captured is alive, and goes to a population that the world offers. -/
theorem fits_captureInto {r : Relocation} {m : AgentRef} {fixed : Option Population} {w : World}
    (hdest : r.destination = captureInto m fixed)
    (hfixed : ∀ p, fixed = some p → w.Offers p) : r.Fits w := by
  intro a _ u p v hu hp
  rw [hdest, captureInto_eq] at hp
  dsimp only at hp
  obtain ⟨hq, rfl⟩ := EStateM.Result.ok.inj hp
  split at hq
  case isTrue hcan =>
    refine ⟨World.lt_size_of_alive (alive_of_canCapture hcan), ?_⟩
    rcases Option.or_eq_some_iff.mp hq with hq | ⟨-, hq⟩
    · exact (hfixed p hq).within (hu.trans (World.within_forget _ _ _))
    · exact World.population?_offers hq
  case isFalse => cases hq

theorem planCapture_fits {target : Expr} {species : Option String} {r : Relocation} {s t : State}
    (h : planCapture target species s = .ok r t) : r.Fits t.machine.world := by
  obtain ⟨m, fixed, -, -, -, hdest, hfixed⟩ := planCapture_eq_ok h
  exact fits_captureInto hdest fun p hp => (hfixed p hp).2

theorem planRelease_fits {target : Expr} {species : Option String} {host : Option Expr}
    {r : Relocation} {s t : State} (h : planRelease target species host s = .ok r t) :
    r.Fits t.machine.world := by
  obtain ⟨x, -, -, hdest, -, hcand⟩ := planRelease_eq_ok h
  intro a ha u p v hu hp
  have hlt : a.id < t.machine.world.agents.size := lt_size_of_isHostedBy (hcand a ha)
  rw [hdest] at hp
  cases hi : r.into with
  | none =>
    rw [hi, releaseTo_none_eq] at hp
    obtain ⟨hq, rfl⟩ := EStateM.Result.ok.inj hp
    obtain ⟨h, -, hq⟩ := Option.bind_eq_some_iff.mp hq
    exact ⟨Nat.lt_of_lt_of_le hlt hu.size_le, World.populationFor?_offers hq⟩
  | some h =>
    rw [hi, releaseTo_some_eq] at hp
    obtain ⟨hq, rfl⟩ := EStateM.Result.ok.inj hp
    split at hq
    · cases hq
    · have hsize := Nat.lt_of_lt_of_le hlt hu.size_le
      exact ⟨by simpa using hsize, World.population?_offers hq⟩

theorem planMigrate_fits {source target : String} {r : Relocation} {s t : State}
    (h : planMigrate source target s = .ok r t) : r.Fits t.machine.world := by
  obtain ⟨x, p, -, -, -, hdest, hcand, hpop⟩ := planMigrate_eq_ok h
  intro a ha u q v hu hq
  rw [hdest] at hq
  cases hq
  rw [hcand] at ha
  have hlt := World.lt_size_of_alive (World.alive_of_mem_members ha)
  exact ⟨Nat.lt_of_lt_of_le hlt hu.size_le, (World.population?_offers hpop).within hu⟩

end Habitat.Exec

namespace Habitat

/-- The state after one error has been reported that names all agents that did not move, in order;
without such agents there is none. -/
def State.refusing (s : State) (x : AgentRef) (verb reason : String) (rejected : List AgentRef) :
    State :=
  if rejected.isEmpty then s else
  let names := ", ".intercalate (rejected.map (·.name))
  let message := x.name ++ " can't " ++ verb ++ " " ++ names ++ " " ++ reason
  { s with machine := s.machine.emit (.report ⟨.error, message, some x.name⟩) }

theorem Exec.reportRejected_eq_refusing {s : State} {x : AgentRef} (hx : s.scope.agent = some x)
    (verb reason : String) (rejected : List AgentRef) :
    reportRejected verb rejected reason s = .ok () (s.refusing x verb reason rejected) := by
  unfold reportRejected State.refusing
  split
  · rfl
  · unfold report
    rw [scope_bind_apply, scope_bind_apply, hx]
    rfl

end Habitat
