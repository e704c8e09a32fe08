import Habitat.Proofs.Run.Settling

/-!
# Who lives while a step runs

The agents of a scope are the executing one and, below it, those that wait for it. A step that
starts while all of them live, and no signal is pending, is to end so that all that wait still
live, and the executing agent too unless its death is pending (`State.Alert`).

`Vigil b x y s Q` says this for one step from one state, and that `y` does the same as `x`. It
leaves a way out: `x` may halt with a mark `b`. So a step that halts with every mark where it does
something forbidden, and yet ends in one and the same way for all of them, has done nothing
forbidden.

* `peaceful`: steps that kill nobody and send no signals.
* `Vigil.bind`, `Vigil.attempt_bind`, `Vigil.bracket`, `Vigil.withAgent`, `Vigil.owned`: the rules.
-/
namespace Habitat

open Exec Discipline

/-! ## Living agents -/

/-- All that wait live, and so does the executing agent unless its death is pending. -/
structure State.Alert (s : State) : Prop where
  waiting : ∀ a ∈ s.scope.agents.tail, s.machine.world.isDead a = false
  acting : s.scope.flow ≠ .die → ∀ a ∈ s.scope.agent, s.machine.world.isDead a = false

/-- No signal is pending, and the executing agent and all that wait live. -/
structure State.Lively (s : State) : Prop where
  flow : s.scope.flow = .normal
  alive : ∀ a ∈ s.scope.agents, s.machine.world.isDead a = false

/-- Two states with the same agents, of which the same live, and the same signals. -/
structure State.Alike (s t : State) : Prop where
  flow : t.scope.flow = s.scope.flow
  agents : t.scope.agents = s.scope.agents
  world : t.machine.world = s.machine.world
  cancelled : t.machine.cancelled = s.machine.cancelled

namespace State

variable {s t : State}

theorem Lively.alert (h : s.Lively) : s.Alert :=
  ⟨fun a ha => h.alive a (List.mem_of_mem_tail ha),
    fun _ a ha => h.alive a (List.mem_of_mem_head? ha)⟩

theorem Alert.lively (h : s.Alert) (hf : s.scope.flow = .normal) : s.Lively := by
  refine ⟨hf, fun a ha => ?_⟩
  cases hs : s.scope.agents with
  | nil => rw [hs] at ha; cases ha
  | cons b rest =>
    rw [hs] at ha
    rcases List.mem_cons.mp ha with rfl | ha
    · exact h.acting (by simp [hf]) a (by simp [Scope.agent, hs])
    · exact h.waiting a (by simpa [hs] using ha)

theorem Alike.alert (h : Alike s t) (hs : s.Alert) : t.Alert := by
  refine ⟨?_, ?_⟩
  · rw [h.agents, h.world]
    exact hs.waiting
  · rw [Scope.agent, h.agents, h.world, h.flow]
    exact hs.acting

theorem Alike.lively (h : Alike s t) (hs : s.Lively) : t.Lively :=
  (h.alert hs.alert).lively (h.flow.trans hs.flow)

/-- Whoever clears a signal that is no death leaves those alive that lived. -/
theorem Alert.clear (h : s.Alert) {owned : Flow} (howned : owned ≠ .die) :
    State.Alert { s with scope := { s.scope with flow := s.scope.flow.clear owned } } := by
  refine ⟨h.waiting, fun hf => h.acting fun hdie => hf ?_⟩
  simp [Flow.clear, hdie, howned.symm]

end State

/-- Nobody dies, no signal is pending, and the executing agents are the same. -/
def Discipline.peaceful : Discipline where
  admits s := s.scope.flow = .normal
  keeps s t := calm.keeps s t ∧
    ∀ a, s.machine.world.isDead a = false → t.machine.world.isDead a = false
  raises _ := True

theorem peaceful_lawful : Lawful peaceful where
  refl s hs := ⟨calm_lawful.refl s hs, fun _ h => h⟩
  trans s t u h h' := ⟨calm_lawful.trans s t u h.1 h'.1, fun a ha => h'.2 a (h.2 a ha)⟩
  admitted _ _ _ h := h.1.1
  declare s name v hs := ⟨calm_lawful.declare s name v hs, fun _ h => h⟩
  assign s name v scope hs h := ⟨calm_lawful.assign s name v scope hs h, fun _ h => h⟩
  caught s e hs := ⟨calm_lawful.caught s e hs, fun _ h => h⟩
  machine s m hs hm := ⟨calm_lawful.machine s m hs hm, fun _ h => by rwa [hm]⟩
  frame_in _ _ _ hs := hs
  frame_out s owner caller t hs h := by
    refine ⟨calm_lawful.frame_out s owner caller t hs h.1, fun a ha => h.2 a ?_⟩
    rwa [pushFrame_world]
  agent_in _ _ hs _ := hs
  agent_out s a t hs ha h := ⟨calm_lawful.agent_out s a t hs ha h.1, h.2⟩
  try_in _ hs := hs
  try_out s t hs h := ⟨calm_lawful.try_out s t hs h.1, h.2⟩
  fork_in _ _ _ := rfl
  fork_out s name t hs h := ⟨calm_lawful.fork_out s name t hs h.1, h.2⟩
  error _ _ := trivial
  noAgent _ _ _ _ := trivial
  outOfFuel := trivial

/-- Of all that statements do to the world, only `die` kills. -/
theorem peaceful_mobile : Mobile peaceful where
  toLawful := peaceful_lawful
  born s m p inits hs hp hm := by
    refine ⟨⟨hs, rfl⟩, fun a ha => ?_⟩
    rw [hm]
    exact World.isDead_births ha
  assigned s m a name v hs hm := by
    refine ⟨⟨hs, rfl⟩, fun b hb => ?_⟩
    rwa [hm, World.isDead_setAttribute]
  lost s m held a hs hm := by
    refine ⟨⟨hs, rfl⟩, fun b hb => ?_⟩
    rwa [hm, World.isDead_forget]
  moved s m held a p hs hid ha hp hm := by
    refine ⟨⟨hs, rfl⟩, fun b hb => ?_⟩
    rwa [hm, World.isDead_move]

theorem State.Lively.of_peaceful {s t : State} (hs : s.Lively) (h : peaceful.keeps s t) :
    t.Lively := by
  refine ⟨h.1.1, fun a ha => h.2 a (hs.alive a ?_)⟩
  rwa [← h.1.2]

/-! ## Rules -/

/-- The step runs out of fuel, and leaves a mark where a request to stop is noted. -/
def Halts {α : Type} (b : Bool) (x : Exec α) (s : State) : Prop :=
  ∃ t, x s = .error .outOfFuel t ∧ t.machine.cancelled = b

/-- From one state, `y` does the same as `x`. If `x` ends well, then with a state where all that
wait live, and a signal that satisfies `Q`; and if it fails, then with one where all live. -/
structure Watched {α : Type} (x y : Exec α) (s : State) (Q : α → Flow → Prop) : Prop where
  same : y s = x s
  ok : ∀ a t, x s = .ok a t → t.Alert ∧ t.scope.agents = s.scope.agents ∧ Q a t.scope.flow
  fails : ∀ e t, x s = .error (.error e) t → t.Lively ∧ t.scope.agents = s.scope.agents

/-- Either `x` halts with a mark, or it is watched. -/
def Vigil {α : Type} (b : Bool) (x y : Exec α) (s : State) (Q : α → Flow → Prop) : Prop :=
  Halts b x s ∨ Watched x y s Q

namespace Vigil

variable {α β : Type} {b : Bool} {s t : State} {x y : Exec α} {Q : α → Flow → Prop}
  {f g : α → Exec β} {R : β → Flow → Prop}

theorem of_ok {a : α} (h : x s = .ok a t) (ht : t.Alert) (hagents : t.scope.agents = s.scope.agents)
    (hQ : Q a t.scope.flow) : Vigil b x x s Q := by
  refine .inr ⟨rfl, ?_, ?_⟩
  · intro a' t' h'
    rw [h] at h'
    cases h'
    exact ⟨ht, hagents, hQ⟩
  · intro e t' h'
    rw [h] at h'
    cases h'

theorem pure {a : α} (hs : s.Alert) (hQ : Q a s.scope.flow) :
    Vigil b (Pure.pure a) (Pure.pure a) s Q := of_ok rfl hs rfl hQ

theorem of_error {e : ExecError} (h : x s = .error (.error e) t) (ht : t.Lively)
    (hagents : t.scope.agents = s.scope.agents) : Vigil b x x s Q := by
  refine .inr ⟨rfl, ?_, ?_⟩
  · intro a t' h'
    rw [h] at h'
    cases h'
  · intro e' t' h'
    rw [h] at h'
    cases h'
    exact ⟨ht, hagents⟩

theorem fail {e : ExecError} (hs : s.Lively) : Vigil b (Exec.fail e) (Exec.fail e) s Q :=
  of_error rfl hs rfl

theorem of_outOfFuel (h : x s = .error .outOfFuel t) : Vigil b x x s Q := by
  refine .inr ⟨rfl, ?_, ?_⟩
  · intro a t' h'
    rw [h] at h'
    cases h'
  · intro e t' h'
    rw [h] at h'
    cases h'

theorem throw_outOfFuel :
    Vigil b (throw .outOfFuel : Exec α) (throw .outOfFuel) s Q := of_outOfFuel rfl

theorem mono {Q' : α → Flow → Prop} (h : Vigil b x y s Q) (hQ : ∀ a f, Q a f → Q' a f) :
    Vigil b x y s Q' := by
  refine h.imp_right fun hw => ⟨hw.same, fun a t ht => ?_, hw.fails⟩
  obtain ⟨halert, hagents, hq⟩ := hw.ok a t ht
  exact ⟨halert, hagents, hQ a _ hq⟩

/-- Steps that end alike in one state are watched alike. -/
theorem of_eq {x' y' : Exec α} (h : Vigil b x y s Q) (hx : x' s = x s) (hy : y' s = y s) :
    Vigil b x' y' s Q := by
  refine h.imp ?_ fun hw => ⟨by rw [hx, hy, hw.same], ?_, ?_⟩
  · rintro ⟨t, ht, hb⟩
    exact ⟨t, hx.trans ht, hb⟩
  · intro a t ht
    exact hw.ok a t (hx ▸ ht)
  · intro e t ht
    exact hw.fails e t (hx ▸ ht)

theorem bind_ok {a : α} (h : x s = .ok a t) (hagents : t.scope.agents = s.scope.agents)
    (hf : Vigil b (f a) (g a) t R) : Vigil b (x >>= f) (x >>= g) s R := by
  rcases hf with ⟨u, hu, hb⟩ | hw
  · exact .inl ⟨u, (Exec.bind_ok h).trans hu, hb⟩
  · refine .inr ⟨?_, ?_, ?_⟩
    · rw [Exec.bind_ok h, Exec.bind_ok h, hw.same]
    · intro c u hu
      rw [Exec.bind_ok h] at hu
      obtain ⟨halert, hsame, hR⟩ := hw.ok c u hu
      exact ⟨halert, hsame.trans hagents, hR⟩
    · intro e u hu
      rw [Exec.bind_ok h] at hu
      obtain ⟨hlively, hsame⟩ := hw.fails e u hu
      exact ⟨hlively, hsame.trans hagents⟩

/-- The rest starts where the first part ended well. -/
theorem bind (hx : Vigil b x y s Q)
    (hf : ∀ a t, x s = .ok a t → t.Alert → Q a t.scope.flow → Vigil b (f a) (g a) t R) :
    Vigil b (x >>= f) (y >>= g) s R := by
  rcases hx with ⟨t, ht, hb⟩ | hw
  · exact .inl ⟨t, bind_error ht, hb⟩
  · have hy : (y >>= g) s = (x >>= g) s := by simp only [Bind.bind, EStateM.bind, hw.same]
    refine of_eq (y := x >>= g) ?_ rfl hy
    cases h : x s with
    | ok a t =>
      obtain ⟨halert, hagents, hQ⟩ := hw.ok a t h
      exact bind_ok h hagents (hf a t h halert hQ)
    | error e t =>
      refine of_eq (x := x >>= f) (y := x >>= f) ?_ rfl (by rw [bind_error h, bind_error h])
      cases e with
      | error e =>
        obtain ⟨hlively, hagents⟩ := hw.fails e t h
        exact of_error (bind_error h) hlively hagents
      | outOfFuel => exact of_outOfFuel (bind_error h)

/-- A step that kills nobody and sends no signals. -/
theorem of_at (h : peaceful.At x x s) (hs : s.Lively) : Vigil b x x s fun _ f => f = .normal := by
  have hkept := h.kept
  refine .inr ⟨rfl, ?_, ?_⟩
  · intro a t ht
    rw [after_ok ht] at hkept
    exact ⟨(hs.of_peaceful hkept).alert, hkept.1.2, hkept.1.1⟩
  · intro e t ht
    rw [after_error ht] at hkept
    exact ⟨hs.of_peaceful hkept, hkept.1.2⟩

/-- After a step that kills nobody and sends no signals, all live. -/
theorem peaceful_bind (hx : peaceful.At x x s) (hs : s.Lively)
    (hf : ∀ a t, x s = .ok a t → t.Lively → peaceful.keeps s t → Vigil b (f a) (g a) t R) :
    Vigil b (x >>= f) (x >>= g) s R := by
  refine (of_at hx hs).bind fun a t ht _ _ => ?_
  have hkept := hx.kept
  rw [after_ok ht] at hkept
  exact hf a t ht (hs.of_peaceful hkept) hkept

theorem ite {c : Prop} [Decidable c] {x' y' : Exec α} (h : c → Vigil b x y s Q)
    (h' : ¬c → Vigil b x' y' s Q) :
    Vigil b (if c then x else x') (if c then y else y') s Q := by
  split
  · exact h ‹_›
  · exact h' ‹_›

/-- A step between two changes of the state that leave the agents and their signals alone. -/
theorem bracket {enter leave : State → State} (henter : State.Alike s (enter s))
    (hleave : ∀ t, State.Alike t (leave t)) (h : Vigil b x y (enter s) Q) :
    Vigil b (bracket enter leave x) (bracket enter leave y) s Q := by
  rcases h with ⟨t, ht, hb⟩ | hw
  · exact .inl ⟨leave t, bracket_error ht, (hleave t).cancelled.trans hb⟩
  · refine .inr ⟨by simp only [Exec.bracket, hw.same], ?_, ?_⟩
    · intro a u hu
      obtain ⟨t, ht, rfl⟩ := bracket_eq_ok hu
      obtain ⟨halert, hagents, hQ⟩ := hw.ok a t ht
      refine ⟨(hleave t).alert halert, ?_, ?_⟩
      · exact (hleave t).agents.trans (hagents.trans henter.agents)
      · rwa [(hleave t).flow]
    · intro e u hu
      cases hx : x (enter s) with
      | ok a t => rw [bracket_ok hx] at hu; cases hu
      | error e' t =>
        rw [bracket_error hx] at hu
        cases hu
        obtain ⟨hlively, hagents⟩ := hw.fails e t hx
        exact ⟨(hleave t).lively hlively,
          (hleave t).agents.trans (hagents.trans henter.agents)⟩

end Vigil

theorem State.alike_pushFrame (owner : String) (caller : Option AgentRef) (s : State) :
    State.Alike s (pushFrame owner caller s) :=
  ⟨rfl, rfl, pushFrame_world owner caller s, pushFrame_cancelled owner caller s⟩

theorem State.alike_pop (s : State) : State.Alike s { s with scope := s.scope.pop } :=
  ⟨s.scope.flow_pop, s.scope.agents_pop, rfl, rfl⟩

theorem State.alike_holding (s : State) (vs : List Value) : State.Alike s (s.holding vs) :=
  ⟨rfl, rfl, rfl, rfl⟩

theorem State.alike_declare (s : State) (name : String) (v : Value) :
    State.Alike s { s with scope := s.scope.declare name v } :=
  ⟨s.scope.flow_declare name v, s.scope.agents_declare name v, rfl, rfl⟩

namespace Vigil

variable {α β : Type} {b : Bool} {s t : State} {x y : Exec α} {Q : α → Flow → Prop}
  {f g : α → Exec β} {R : β → Flow → Prop}

theorem withFrame {owner : String} {caller : Option AgentRef}
    (h : Vigil b x y (pushFrame owner caller s) Q) :
    Vigil b (withFrame owner caller x) (withFrame owner caller y) s Q :=
  bracket (s.alike_pushFrame owner caller) State.alike_pop h

theorem withTry
    (h : Vigil b x y { s with scope := { s.scope with tryDepth := s.scope.tryDepth + 1 } } Q) :
    Vigil b (withTry x) (withTry y) s Q :=
  bracket ⟨rfl, rfl, rfl, rfl⟩ (fun _ => ⟨rfl, rfl, rfl, rfl⟩) h

theorem withHeld {vs : List Value} (h : Vigil b x y (s.holding vs) Q) :
    Vigil b (withHeld vs x) (withHeld vs y) s Q :=
  bracket (s.alike_holding vs) (fun _ => ⟨rfl, rfl, rfl, rfl⟩) h

/-- For a live agent that is made the executing one: all that waited before wait meanwhile, so they
live afterwards, and the pending death of the agent goes with it. -/
theorem withAgent {a : AgentRef} (hs : s.Lively) (ha : s.machine.world.isDead a = false)
    (h : ∀ u : State, u.Lively → Vigil b x y u Q) :
    Vigil b (withAgent a x) (withAgent a y) s fun _ _ => True := by
  by_cases hnew : s.scope.isNewAgent a = true
  · refine of_eq ?_ (withAgent_new hnew) (withAgent_new hnew)
    have hpushed : State.Lively { s with scope := s.scope.pushAgent a } :=
      ⟨hs.flow, List.forall_mem_cons.mpr ⟨ha, hs.alive⟩⟩
    -- the pushed agent goes, and what is left waited for it
    have hpop : ∀ t : State, t.Alert → t.scope.agents = a :: s.scope.agents →
        State.Alert { t with scope := t.scope.popAgent } ∧
          t.scope.popAgent.agents = s.scope.agents := by
      intro t ht hagents
      have hrest : t.scope.popAgent.agents = t.scope.agents.tail := rfl
      refine ⟨⟨fun c hc => ht.waiting c ?_, fun _ c hc => ht.waiting c ?_⟩, ?_⟩
      · exact List.mem_of_mem_tail hc
      · exact List.mem_of_mem_head? hc
      · rw [hrest, hagents, List.tail_cons]
    rcases h _ hpushed with ⟨t, ht, hb⟩ | hw
    · exact .inl ⟨{ t with scope := t.scope.popAgent }, bracket_error ht, hb⟩
    · refine .inr ⟨by simp only [Exec.bracket, hw.same], ?_, ?_⟩
      · intro v u hu
        obtain ⟨t, ht, rfl⟩ := bracket_eq_ok hu
        obtain ⟨halert, hagents, -⟩ := hw.ok v t ht
        exact ⟨(hpop t halert hagents).1, (hpop t halert hagents).2, trivial⟩
      · intro e u hu
        cases hx : x { s with scope := s.scope.pushAgent a } with
        | ok v t => rw [bracket_ok hx] at hu; cases hu
        | error e' t =>
          rw [bracket_error hx] at hu
          cases hu
          obtain ⟨hlively, hagents⟩ := hw.fails e t hx
          obtain ⟨halert, hsame⟩ := hpop t hlively.alert hagents
          refine ⟨halert.lively ?_, hsame⟩
          simp [Scope.popAgent, hlively.flow, Flow.clear]
  · refine of_eq ((h s hs).mono fun _ _ _ => trivial) (withAgent_same hnew) (withAgent_same hnew)

/-- Whoever catches an error finds all alive. -/
theorem attempt_bind {f g : Except ExecError α → Exec β} (hx : Vigil b x y s Q)
    (hok : ∀ a t, t.Alert → Q a t.scope.flow → Vigil b (f (.ok a)) (g (.ok a)) t R)
    (herr : ∀ e t, t.Lively → Vigil b (f (.error e)) (g (.error e)) t R) :
    Vigil b (attempt x >>= f) (attempt y >>= g) s R := by
  rcases hx with ⟨t, ht, hb⟩ | hw
  · exact .inl ⟨t, bind_error (attempt_outOfFuel ht), hb⟩
  · have hy : (attempt y >>= g) s = (attempt x >>= g) s := by
      simp only [Bind.bind, EStateM.bind, Exec.attempt, hw.same]
    refine of_eq (y := attempt x >>= g) ?_ rfl hy
    cases h : x s with
    | ok a t =>
      obtain ⟨halert, hagents, hQ⟩ := hw.ok a t h
      exact bind_ok (attempt_ok h) hagents (hok a t halert hQ)
    | error e t =>
      cases e with
      | error e =>
        obtain ⟨hlively, hagents⟩ := hw.fails e t h
        exact bind_ok (attempt_error h) hagents (herr e t hlively)
      | outOfFuel =>
        have hbind : ∀ k : Except ExecError α → Exec β,
            (attempt x >>= k) s = .error .outOfFuel t := fun k => bind_error (attempt_outOfFuel h)
        exact of_eq (of_outOfFuel (hbind f)) rfl (by rw [hbind, hbind])

/-- The owner of a signal that is no death clears it, whether the step ended well or not. -/
theorem owned (hx : Vigil b x y s Q) {owned : Flow} (howned : owned ≠ .die) :
    Vigil b
      (do
        let r ← attempt x
        let _ ← takeFlow owned
        lift r)
      (do
        let r ← attempt y
        let _ ← takeFlow owned
        lift r) s fun _ _ => True := by
  refine attempt_bind hx ?_ ?_
  · intro a t ht _
    exact bind_ok (x := takeFlow owned) rfl rfl (.pure (ht.clear howned) trivial)
  · intro e t ht
    refine bind_ok (x := takeFlow owned) rfl rfl (.fail ((ht.alert.clear howned).lively ?_))
    simp only [ht.flow, Flow.clear]
    split <;> rfl

theorem store (hs : s.Alert) (name : Option String) (v : Value) :
    Vigil b (store name v) (store name v) s fun _ f => f = s.scope.flow := by
  cases name with
  | none => exact .pure hs rfl
  | some name =>
    have halike := s.alike_declare name v
    exact of_ok (x := declare name v) rfl (halike.alert hs) halike.agents halike.flow

end Vigil
end Habitat
