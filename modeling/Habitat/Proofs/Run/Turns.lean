import Habitat.Proofs.Run.Settling

/-!
# Turns

A dispatch takes one turn for each of its targets: it runs the body on behalf of the target, in the
scope of the caller or, when workers do it, in a copy of that scope. Outside of `try` an error ends
the turn in which it was raised and nothing else: the target has failed, and the error is reported
on its behalf. Inside of `try` it unwinds.

A `Turn` is one run of the body, with the states before and after it.

* `posture`: every step leaves the executing agents and the open `try` blocks as they were.
* `runRemote_eq_finish`, `inCopy_runRemote_eq_finish`: what becomes of a turn, in the caller's scope
  and in a copy of it.
-/

namespace Habitat

open Exec Discipline

/-! ## Executing agents and open `try` blocks -/

/-- Every step leaves the executing agents and the open `try` blocks as they were. -/
def Discipline.posture : Discipline where
  admits _ := True
  keeps s t := t.scope.agents = s.scope.agents ∧ t.scope.tryDepth = s.scope.tryDepth
  raises _ := True

theorem Scope.tryDepth_declare (s : Scope) (name : String) (v : Value) :
    (s.declare name v).tryDepth = s.tryDepth := by
  unfold declare
  split <;> rfl

theorem Scope.tryDepth_setVar {s t : Scope} {name : String} {v : Value}
    (h : s.setVar name v = some t) : t.tryDepth = s.tryDepth := by
  obtain ⟨frames, -, rfl⟩ := Option.map_eq_some_iff.mp h
  rfl

theorem Scope.tryDepth_pop (s : Scope) : s.pop.tryDepth = s.tryDepth := by
  unfold pop
  split <;> rfl

theorem posture_sound : Sound posture where
  refl _ _ := ⟨rfl, rfl⟩
  trans _ _ _ h h' := ⟨h'.1.trans h.1, h'.2.trans h.2⟩
  admitted _ _ _ _ := trivial
  declare s name v _ := ⟨s.scope.agents_declare name v, s.scope.tryDepth_declare name v⟩
  assign _ _ _ _ _ h := ⟨(Scope.setVar_eq h).2, Scope.tryDepth_setVar h⟩
  record _ _ _ := ⟨rfl, rfl⟩
  caught _ _ _ := ⟨rfl, rfl⟩
  machine _ _ _ _ := ⟨rfl, rfl⟩
  frame_in _ _ _ _ := trivial
  frame_out _ _ _ t _ h := ⟨t.scope.agents_pop.trans h.1, t.scope.tryDepth_pop.trans h.2⟩
  agent_in _ _ _ _ := trivial
  agent_out _ _ _ _ _ h := ⟨congrArg List.tail h.1, h.2⟩
  try_in _ _ := trivial
  try_out _ _ _ h := ⟨h.1, congrArg (· - 1) h.2⟩
  fork_in _ _ _ := trivial
  fork_out _ _ _ _ _ := ⟨rfl, rfl⟩
  error _ _ := trivial
  noAgent _ _ _ _ := trivial
  outOfFuel := trivial
  world _ _ _ _ := ⟨rfl, rfl⟩
  signal _ _ _ := ⟨rfl, rfl⟩

theorem posture_runNative (native : Native) (args : BoundArguments) :
    posture.Safe (asForeign (runNative native args)) := by
  intro s _
  cases native <;> exact ⟨rfl, ⟨rfl, rfl⟩, fun _ _ _ => trivial⟩

theorem posture_sequence (n : Nat) (body : Sequence) : posture.Safe (sequence n body) :=
  posture_sound.safe_sequenceWith posture_runNative n body

/-! ## Turns -/

/-- The state after the newest group of held values has been let go. -/
def State.release (s : State) : State :=
  { s with machine := { s.machine with held := s.machine.held.tail } }

/-- The state in which a worker runs on behalf of an agent. -/
def State.copyFor (s : State) (a : AgentRef) : State :=
  State.holding ⟨s.scope.fork (s.scope.name ++ "/" ++ a.name), s.machine⟩ s.scope.holdings

/-- The agent that executes while an agent has its turn: the one that executes already, if it is
the same. -/
def Scope.standIn (s : Scope) (a : AgentRef) : AgentRef :=
  if s.isNewAgent a then a else s.agent.getD a

/-- The report of an error on behalf of an agent. -/
def Scope.failure (s : Scope) (a : AgentRef) (e : ExecError) : Report :=
  ⟨.error, e.message, some (s.standIn a).name⟩

theorem Scope.failure_congr {s t : Scope} (h : t.agents = s.agents) (a : AgentRef)
    (e : ExecError) : t.failure a e = s.failure a e := by
  unfold failure standIn agent
  rw [isNewAgent_congr h, h]

/-- The state after an error has been reported on behalf of an agent. -/
def State.tell (s : State) (a : AgentRef) (e : ExecError) : State :=
  { s with machine := s.machine.emit (.report (s.scope.failure a e)) }

namespace Exec

/-- The run of a body for one target: the target executes, and its caller is known. -/
def bodyFor (run : Sequence → Exec Value) (owner : String) (body : Sequence) (a : AgentRef) :
    Exec Value := do
  let caller := (← scope).agent
  withAgent a (withFrame owner caller (run body))

/-- Runs a step in a private copy of the scope, which is dropped afterwards. -/
def inCopy {α : Type} (a : AgentRef) (x : Exec α) : Exec α := fun s =>
  bracket (·.copyFor a) (fun t => ⟨s.scope, t.release.machine⟩) x s

/-- The run of a body for one target, in a copy of the caller's scope. -/
def bodyInCopy (run : Sequence → Exec Value) (owner : String) (body : Sequence) (a : AgentRef) :
    Exec Value := inCopy a (bodyFor run owner body a)

theorem inCopy_ok {α : Type} {a : AgentRef} {x : Exec α} {s t : State} {v : α}
    (h : x (s.copyFor a) = .ok v t) : inCopy a x s = .ok v ⟨s.scope, t.release.machine⟩ :=
  bracket_ok h

theorem inCopy_error {α : Type} {a : AgentRef} {x : Exec α} {s t : State} {e : Fault}
    (h : x (s.copyFor a) = .error e t) : inCopy a x s = .error e ⟨s.scope, t.release.machine⟩ :=
  bracket_error h

theorem posture_inCopy {α : Type} (a : AgentRef) (x : Exec α) : posture.Safe (inCopy a x) := by
  intro s _
  refine ⟨rfl, ?_, fun _ _ _ => trivial⟩
  cases h : x (s.copyFor a) with
  | ok v t =>
    rw [after_ok (inCopy_ok h)]
    exact ⟨rfl, rfl⟩
  | error e t =>
    rw [after_error (inCopy_error h)]
    exact ⟨rfl, rfl⟩

/-- A worker gives back what runs in a copy of the scope. -/
theorem forked_eq_attempt {α : Type} (a : AgentRef) (x : Exec α) (s : State) :
    forked (s.scope.name ++ "/" ++ a.name) x s = attempt (inCopy a x) s := by
  unfold forked
  cases h : x (s.copyFor a) with
  | ok v t =>
    have hheld : withHeld s.scope.holdings x
        ⟨s.scope.fork (s.scope.name ++ "/" ++ a.name), s.machine⟩ = .ok v t.release := bracket_ok h
    rw [attempt_ok (inCopy_ok h), attempt_ok hheld]
  | error e t =>
    have hheld : withHeld s.scope.holdings x
        ⟨s.scope.fork (s.scope.name ++ "/" ++ a.name), s.machine⟩ = .error e t.release :=
      bracket_error h
    cases e with
    | error e => rw [attempt_error (inCopy_error h), attempt_error hheld]
    | outOfFuel => rw [attempt_outOfFuel (inCopy_error h), attempt_outOfFuel hheld]

end Exec

/-- How the run of a body ended. -/
inductive Ending where
  /-- Nothing ran for the target. -/
  | idle
  | returned (v : Value)
  | raised (e : ExecError)
  /-- The fuel of the recursion was used up. -/
  | unfinished

/-- The run of a body for one target of a dispatch. -/
structure Turn where
  target : AgentRef
  before : State
  ending : Ending
  /-- What the body left behind. -/
  after : State

namespace Turn

/-- The turn of an agent whose body ran. -/
def ofRun (a : AgentRef) (s : State) : EStateM.Result Fault State Value → Turn
  | .ok v t => ⟨a, s, .returned v, t⟩
  | .error (.error e) t => ⟨a, s, .raised e, t⟩
  | .error .outOfFuel t => ⟨a, s, .unfinished, t⟩

/-- A turn is taken by the living, unless the run was cancelled. -/
def take (x : AgentRef → Exec Value) (a : AgentRef) (s : State) : Turn :=
  if s.machine.cancelled || s.machine.world.isDead a then ⟨a, s, .idle, s⟩ else ofRun a s (x a s)

def error? (τ : Turn) : Option ExecError :=
  match τ.ending with
  | .raised e => some e
  | _ => none

def result (τ : Turn) : RemoteResult :=
  match τ.ending with
  | .returned v => ⟨v, true⟩
  | _ => .failed

/-- What outside of `try` is reported about the turn. -/
def failures (τ : Turn) : List Report := (τ.error?.map (τ.after.scope.failure τ.target)).toList

/-- The body came to an end, and left no signal pending. -/
structure Quiet (τ : Turn) : Prop where
  finished : τ.ending ≠ .unfinished
  flow : τ.after.scope.flow = .normal

instance (τ : Turn) : Decidable τ.Quiet :=
  match h : τ.ending, decEq τ.after.scope.flow .normal with
  | .unfinished, _ => isFalse fun hτ => hτ.finished h
  | _, isFalse hflow => isFalse fun hτ => hflow hτ.flow
  | .idle, isTrue hflow | .returned _, isTrue hflow | .raised _, isTrue hflow =>
    isTrue ⟨by rw [h]; nofun, hflow⟩

section
variable (inTry : Bool) (τ : Turn)

/-- The result for the target, or the error that unwinds. -/
def outcome : Except ExecError RemoteResult :=
  match τ.ending with
  | .raised e => if inTry then .error e else .ok .failed
  | _ => .ok τ.result

/-- The state in which the dispatch goes on. -/
def next : State :=
  match τ.ending with
  | .raised e => if inTry then τ.after else τ.after.tell τ.target e
  | _ => τ.after

/-- What becomes of the turn. -/
def finish : EStateM.Result Fault State RemoteResult :=
  match τ.ending, τ.outcome inTry with
  | .unfinished, _ => .error .outOfFuel τ.after
  | _, .ok r => .ok r (τ.next inTry)
  | _, .error e => .error (.error e) (τ.next inTry)

/-- Whether the turns that are taken one after another end with this one. -/
def isLast (stop : Bool) : Bool :=
  τ.after.machine.cancelled || (inTry && τ.error?.isSome) || (stop && !τ.result.passed)

end
end Turn

/-! ## One target -/

namespace Exec

/-- A run whose error stays with its target, unless a `try` block is open. -/
def contained (x : Exec Value) : Exec RemoteResult := do
  match ← attempt x with
  | .ok v => return ⟨v, true⟩
  | .error e =>
    if (← scope).inTry then fail e
    report .error e.message
    return .failed

theorem contained_ok {x : Exec Value} {s t : State} {v : Value} (h : x s = .ok v t) :
    contained x s = .ok ⟨v, true⟩ t := bind_ok (attempt_ok h)

theorem contained_outOfFuel {x : Exec Value} {s t : State} (h : x s = .error .outOfFuel t) :
    contained x s = .error .outOfFuel t := bind_error (attempt_outOfFuel h)

/-- The error unwinds, or the executing agent is reported to have failed. -/
theorem contained_error {x : Exec Value} {s t : State} {e : ExecError}
    (h : x s = .error (.error e) t) :
    contained x s =
      if t.scope.inTry then .error (.error e) t else
        .ok .failed ⟨t.scope,
          t.machine.emit (.report ⟨.error, e.message, t.scope.agent.map (·.name)⟩)⟩ := by
  refine (bind_ok (attempt_error h)).trans ?_
  dsimp only
  rw [scope_bind_apply]
  split <;> rfl

end Exec

/-- A report of the executing agent while a target has its turn, seen from its caller. -/
theorem State.tell_pushed {s t : State} {a : AgentRef} (e : ExecError)
    (ha : s.scope.isNewAgent a = true) (ht : t.scope.agents = a :: s.scope.agents) :
    State.tell { t with scope := t.scope.popAgent } a e =
      ⟨t.scope.popAgent,
        t.machine.emit (.report ⟨.error, e.message, t.scope.agent.map (·.name)⟩)⟩ := by
  have hnew : t.scope.popAgent.isNewAgent a = true :=
    (Scope.isNewAgent_congr (congrArg List.tail ht) a).trans ha
  have hagent : t.scope.agent = some a := by simp [Scope.agent, ht]
  simp [tell, Scope.failure, Scope.standIn, hnew, hagent]

/-- A report of the executing agent, which is the target itself. -/
theorem State.tell_same {t : State} {a : AgentRef} (e : ExecError)
    (ha : ¬t.scope.isNewAgent a = true) :
    t.tell a e =
      ⟨t.scope, t.machine.emit (.report ⟨.error, e.message, t.scope.agent.map (·.name)⟩)⟩ := by
  have hagent : t.scope.agent.map (·.name) = some (t.scope.agent.getD a).name := by
    cases h : t.scope.agents with
    | nil => simp [Scope.isNewAgent, h] at ha
    | cons b rest => simp [Scope.agent, h]
  simp [tell, Scope.failure, Scope.standIn, ha, hagent]

theorem Turn.finish_raised (inTry : Bool) (a : AgentRef) (s t : State) (e : ExecError) :
    Turn.finish inTry ⟨a, s, .raised e, t⟩ =
      if inTry then .error (.error e) t else .ok .failed (t.tell a e) := by
  cases inTry <;> rfl

/-- Containment on behalf of an agent makes a turn of what is contained. -/
theorem Exec.withAgent_contained {x : Exec Value} (hx : posture.Safe x) (a : AgentRef)
    (s : State) :
    withAgent a (contained x) s = (Turn.ofRun a s (withAgent a x s)).finish s.scope.inTry := by
  -- Either way it is known who executes when the error is reported.
  by_cases ha : s.scope.isNewAgent a = true
  · have hkept := (hx { s with scope := s.scope.pushAgent a } trivial).kept
    rw [withAgent_new ha, withAgent_new ha]
    cases h : x { s with scope := s.scope.pushAgent a } with
    | ok v t =>
      rw [bracket_ok (contained_ok h), bracket_ok h]
      rfl
    | error e t =>
      rw [after_error h] at hkept
      rw [bracket_error (x := x) h]
      cases e with
      | error e =>
        have htry : t.scope.inTry = s.scope.inTry := by
          simp [Scope.inTry, hkept.2, Scope.pushAgent]
        have hc := contained_error h
        rw [htry] at hc
        rw [Turn.ofRun, Turn.finish_raised]
        split at hc
        · rw [bracket_error hc, if_pos ‹_›]
        · rw [bracket_ok hc, if_neg ‹_›, State.tell_pushed e ha hkept.1]
      | outOfFuel =>
        rw [bracket_error (contained_outOfFuel h)]
        rfl
  · have hkept := (hx s trivial).kept
    rw [withAgent_same ha, withAgent_same ha]
    cases h : x s with
    | ok v t => exact contained_ok h
    | error e t =>
      rw [after_error h] at hkept
      cases e with
      | error e =>
        have htry : t.scope.inTry = s.scope.inTry := by simp [Scope.inTry, hkept.2]
        have ha' : ¬t.scope.isNewAgent a = true := by rwa [Scope.isNewAgent_congr hkept.1]
        rw [contained_error h, htry, Turn.ofRun, Turn.finish_raised, State.tell_same e ha']
      | outOfFuel => exact contained_outOfFuel h

section
variable {run : Sequence → Exec Value} (hrun : ∀ body, posture.Safe (run body))
include hrun

theorem posture_bodyFor (owner : String) (body : Sequence) (a : AgentRef) :
    posture.Safe (bodyFor run owner body a) := by
  have L := posture_sound.lawful
  exact L.safe_scope.bind L fun s => Rel.withAgent L a (Rel.withFrame L owner s.agent (hrun body))

/-- In the caller's scope. -/
theorem runRemote_eq_finish (owner : String) (body : Sequence) (a : AgentRef) {s : State}
    (hs : s.scope.flow = .normal) :
    runRemote run owner body a s =
      (Turn.take (bodyFor run owner body) a s).finish s.scope.inTry := by
  unfold runRemote Turn.take
  rw [bind_ok (interrupted_of_normal hs), machine_bind_apply]
  split
  · rfl
  · have hsafe := Rel.withFrame posture_sound.lawful owner s.scope.agent (hrun body)
    exact withAgent_contained hsafe a s

/-- In a copy of the caller's scope. -/
theorem inCopy_runRemote_eq_finish (owner : String) (body : Sequence) (a : AgentRef) (s : State) :
    inCopy a (runRemote run owner body a) s =
      (Turn.take (bodyInCopy run owner body) a s).finish s.scope.inTry := by
  have hcopy := runRemote_eq_finish hrun owner body a (s := s.copyFor a) rfl
  have hkept := (posture_bodyFor hrun owner body a (s.copyFor a) trivial).kept
  unfold Turn.take at hcopy ⊢
  split at hcopy
  · rw [if_pos ‹_›]
    exact inCopy_ok hcopy
  · rw [if_neg ‹_›, bodyInCopy]
    cases h : bodyFor run owner body a (s.copyFor a) with
    | ok v t =>
      rw [h] at hcopy
      rw [inCopy_ok h]
      exact inCopy_ok hcopy
    | error e t =>
      rw [after_error h] at hkept
      rw [h] at hcopy
      rw [inCopy_error h]
      cases e with
      | error e =>
        rw [Turn.ofRun, Turn.finish_raised] at hcopy ⊢
        have htry : (s.copyFor a).scope.inTry = s.scope.inTry := rfl
        rw [htry] at hcopy
        split at hcopy
        · rw [if_pos ‹_›]
          exact inCopy_error hcopy
        · rw [if_neg ‹_›, inCopy_ok hcopy, State.tell, State.tell,
            Scope.failure_congr (t := t.scope) hkept.1]
          rfl
      | outOfFuel => exact inCopy_error hcopy

end

namespace Turn

theorem take_target (x : AgentRef → Exec Value) (a : AgentRef) (s : State) :
    (take x a s).target = a := by
  unfold take ofRun
  split
  · rfl
  · split <;> rfl

theorem take_before (x : AgentRef → Exec Value) (a : AgentRef) (s : State) :
    (take x a s).before = s := by
  unfold take ofRun
  split
  · rfl
  · split <;> rfl

theorem posture_take {x : AgentRef → Exec Value} {a : AgentRef} (hx : posture.Safe (x a))
    (s : State) : posture.keeps s (take x a s).after := by
  have hkept := (hx s trivial).kept
  unfold take
  split
  · exact ⟨rfl, rfl⟩
  · cases h : x a s with
    | ok v t => rwa [after_ok h] at hkept
    | error e t =>
      rw [after_error h] at hkept
      cases e <;> exact hkept

variable {inTry : Bool} {τ : Turn}

/-- What the dispatch adds is no change of the scope. -/
theorem next_scope : (τ.next inTry).scope = τ.after.scope := by
  unfold next
  split
  · split <;> rfl
  · rfl

theorem next_cancelled : (τ.next inTry).machine.cancelled = τ.after.machine.cancelled := by
  unfold next
  split
  · split <;> rfl
  · rfl

/-- Either the error of the turn unwinds, or there is a result. -/
theorem outcome_cases (inTry : Bool) (τ : Turn) :
    (∃ e, inTry = true ∧ τ.error? = some e ∧ τ.outcome inTry = .error e) ∨
      ((inTry && τ.error?.isSome) = false ∧ τ.outcome inTry = .ok τ.result) := by
  obtain ⟨a, s, ending, t⟩ := τ
  cases ending with
  | raised e =>
    cases inTry with
    | true => exact .inl ⟨e, rfl, rfl, rfl⟩
    | false => exact .inr ⟨rfl, rfl⟩
  | _ => exact .inr ⟨Bool.and_false inTry, rfl⟩

theorem finish_of_ok {r : RemoteResult} (hτ : τ.ending ≠ .unfinished)
    (h : τ.outcome inTry = .ok r) : τ.finish inTry = .ok r (τ.next inTry) := by
  unfold finish
  rw [h]
  cases hend : τ.ending with
  | unfinished => exact absurd hend hτ
  | _ => rfl

theorem finish_of_error {e : ExecError} (hτ : τ.ending ≠ .unfinished)
    (h : τ.outcome inTry = .error e) : τ.finish inTry = .error (.error e) (τ.next inTry) := by
  unfold finish
  rw [h]
  cases hend : τ.ending with
  | unfinished => exact absurd hend hτ
  | _ => rfl

end Turn

end Habitat
