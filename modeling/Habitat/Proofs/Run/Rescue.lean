import Habitat.Proofs.Run.Signal

/-!
# Errors and signals exclude each other

A step that fails leaves no signal behind, if none was pending when it started. So a rescue is
never skipped: unless the run was cancelled, the first statement of the rescue runs as soon as the
body has failed, in a frame that knows the message of the error.

* `Settles.flow_of_error`: the signal after an error.
* `runAttempt_rescue`: what a failed body leads to.
* `errors_exclude_signals`: both, for statements and sequences of any depth.
-/
namespace Habitat

open Exec Discipline

theorem Settles.flow_of_error {α : Type} {x : Exec α} {s t : State} {Q : α → Flow → Prop}
    {e : ExecError} (h : Settles x s Q) (hx : x s = .error (.error e) t) :
    t.scope.flow = .normal := h.2 e t hx

namespace Exec

variable {α : Type}

/-- Two steps that do the same in the new frame do the same in a frame. -/
theorem withFrame_congr {owner : String} {caller : Option AgentRef} {x y : Exec α} {s : State}
    (h : x (pushFrame owner caller s) = y (pushFrame owner caller s)) :
    withFrame owner caller x s = withFrame owner caller y s := by
  simp only [withFrame, bracket, h]

/-- Where nothing is pending, a sequence runs its first statement. -/
theorem steps_cons {step : Statement → Exec Value} {st : Statement} {rest : Sequence}
    {last : Value} {s : State} (hs : s.scope.flow = .normal) (hc : s.machine.cancelled = false) :
    steps step (st :: rest) last s = (do
      traceStatement st
      let v ← withHeld [last] (step st)
      recordValue v
      steps step rest v) s := by
  rw [steps, bind_ok (interrupted_of_normal hs), hc]
  rfl

/-- The error of a failed body is kept, and its rescue runs. -/
theorem runAttempt_rescue {run : Sequence → Exec Value} {body rescue : Sequence} {s t : State}
    {e : ExecError}
    (h : withTry (withFrame "try" none (run body))
      { s with scope := { s.scope with lastValue := .nil } } = .error (.error e) t) :
    runAttempt run body (some rescue) s =
      withFrame "catch" none (do
        declare "error" (.str e.message)
        run rescue) { t with scope := { t.scope with currentError := some e } } := by
  unfold runAttempt
  rw [bind_ok (x := recordValue .nil) rfl, bind_ok (attempt_error h)]
  exact bind_ok rfl

end Exec

/-- From a scope without a pending signal: a statement or sequence that fails leaves none, and when
the body of a `try` fails and the run is not cancelled, the first statement of its rescue runs. -/
theorem errors_exclude_signals (n : Nat) {s : State} (hs : s.scope.flow = .normal) :
    (∀ st e t, statement n (sequence n) st s = .error (.error e) t → t.scope.flow = .normal) ∧
    (∀ body e t, sequence n body s = .error (.error e) t → t.scope.flow = .normal) ∧
    ∀ body st rest e t,
      withTry (withFrame "try" none (sequence (n + 1) body))
        { s with scope := { s.scope with lastValue := .nil } } = .error (.error e) t →
      t.machine.cancelled = false →
      statement (n + 1) (sequence (n + 1)) (.attempt body (some (st :: rest))) s =
        withFrame "catch" none (do
          declare "error" (.str e.message)
          traceStatement st
          let v ← withHeld [.nil] (statement n (sequence n) st)
          recordValue v
          steps (statement n (sequence n)) rest v)
          { t with scope := { t.scope with currentError := some e } } := by
  have T : Tidy (sequence n) := tidy_sequenceWith runNative_tame n
  refine ⟨?_, ?_, ?_⟩
  · intro st e t ht
    exact (clean_statementWith T runNative_tame n st s hs).flow_of_error ht
  · intro body e t ht
    exact (T.clean body s hs).flow_of_error ht
  · intro body st rest e t ht hc
    have hclean := (tidy_sequenceWith runNative_tame (n + 1)).clean body
    have hbody : Settles (withTry (withFrame "try" none (sequence (n + 1) body)))
        { s with scope := { s.scope with lastValue := .nil } } fun _ _ => True :=
      .withTry (.withFrame (hclean _ hs))
    have hflow : t.scope.flow = .normal := hbody.flow_of_error ht
    refine (runAttempt_rescue ht).trans (withFrame_congr ?_)
    rw [bind_ok (x := declare "error" (.str e.message)) rfl,
      bind_ok (x := declare "error" (.str e.message)) rfl]
    refine steps_cons ?_ ?_
    · exact (Scope.flow_declare _ _ _).trans hflow
    · exact (pushFrame_cancelled "catch" none _).trans hc

/-- A `try` whose body raises an error after a loop that was left, with a rescue that returns. -/
theorem errors_exclude_signals_raise :
    let s := State.fresh ⟨"world", none, [], false, [], []⟩
    let body : Sequence := [.loop none (.times (.constant 2)) [.leave], .raise (.str "lost")]
    s.scope.flow = .normal ∧
      ∃ t, withTry (withFrame "try" none (sequence 3 body)) s = .error (.error (.raised "lost")) t ∧
        t.machine.cancelled = false ∧ t.scope.flow = .normal ∧
        statement 3 (sequence 3) (.attempt body (some [.yield (some (.int 7))])) s =
          withFrame "catch" none (do
            declare "error" (.str "lost")
            traceStatement (.yield (some (.int 7)))
            let v ← withHeld [.nil] (statement 2 (sequence 2) (.yield (some (.int 7))))
            recordValue v
            steps (statement 2 (sequence 2)) [] v)
            { t with scope := { t.scope with currentError := some (.raised "lost") } } := by
  intro s body
  obtain ⟨-, -, hrescue⟩ := errors_exclude_signals 2 (s := s) rfl
  refine ⟨rfl, _, rfl, rfl, rfl, ?_⟩
  exact hrescue body (.yield (some (.int 7))) [] (.raised "lost") _ rfl rfl

end Habitat
