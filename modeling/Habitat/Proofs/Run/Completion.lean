import Habitat.Proofs.Run.Recording

/-!
# The value of a swallowed error

Without a rescue, a `try` whose body fails swallows the error, and its value is what the slot of
the last statement holds. That slot was emptied when the `try` began, so it holds the value of the
statement that completed last in the body, at any depth. But a `try` inside the body empties the
slot as well. If it fails before any statement has completed in it, the value of the statement
that completed before it is forgotten, and that is the only way to lose it.

* `Recorded.guarded`: the body of a `try`, with the marks that it leaves.
* `Exec.runAttempt_swallows`: the value is what the slot holds after these marks.
* `value_of_swallowed_error`: when that is the value of the statement that completed last.
-/
namespace Habitat

open Exec Discipline

theorem idle_runNative (native : Native) (args : BoundArguments) :
    idle.Safe (runNative native args) := by
  have L := idle_lawful
  cases native with
  | echo => exact L.safe_allocate _
  | whoami => exact L.safe_scope.bind L fun s => L.safe_pure _
  | finish => exact (idle_setFlow .yield).bind L fun _ => L.safe_scope.bind L fun s => L.safe_pure _
  | dispose => exact (idle_setFlow .dispose).bind L fun _ => L.safe_pure _
  | cancel => exact Rel.bind L (fun _ _ => At.ok rfl rfl) fun _ => L.safe_pure _
  | fail message => exact L.safe_fail fun _ => nofun
  | refuse => exact L.safe_fail fun _ => nofun

namespace Recorded

/-- The native actions that the interpreter knows; no statement completes in them. -/
def known (native : Native) (args : BoundArguments) : Recorded Value :=
  silent (runNative native args) (idle_runNative native args)

theorem handlers_known : handlers known = runNative := rfl

/-- The body of a `try`, with its marks. -/
def guarded (natives : Native → BoundArguments → Recorded Value) (n : Nat) (body : Sequence) :
    Recorded Value := withTry (withFrame "try" none (sequenceWith natives n body))

end Recorded

/-- The state in which the body of a `try` starts: no statement has completed yet. -/
def State.trying (s : State) : State := { s with scope := { s.scope with lastValue := .nil } }

/-- The error of a body is swallowed, and the value is the one of the slot. -/
theorem Exec.runAttempt_swallows {run : Sequence → Exec Value} {body : Sequence} {s t : State}
    {e : ExecError} (h : withTry (withFrame "try" none (run body)) s.trying = .error (.error e) t) :
    runAttempt run body none s =
      .ok t.scope.lastValue { t with scope := { t.scope with currentError := some e } } := by
  unfold runAttempt
  rw [bind_ok (x := recordValue .nil) (t := s.trying) rfl, bind_ok (attempt_error h)]
  rfl

/-- A `try` without a rescue whose body fails ends well. Its value is the one of the statement that
completed last in the body, at any depth, nil if none did; only if a `try` has begun in the body
since then and nothing has completed in it, the value is nil instead. -/
theorem value_of_swallowed_error (natives : Native → BoundArguments → Recorded Value) (n : Nat)
    (body : Sequence) {s t : State} {e : ExecError}
    (h : withTry (withFrame "try" none (sequenceWith (Recorded.handlers natives) n body))
      s.trying = .error (.error e) t) :
    let ms := (Recorded.guarded natives n body).marks s.trying
    ∃ v u,
      statementWith (Recorded.handlers natives) n (sequenceWith (Recorded.handlers natives) n)
        (.attempt body none) s = .ok v u ∧
      (¬Mark.Forgets ms → v = Mark.lastDone ms) ∧
      (Mark.Forgets ms → v = .nil ∧ Mark.lastDone ms ≠ .nil) := by
  intro ms
  have hrun : (Recorded.guarded natives n body).run =
      withTry (withFrame "try" none (sequenceWith (Recorded.handlers natives) n body)) := by
    simp only [Recorded.guarded, Recorded.run_withTry, Recorded.run_withFrame,
      Recorded.run_sequenceWith]
  have hslot : t.scope.lastValue = Mark.slot .nil ms := by
    have := (Recorded.guarded natives n body).slot_marks s.trying
    rwa [hrun, after_error h] at this
  refine ⟨_, _, runAttempt_swallows h, ?_, ?_⟩
  · intro hms
    rw [hslot, Mark.slot_nil hms]
  · intro hms
    rw [hslot]
    exact Mark.slot_of_forgets hms .nil

/-- A statement completes with 4, and then a `try` fails in its rescue, before anything has
completed there. -/
theorem value_of_swallowed_error_rescue :
    let s := State.fresh ⟨"world", none, [], false, [], []⟩
    let body : Sequence := [.declare "x" (some (.int 4)),
      .attempt [.raise (.str "first")] (some [.raise (.str "second")])]
    let ms := (Recorded.guarded Recorded.known 2 body).marks s.trying
    (∃ t, withTry (withFrame "try" none (sequence 2 body)) s.trying =
      .error (.error (.raised "second")) t) ∧
    Mark.Forgets ms ∧ Mark.lastDone ms = .int 4 ∧
    ∃ u, statement 2 (sequence 2) (.attempt body none) s = .ok .nil u := by
  intro s body ms
  have hms : ms = [.done (.int 4), .tried] := by
    dsimp only [ms, s, body]
    rw [Recorded.guarded, Recorded.marks_withTry, Recorded.marks_withFrame, Recorded.sequenceWith,
      Recorded.marks_steps_of_value rfl rfl, Recorded.marks_steps_of_error rfl rfl]
    rfl
  have hforgets : Mark.Forgets ms := by
    have hne : Value.int 4 ≠ .nil := by
      intro h
      cases h
    rw [hms]
    exact ⟨[], .int 4, 0, hne, rfl⟩
  have hfails : error? (withTry (withFrame "try" none (sequence 2 body))) s.trying =
      some (.raised "second") := by
    dsimp only [s, body]
    rfl
  obtain ⟨t, ht⟩ := eq_error_of_error? hfails
  rw [Exec.sequence, ← Recorded.handlers_known] at ht
  obtain ⟨v, u, hv, -, hnil⟩ := value_of_swallowed_error Recorded.known 2 body ht
  obtain ⟨rfl, -⟩ := hnil hforgets
  rw [Recorded.handlers_known] at ht hv
  exact ⟨⟨t, ht⟩, hforgets, by rw [hms]; rfl, u, hv⟩

end Habitat
