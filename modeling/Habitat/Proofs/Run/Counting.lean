import Habitat.Run.Loop
import Habitat.Proofs.Run.Discipline
import Mathlib.Data.Int.Order.Basic

/-!
# Counting loops

The values of a loop over integers are an arithmetic progression. `Range.values` gives it over
unbounded integers; the counter of a loop has 64 bits, and the loop ends where they do not hold the
next number.

A loop does nothing but its iterations. `Passes` says that there is one for each value of a list,
each going on to the next, and `EndsAt` that an iteration is the last one. Neither mentions the
counter.

* `Walk`: the numbers that a counter takes. `exists_walk` finds them: the way ahead shrinks by the
  stride, as in a division.
* `Walk.visits`: a loop follows the walk of its counter.
* `counting_follows_progression`: a loop over integers follows the progression, or ends at one of
  its iterations.
-/
namespace Habitat

/-! ## Progressions -/

/-- Words hold one zero. -/
theorem toInt_ne_zero {s : Int64} (h : s ≠ 0) : s.toInt ≠ 0 :=
  fun h0 => h (Int64.toInt_inj.mp (h0.trans Int64.toInt_zero.symm))

namespace Range

/-- What a counter moves by: the step, or one towards the last value. -/
def stride (r : Range Int64) : Int :=
  match r.step with
  | some s => s.toInt
  | none => if r.stop.toInt < r.start.toInt then -1 else 1

/-- How many values there are: none if the stride points away from the last one. -/
def count (r : Range Int64) : Nat :=
  let span := r.stop.toInt - r.start.toInt
  if span * r.stride < 0 then 0 else span.natAbs / r.stride.natAbs + 1

/-- The first value and those that follow it. -/
def values (r : Range Int64) : List Int :=
  (List.range r.count).map fun i : Nat => r.start.toInt + i * r.stride

example : (⟨7, 0, some (-3)⟩ : Range Int64).values = [7, 4, 1] := by decide

example : (⟨Int64.maxValue - 1, Int64.maxValue, some 5⟩ : Range Int64).values =
    [9223372036854775806] := by decide

/-- The stride, as the integer in a word that a counter moves by. -/
theorem toInt_step (r : Range Int64) :
    (r.step.getD (if decide (r.stop < r.start) then -1 else 1)).toInt = r.stride := by
  unfold stride
  cases r.step with
  | some s => rfl
  | none =>
    simp only [Option.getD_none, decide_eq_true_eq, Int64.lt_iff_toInt_lt]
    split <;> rfl

/-- A single value is first and last. -/
theorem values_of_same {r : Range Int64} (h : r.start = r.stop) :
    r.values = [r.start.toInt] := by
  simp [values, count, h]

/-- A step that points up where the last value is below, or down where it is above, makes no
value. -/
theorem values_of_away {r : Range Int64} {s : Int64} (hne : r.start ≠ r.stop)
    (hstep : r.step = some s) (hzero : s ≠ 0) (h : r.stop < r.start ↔ 0 < s) :
    r.values = [] := by
  have hstride : r.stride = s.toInt := by rw [stride, hstep]
  rw [Int64.lt_iff_toInt_lt, Int64.lt_iff_toInt_lt, Int64.toInt_zero] at h
  have hne : r.start.toInt ≠ r.stop.toInt := mt Int64.toInt_inj.mp hne
  have hzero := toInt_ne_zero hzero
  have hneg : (r.stop.toInt - r.start.toInt) * r.stride < 0 := by
    rw [Int.mul_neg_iff, hstride]
    omega
  simp [values, count, hneg]

end Range

/-! ## Iterations -/

/-- The start of an iteration: groups of values are held meanwhile, and the loop variable is in a
frame of its own. -/
def State.entering (s : State) (groups : List (List Value)) (var : Option String) (x : Value) :
    State :=
  let t := Exec.pushFrame "loop" none
    { s with machine := { s.machine with held := groups ++ s.machine.held } }
  match var with
  | some name => { t with scope := t.scope.declare name x }
  | none => t

/-- The end of an iteration: the frame and the groups of values are dropped. -/
def State.leaving (s : State) (groups : List (List Value)) : State :=
  ⟨s.scope.pop, { s.machine with held := s.machine.held.drop groups.length }⟩

/-- The state after an owner has cleared its signal. -/
def State.clearing (s : State) (owned : Flow) : State :=
  { s with scope := { s.scope with flow := s.scope.flow.clear owned } }

/-- Whether a loop goes on after its body: no signal ends it, and the run was not cancelled. -/
def State.goesOn (s : State) : Bool :=
  !s.scope.flow.terminatesLoop && !s.machine.cancelled

/-- The body sees the value of the iteration in the loop variable. -/
theorem State.getVar_entering (s : State) (groups : List (List Value)) (name : String)
    (x : Value) : (s.entering groups (some name) x).scope.getVar name = some x := by
  simp [entering, Exec.pushFrame, Scope.push, Scope.declare, Scope.getVar, Frame.declare,
    Frame.putVar, Frame.get?]

namespace Exec

section
variable (run : Sequence → Exec Value) (var : Option String) (body : Sequence)

/-- What an iteration may hold: the value of the one before. -/
def Keeps (groups : List (List Value)) (last : Value) : Prop := groups = [] ∨ groups = [[last]]

/-- Iterations for all values of a list, each of which goes on: from the value of the iteration
before and a state, to the value of the last iteration and a state. -/
inductive Passes : List Value → Value → State → Value → State → Prop
  | nil (last : Value) (s : State) : Passes [] last s last s
  | cons {x v w last : Value} {xs : List Value} {groups : List (List Value)} {s t u : State} :
      Keeps groups last → run body (s.entering groups var x) = .ok v t → t.goesOn = true →
      Passes xs v ((t.clearing .skip).leaving groups) w u → Passes (x :: xs) last s w u

/-- An iteration that ends its loop, by a signal or by an error, and the result of the loop. -/
inductive EndsAt (x last : Value) (s : State) : EStateM.Result Fault State Value → Prop
  | signal {groups : List (List Value)} {v : Value} {t : State} :
      Keeps groups last → run body (s.entering groups var x) = .ok v t → t.goesOn = false →
      EndsAt x last s (.ok v ((t.clearing .skip).leaving groups))
  | error {groups : List (List Value)} {e : Fault} {t : State} :
      Keeps groups last → run body (s.entering groups var x) = .error e t →
      EndsAt x last s (.error e (t.leaving groups))

/-- A loop visits the values of a list in order, and either passes them all or ends at one. -/
def Visits (xs : List Value) (last : Value) (s : State)
    (result : EStateM.Result Fault State Value) : Prop :=
  (∃ v t, Passes run var body xs last s v t ∧ result = .ok v t) ∨
  ∃ before x after v t, xs = before ++ x :: after ∧ Passes run var body before last s v t ∧
    EndsAt run var body x v t result

end

section
variable {run : Sequence → Exec Value} {var : Option String} {body : Sequence}

theorem Visits.nil (last : Value) (s : State) :
    Visits run var body [] last s (.ok last s) :=
  .inl ⟨last, s, .nil last s, rfl⟩

theorem Visits.ends {x last : Value} {xs : List Value} {s : State}
    {result : EStateM.Result Fault State Value} (h : EndsAt run var body x last s result) :
    Visits run var body (x :: xs) last s result :=
  .inr ⟨[], x, xs, last, s, rfl, .nil last s, h⟩

theorem Visits.cons {x v last : Value} {xs : List Value} {groups : List (List Value)}
    {s t : State} {result : EStateM.Result Fault State Value} (hkeeps : Keeps groups last)
    (hrun : run body (s.entering groups var x) = .ok v t) (hon : t.goesOn = true)
    (h : Visits run var body xs v ((t.clearing .skip).leaving groups) result) :
    Visits run var body (x :: xs) last s result := by
  rcases h with ⟨w, u, hpass, rfl⟩ | ⟨before, y, after, w, u, rfl, hpass, hend⟩
  · exact .inl ⟨w, u, .cons hkeeps hrun hon hpass, rfl⟩
  · exact .inr ⟨x :: before, y, after, w, u, rfl, .cons hkeeps hrun hon hpass, hend⟩

/-- One iteration is one run of the body. -/
theorem iterate_cases (run : Sequence → Exec Value) (var : Option String) (body : Sequence)
    (x : Value) (s : State) :
    (∃ v t, run body (s.entering [] var x) = .ok v t ∧
      iterate run var body x s = .ok (v, t.goesOn) ((t.clearing .skip).leaving [])) ∨
    ∃ e t, run body (s.entering [] var x) = .error e t ∧
      iterate run var body x s = .error e (t.leaving []) := by
  have hiterate : iterate run var body x s =
      bracket (·.entering [] var x) (·.leaving [])
        (run body >>= fun v => takeFlow .skip >>= fun f => machine >>= fun m =>
          pure (v, !f.terminatesLoop && !m.cancelled)) s := by
    cases var <;> rfl
  rw [hiterate]
  cases h : run body (s.entering [] var x) with
  | ok v t => exact .inl ⟨v, t, rfl, bracket_ok (bind_ok h)⟩
  | error e t => exact .inr ⟨e, t, rfl, bracket_error (bind_error h)⟩

theorem held_iterate_cases (run : Sequence → Exec Value) (var : Option String) (body : Sequence)
    (x last : Value) (s : State) :
    (∃ v t, run body (s.entering [[last]] var x) = .ok v t ∧
      withHeld [last] (iterate run var body x) s =
        .ok (v, t.goesOn) ((t.clearing .skip).leaving [[last]])) ∨
    ∃ e t, run body (s.entering [[last]] var x) = .error e t ∧
      withHeld [last] (iterate run var body x) s = .error e (t.leaving [[last]]) := by
  have hentering : (s.holding [last]).entering [] var x = s.entering [[last]] var x := rfl
  have hleaving (t : State) : { t.leaving [] with
      machine := { t.machine with held := t.machine.held.tail } } = t.leaving [[last]] := by
    simp [State.leaving]
  rcases iterate_cases run var body x (s.holding [last]) with ⟨v, t, hrun, h⟩ | ⟨e, t, hrun, h⟩
  · exact .inl ⟨v, t, hrun, (bracket_ok h).trans (congrArg _ (hleaving _))⟩
  · exact .inr ⟨e, t, hrun, (bracket_error h).trans (congrArg _ (hleaving _))⟩

/-! ## Counters -/

/-- The numbers that a counter takes from one on: each is in range and the next of the one before
it. -/
inductive Walk {α : Type} (inRange : α → Bool) (next : α → Option α) : α → List α → Prop
  | out {x : α} : inRange x = false → Walk inRange next x []
  | last {x : α} : inRange x = true → next x = none → Walk inRange next x [x]
  | step {x y : α} {ys : List α} : inRange x = true → next x = some y → Walk inRange next y ys →
      Walk inRange next x (x :: ys)

section
variable {α : Type} {inRange : α → Bool} {next : α → Option α} {value : α → Value}

/-- A number in range is visited, and the rest of the loop follows unless this iteration ends it. -/
theorem visits_repeatFrom_succ {x : α} {xs : List Value} {n : Nat} (hin : inRange x = true)
    (hrest : ∀ v t, Visits run var body xs v t ((match next x with
      | some y => repeatFrom inRange next (fun x => iterate run var body (value x)) n y v
      | none => pure v) t)) (last : Value) (s : State) :
    Visits run var body (value x :: xs) last s
      (repeatFrom inRange next (fun x => iterate run var body (value x)) (n + 1) x last s) := by
  simp only [repeatFrom, hin, if_true]
  rcases held_iterate_cases run var body (value x) last s with ⟨v, t, hrun, h⟩ | ⟨e, t, hrun, h⟩
  · rw [bind_ok h]
    cases hon : t.goesOn with
    | true => exact .cons (.inr rfl) hrun hon (hrest v _)
    | false => exact .ends (.signal (.inr rfl) hrun hon)
  · rw [bind_error h]
    exact .ends (.error (.inr rfl) hrun)

/-- A loop follows the walk of its counter, given fuel for one turn more than the walk is long. -/
theorem Walk.visits {x : α} {xs : List α} (h : Walk inRange next x xs) {n : Nat}
    (hn : xs.length < n) (last : Value) (s : State) :
    Visits run var body (xs.map value) last s
      (repeatFrom inRange next (fun x => iterate run var body (value x)) n x last s) := by
  induction h generalizing n last s with
  | out hout =>
    cases n with
    | zero => cases hn
    | succ n =>
      simp only [repeatFrom, hout]
      exact .nil last s
  | last hin hnext =>
    cases n with
    | zero => cases hn
    | succ n =>
      refine visits_repeatFrom_succ hin (fun v t => ?_) last s
      rw [hnext]
      exact .nil v t
  | step hin hnext _ ih =>
    cases n with
    | zero => cases hn
    | succ n =>
      refine visits_repeatFrom_succ hin (fun v t => ?_) last s
      rw [hnext]
      exact ih (Nat.lt_of_succ_lt_succ hn) v t

end

/-- A counter that moves by a stride in a word, and how far it has to go: less than nothing out of
range. It finds no next number only where it would leave the range with it. -/
structure Counter (inRange : Int64 → Bool) (next : Int64 → Option Int64) where
  stride : Int
  ahead : Int64 → Int
  stride_ne : stride ≠ 0
  inRange_iff : ∀ x, inRange x = true ↔ 0 ≤ ahead x
  next_some : ∀ {x y}, next x = some y →
    y.toInt = x.toInt + stride ∧ ahead y = ahead x - stride.natAbs
  next_none : ∀ {x}, next x = none → ahead x < stride.natAbs

/-- The walk of a counter is a progression. Its length is a quotient: the induction takes the
stride off the way ahead, as often as that is possible. -/
theorem Counter.exists_walk {inRange : Int64 → Bool} {next : Int64 → Option Int64}
    (c : Counter inRange next) {n : Nat} {x : Int64} (hn : c.ahead x + c.stride.natAbs = n) :
    ∃ xs, Walk inRange next x xs ∧
      xs.map Int64.toInt =
        (List.range (n / c.stride.natAbs)).map (fun i : Nat => x.toInt + i * c.stride) ∧
      ∀ y ∈ xs, 0 ≤ c.ahead y ∧ c.ahead y ≤ c.ahead x := by
  have hpos : 0 < c.stride.natAbs := Int.natAbs_pos.mpr c.stride_ne
  induction n using Nat.strongRecOn generalizing x with
  | ind n ih =>
    by_cases hle : c.stride.natAbs ≤ n
    case neg =>
      have hout : inRange x = false := by
        rw [← Bool.not_eq_true, c.inRange_iff]
        omega
      exact ⟨[], .out hout, by rw [Nat.div_eq_of_lt (Nat.not_le.mp hle)]; rfl, nofun⟩
    have hin : inRange x = true := (c.inRange_iff x).mpr (by omega)
    rw [Nat.div_eq_sub_div hpos hle, List.range_succ_eq_map]
    cases hnext : next x with
    | none =>
      have hlast : n - c.stride.natAbs < c.stride.natAbs := by
        have := c.next_none hnext
        omega
      refine ⟨[x], .last hin hnext, by simp [Nat.div_eq_of_lt hlast], ?_⟩
      simpa using (c.inRange_iff x).mp hin
    | some y =>
      obtain ⟨hy, hahead⟩ := c.next_some hnext
      obtain ⟨ys, hwalk, hvalues, hbounds⟩ :=
        ih (n - c.stride.natAbs) (by omega) (x := y) (by omega)
      refine ⟨x :: ys, .step hin hnext hwalk, ?_, ?_⟩
      · -- One stride further on, every index is one less.
        simp only [List.map_cons, List.map_map, hvalues, Int.natCast_zero, Int.zero_mul,
          Int.add_zero]
        refine congrArg _ (List.map_congr_left fun i _ => ?_)
        simp only [Function.comp_apply, hy, Nat.succ_eq_add_one, Int.natCast_add, Int.add_mul]
        omega
      · intro z hz
        rcases List.mem_cons.mp hz with rfl | hz
        · exact ⟨(c.inRange_iff z).mp hin, Int.le_refl _⟩
        · have := hbounds z hz
          omega

/-- Words hold the sum of two integers, or it is beyond one of their ends. -/
theorem nextInt_cases (step x : Int64) :
    (∃ y, nextInt step x = some y ∧ y.toInt = x.toInt + step.toInt) ∨
    nextInt step x = none ∧ (x.toInt + step.toInt < -(Decimal.signedEnd : Int) ∨
      Decimal.signedEnd ≤ x.toInt + step.toInt) := by
  by_cases h : -(Decimal.signedEnd : Int) ≤ x.toInt + step.toInt ∧
      x.toInt + step.toInt < Decimal.signedEnd
  · refine .inl ⟨Int64.ofInt (x.toInt + step.toInt), ?_, ?_⟩
    · rw [nextInt, Decimal.toInt64?, if_pos h]
    · rw [Decimal.signedEnd] at h
      exact Int64.toInt_ofInt_of_le (by omega) (by omega)
  · refine .inr ⟨?_, by omega⟩
    rw [nextInt, Decimal.toInt64?, if_neg h]

/-- The counter of a loop whose step points towards the last value, down or up. The sum of two
integers that words do not hold is beyond the last value, which they do hold. -/
def counterTo (down : Bool) (stop step : Int64)
    (h : if down then step.toInt < 0 else 0 < step.toInt) :
    Counter (fun x => if down then decide (stop ≤ x) else decide (x ≤ stop)) (nextInt step) where
  stride := step.toInt
  ahead x := if down then x.toInt - stop.toInt else stop.toInt - x.toInt
  stride_ne := by split at h <;> omega
  inRange_iff x := by split <;> simp [Int64.le_iff_toInt_le]
  next_some {x y} hy := by
    rcases nextInt_cases step x with ⟨z, hz, hsum⟩ | ⟨hz, -⟩
    · cases hy.symm.trans hz
      cases down <;> simp only [Bool.false_eq_true, if_false, if_true] at h ⊢ <;> omega
    · cases hy.symm.trans hz
  next_none {x} hx := by
    rcases nextInt_cases step x with ⟨z, hz, -⟩ | ⟨-, hsum⟩
    · cases hx.symm.trans hz
    · rw [Decimal.signedEnd] at hsum
      have := stop.le_toInt
      have := stop.toInt_lt
      have := x.le_toInt
      have := x.toInt_lt
      cases down <;> simp only [Bool.false_eq_true, if_false, if_true] at h ⊢ <;> omega

end

/-! ## Loops over integers -/

/-- A step that is not zero and does not point away points towards the last value. -/
theorem stride_towards {r : Range Int64} (hstep : r.step ≠ some 0)
    (h : ¬r.step.any (fun s => decide (r.stop < r.start) == decide (0 < s)) = true) :
    if decide (r.stop < r.start) then r.stride < 0 else 0 < r.stride := by
  unfold Range.stride
  cases hs : r.step with
  | none =>
    simp only [decide_eq_true_eq, Int64.lt_iff_toInt_lt]
    split <;> decide
  | some s =>
    have hzero : s.toInt ≠ 0 := toInt_ne_zero fun h0 => hstep (by rw [hs, h0])
    simp only [hs, Option.any_some, beq_iff_eq, decide_eq_decide, Int64.lt_iff_toInt_lt,
      Int64.toInt_zero] at h
    simp only [decide_eq_true_eq, Int64.lt_iff_toInt_lt]
    split <;> omega

/-- Towards the last value, the counter of a loop takes the values of the progression. -/
theorem exists_walk_of_towards {r : Range Int64}
    (h : if decide (r.stop < r.start) then r.stride < 0 else 0 < r.stride) :
    ∃ xs, Walk
        (fun x => if decide (r.stop < r.start) then decide (r.stop ≤ x) else decide (x ≤ r.stop))
        (nextInt (r.step.getD (if decide (r.stop < r.start) then -1 else 1))) r.start xs ∧
      xs.map Int64.toInt = r.values ∧
      ∀ x ∈ xs, min r.start.toInt r.stop.toInt ≤ x.toInt ∧
        x.toInt ≤ max r.start.toInt r.stop.toInt := by
  have hstride := r.toInt_step
  let c := counterTo (decide (r.stop < r.start)) r.stop _ (hstride ▸ h)
  have hahead (x : Int64) : c.ahead x = if r.stop.toInt < r.start.toInt
      then x.toInt - r.stop.toInt else r.stop.toInt - x.toInt := by
    simp only [c, counterTo, decide_eq_true_eq, Int64.lt_iff_toInt_lt]
  simp only [decide_eq_true_eq, Int64.lt_iff_toInt_lt] at h
  have hcount : r.count =
      ((r.stop.toInt - r.start.toInt).natAbs + r.stride.natAbs) / r.stride.natAbs := by
    rw [Nat.add_div_right _ (by split at h <;> omega), Range.count, if_neg]
    rw [Int.mul_neg_iff]
    split at h <;> omega
  obtain ⟨xs, hwalk, hvalues, hbounds⟩ := c.exists_walk (x := r.start)
    (n := (r.stop.toInt - r.start.toInt).natAbs + r.stride.natAbs) (by
      rw [hahead, show c.stride = r.stride from hstride]
      split <;> omega)
  refine ⟨xs, hwalk, ?_, fun x hx => ?_⟩
  · rw [hvalues, Range.values, hcount, show c.stride = r.stride from hstride]
  · have hx := hbounds x hx
    rw [hahead, hahead] at hx
    split at hx <;> omega

/-- A loop over integers follows its values, which are the progression. -/
theorem visits_countInts (run : Sequence → Exec Value) (var : Option String) (body : Sequence)
    {r : Range Int64} (hstep : r.step ≠ some 0) (s : State) :
    ∃ xs : List Int64, xs.map Int64.toInt = r.values ∧
      (∀ x ∈ xs, min r.start.toInt r.stop.toInt ≤ x.toInt ∧
        x.toInt ≤ max r.start.toInt r.stop.toInt) ∧
      Visits run var body (xs.map .int) .nil s (countInts (iterate run var body) r s) := by
  simp only [countInts, hstep, if_false]
  split
  · next hsame =>
    refine ⟨[r.start], (r.values_of_same hsame).symm, by simp [hsame], ?_⟩
    rcases iterate_cases run var body (.int r.start) s with ⟨v, t, hrun, h⟩ | ⟨e, t, hrun, h⟩
    · rw [bind_ok h]
      cases hon : t.goesOn with
      | true => exact .cons (.inl rfl) hrun hon (.nil v _)
      | false => exact .ends (.signal (.inl rfl) hrun hon)
    · rw [bind_error h]
      exact .ends (.error (.inl rfl) hrun)
  next hne =>
  split
  · next haway =>
    obtain ⟨n, hn, haway⟩ := (Option.any_eq_true ..).mp haway
    rw [beq_iff_eq, decide_eq_decide] at haway
    refine ⟨[], ?_, nofun, .nil .nil s⟩
    exact (r.values_of_away hne hn (fun h0 => hstep (hn.trans (congrArg some h0))) haway).symm
  · next htowards =>
    obtain ⟨xs, hwalk, hvalues, hbounds⟩ := exists_walk_of_towards (stride_towards hstep htowards)
    refine ⟨xs, hvalues, hbounds, hwalk.visits ?_ .nil s⟩
    have hlength : xs.length = r.count := by simpa [Range.values] using congrArg List.length hvalues
    have := Nat.div_le_self (r.stop.toInt - r.start.toInt).natAbs r.stride.natAbs
    rw [hlength, Range.count]
    split <;> omega

end Exec

open Exec

/-- A loop over integers visits an arithmetic progression, computed over unbounded integers, whose
values are all between the bounds. It shows them to its body in order, in the loop variable, and
stops before the last of them only where an iteration ends it. A step of zero is an error, before
any iteration. -/
theorem counting_follows_progression (run : Sequence → Exec Value) (var : Option String)
    (body : Sequence) (r : Range Int64) (s : State) :
    (r.step = some 0 → countInts (iterate run var body) r s = .error (.error .zeroStep) s) ∧
    (r.step ≠ some 0 → ∃ xs : List Int64, xs.map Int64.toInt = r.values ∧
      (∀ x ∈ xs, min r.start.toInt r.stop.toInt ≤ x.toInt ∧
        x.toInt ≤ max r.start.toInt r.stop.toInt) ∧
      (∀ name, var = some name → ∀ (t : State) (groups : List (List Value)) (x : Value),
        (t.entering groups var x).scope.getVar name = some x) ∧
      Visits run var body (xs.map .int) .nil s (countInts (iterate run var body) r s)) := by
  refine ⟨fun hzero => ?_, fun hstep => ?_⟩
  · simp only [countInts, hzero, if_true]
    rfl
  · obtain ⟨xs, hvalues, hbounds, hvisits⟩ := visits_countInts run var body hstep s
    refine ⟨xs, hvalues, hbounds, ?_, hvisits⟩
    rintro name rfl t groups x
    exact t.getVar_entering groups name x

/-- A loop down to zero by threes, and one by nothing. -/
theorem counting_follows_progression_down :
    let visit := iterate (fun _ => pure .nil) (some "i") []
    let s := State.fresh ⟨"world", none, [], false, [], []⟩
    (∃ xs : List Int64, xs.map Int64.toInt = [7, 4, 1] ∧
      Visits (fun _ => pure .nil) (some "i") [] (xs.map .int) .nil s
        (countInts visit ⟨7, 0, some (-3)⟩ s)) ∧
    countInts visit ⟨7, 7, some 0⟩ s = .error (.error .zeroStep) s := by
  intro visit s
  refine ⟨?_, (counting_follows_progression _ _ _ _ s).1 rfl⟩
  obtain ⟨xs, hvalues, -, -, hvisits⟩ := (counting_follows_progression
    (fun _ => pure .nil) (some "i") [] ⟨7, 0, some (-3)⟩ s).2 (by decide)
  exact ⟨xs, hvalues.trans (by decide), hvisits⟩

end Habitat
