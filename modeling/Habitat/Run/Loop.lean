import Habitat.Run.Exec
import Habitat.Statement.Basic

/-!
# Loops

All kinds of loops share one iteration: a frame, the loop variable, the body, and the end of a
pending `continue`. A loop ends early when any other signal is pending after an iteration or the
run was cancelled, and clears a `break` when it is done.

The value of an iteration is held until the next one has a value. A loop over a container holds the
container and the elements that are still to come.

Loops over numbers include both bounds. Without a step they count by one towards the last value; a
step that points away from it makes no iteration, and a step of zero is an error.
-/
namespace Habitat.Exec

/-- One iteration: the value of the body, and whether the loop goes on. -/
def iterate (run : Sequence → Exec Value) (var : Option String) (body : Sequence) (v : Value) :
    Exec (Value × Bool) :=
  withFrame "loop" none do
    store var v
    let last ← run body
    let f ← takeFlow .skip
    return (last, !f.terminatesLoop && !(← machine).cancelled)

/-- Iterates a number of times. -/
def repeatTimes (visit : Exec (Value × Bool)) : Nat → Value → Exec Value
  | 0, last => return last
  | n + 1, last => do
    let (v, more) ← withHeld [last] visit
    if more then repeatTimes visit n v else return v

/-- Iterates as long as a condition holds. -/
def repeatWhile (condition : Exec Bool) (visit : Exec (Value × Bool)) : Nat → Value → Exec Value
  | 0, _ => throw .outOfFuel
  | n + 1, last => do
    if ← condition then
      let (v, more) ← withHeld [last] visit
      if more then repeatWhile condition visit n v else return v
    else return last

/-- Iterates over values. -/
def repeatOver (visit : Value → Exec (Value × Bool)) : List Value → Value → Exec Value
  | [], last => return last
  | x :: rest, last => do
    let (v, more) ← withHeld (last :: rest) (visit x)
    if more then repeatOver visit rest v else return v

/-- Iterates from a number to the next, as long as they are in range. -/
def repeatFrom {α : Type} (inRange : α → Bool) (next : α → Option α)
    (visit : α → Exec (Value × Bool)) : Nat → α → Value → Exec Value
  | 0, _, _ => throw .outOfFuel
  | n + 1, x, last => do
    if inRange x then
      let (v, more) ← withHeld [last] (visit x)
      if more then
        match next x with
        | some y => repeatFrom inRange next visit n y v
        | none => return v
      else return v
    else return last

/-- The sum of two integers, if 64 bits hold it. -/
def nextInt (step x : Int64) : Option Int64 :=
  Decimal.toInt64? (x.toInt + step.toInt)

/-- Counts integers. There are never more iterations than integers between the bounds. -/
def countInts (visit : Value → Exec (Value × Bool)) (r : Range Int64) : Exec Value := do
  let descending := decide (r.stop < r.start)
  if r.step = some 0 then fail .zeroStep
  else if r.start = r.stop then return (← visit (.int r.start)).1
  else if r.step.any fun s => descending == decide (0 < s) then return .nil
  else
    let step := r.step.getD (if descending then -1 else 1)
    let inRange := fun x : Int64 => if descending then decide (r.stop ≤ x) else decide (x ≤ r.stop)
    let bound := (r.stop.toInt - r.start.toInt).natAbs + 2
    repeatFrom inRange (nextInt step) (fun x => visit (.int x)) bound r.start .nil

/-- Counts floats. -/
def countFloats (fuel : Nat) (visit : Value → Exec (Value × Bool)) (r : Range Float) :
    Exec Value := do
  let descending := decide (r.stop < r.start)
  if r.step.any (· == 0.0) then fail .zeroStep
  else if r.start == r.stop then return (← visit (.float r.start)).1
  else if r.step.any fun s => descending == decide (0.0 < s) then return .nil
  else
    let step := r.step.getD (if descending then -1.0 else 1.0)
    let inRange := fun x : Float => if descending then decide (r.stop ≤ x) else decide (x ≤ r.stop)
    repeatFrom inRange (fun x => some (x + step)) (fun x => visit (.float x)) fuel r.start .nil

/-- The value of a bound of the right kind of numbers. -/
def resolve {α : Type} (read : Value → Option α) : Bound α → Exec α
  | .constant a => return a
  | .dynamic e => do
    let v ← eval e
    match read v with
    | some a => return a
    | none =>
      fail (.invalidOperation "loop" (e.text ++ " (" ++ v.type.name ++ ") is not a valid bound"))

/-- The values of all bounds, from first to last to step. -/
def resolveRange {α : Type} (read : Value → Option α) (r : Range (Bound α)) :
    Exec (Range α) := do
  let start ← resolve read r.start
  let stop ← resolve read r.stop
  match r.step with
  | some s => return ⟨start, stop, some (← resolve read s)⟩
  | none => return ⟨start, stop, none⟩

/-- A number among the bounds of a loop. -/
def number (v : Value) : Exec Float := do
  match v.asFloat with
  | some x => return x
  | none => fail (.invalidOperation "loop" ((← text v) ++ " is not a number"))

/-- The bounds, if all of them are integers. -/
def intRange? (r : Range Value) : Option (Range Int64) := do
  let start ← intBound? r.start
  let stop ← intBound? r.stop
  match r.step with
  | some s => return ⟨start, stop, some (← intBound? s)⟩
  | none => return ⟨start, stop, none⟩

/-- Counts integers if all bounds are, and floats otherwise. -/
def countAny (fuel : Nat) (visit : Value → Exec (Value × Bool)) (r : Range Value) :
    Exec Value := do
  match intRange? r with
  | some r => countInts visit r
  | none =>
    let step ← match r.step with
      | some s => pure (some (← number s))
      | none => pure none
    let start ← number r.start
    let stop ← number r.stop
    countFloats fuel visit ⟨start, stop, step⟩

/-- The iterations of a loop. -/
def runKind (fuel : Nat) (visit : Value → Exec (Value × Bool)) : LoopKind → Exec Value
  | .times count => do
    let n ← resolve intBound? count
    repeatTimes (visit .nil) n.toInt.toNat .nil
  | .loopWhile condition =>
    repeatWhile (return (← eval condition).truthy) (visit .nil) fuel .nil
  | .each source => do
    let v ← eval source
    let vs := (← machine).store.elements v
    withHeld [v] (repeatOver visit vs .nil)
  | .intRange r => do countInts visit (← resolveRange intBound? r)
  | .floatRange r => do countFloats fuel visit (← resolveRange Value.asFloat r)
  | .anyRange r => do
    let start ← eval r.start
    let stop ← eval r.stop
    let step ← evalOption r.step
    countAny fuel visit ⟨start, stop, step⟩

/-- Runs a loop; its value is the one of the last iteration. -/
def runLoop (fuel : Nat) (run : Sequence → Exec Value) (var : Option String) (kind : LoopKind)
    (body : Sequence) : Exec Value := do
  let r ← attempt (runKind fuel (iterate run var body) kind)
  let _ ← takeFlow .leave
  lift r

end Habitat.Exec
