import Habitat.Decimal.Binary

/-!
# The fewest decimal digits that read back

Every real strictly between the two midpoints around a float reads back as that float, and so do
the midpoints themselves when its significand is even. For one digit, two digits and so on,
`shortest` looks at the two neighbours of the value on that decimal grid; the first grid that has
one inside the interval gives the digits, and of two the nearer is taken.
-/
namespace Habitat.Decimal

/-- Which of two equally near decimals is chosen. -/
inductive Tie where
  | up
  | toEven

/-- The decimal number `digits · 10 ^ exponent`. -/
structure Scientific where
  digits : Nat
  exponent : Int

/-- The reals that read back as one float, all over the same denominator. -/
structure Interval where
  low : Nat
  value : Nat
  high : Nat
  den : Nat
  closed : Bool

/-- The interval of `m · 2 ^ q`, counted in quarters of `2 ^ q`. -/
def Interval.ofDyadic (d : Dyadic) (narrow : Bool) : Interval :=
  let unit := shift 1 (d.q - 2)
  let low := 4 * d.m - (if narrow then 1 else 2)
  let scale := if 2 ≤ d.q then unit else 1
  let den := if 2 ≤ d.q then 1 else 1 <<< (2 - d.q).toNat
  ⟨low * scale, 4 * d.m * scale, (4 * d.m + 2) * scale, den, d.m % 2 = 0⟩

/-- The same interval in units of `10 ^ k`. -/
def Interval.inUnits (i : Interval) (k : Int) : Interval :=
  if k < 0 then
    let f := Nat.pow 10 (-k).toNat
    { i with low := i.low * f, value := i.value * f, high := i.high * f }
  else { i with den := i.den * Nat.pow 10 k.toNat }

/-- Whether the whole number `c` lies in the interval. -/
def Interval.contains (i : Interval) (c : Nat) : Bool :=
  let x := c * i.den
  if i.closed then i.low ≤ x && x ≤ i.high else i.low < x && x < i.high

/-- The smallest `p` in reach with `value < 10 ^ p`, searched upwards from a lower estimate. -/
def Interval.magnitude (i : Interval) : Int :=
  let estimate : Int := ((i.value.log2 : Int) - (i.den.log2 : Int)) * 30103 / 100000 - 1
  go i 5 estimate
where
  go (i : Interval) : Nat → Int → Int
    | 0, p => p
    | n + 1, p =>
      let j := i.inUnits p
      if j.value < j.den then p else go i n (p + 1)

/-- The whole number inside the interval that is nearest to its value, if there is one. -/
def Interval.nearest (i : Interval) (tie : Tie) : Option Nat :=
  let below := i.value / i.den
  let above := below + 1
  match i.contains below, i.contains above with
  | false, false => none
  | true, false => some below
  | false, true => some above
  | true, true =>
    let twice := 2 * i.value
    let middle := (2 * below + 1) * i.den
    if twice < middle then some below
    else if middle < twice then some above
    else match tie with
      | .up => some above
      | .toEven => some (if below % 2 = 0 then below else above)

/-- Moves factors of ten from the digits to the exponent. -/
def Scientific.strip : Nat → Scientific → Scientific
  | 0, d => d
  | n + 1, d =>
    if d.digits ≠ 0 ∧ d.digits % 10 = 0 then strip n ⟨d.digits / 10, d.exponent + 1⟩ else d

/-- The fewest digits that read back as `m · 2 ^ q`, where `m` is not zero. -/
def shortest (tie : Tie) (d : Dyadic) (narrow : Bool) : Scientific :=
  let i := Interval.ofDyadic d narrow
  let p := i.magnitude
  Scientific.strip 20 (go i p 17 1)
where
  go (i : Interval) (p : Int) : Nat → Nat → Scientific
    | 0, n =>
      let j := i.inUnits (p - n)
      ⟨j.value / j.den, p - n⟩
    | fuel + 1, n =>
      match (i.inUnits (p - n)).nearest tie with
      | some c => ⟨c, p - n⟩
      | none => go i p fuel (n + 1)

end Habitat.Decimal
