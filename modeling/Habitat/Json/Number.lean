import Habitat.Json.Basic
import Habitat.Decimal.Word

/-!
# Numbers in documents

A number is read into a 64-bit significand and a power of ten. Digits that no longer fit are
counted in the whole part and ignored in the fraction, and the float is one multiplication or
division away from the significand, so its last bit is not always the nearest.

A number without point and exponent that fits 64 bits is an integer, `-0` apart.
-/
namespace Habitat.Json

/-- The parts of a number as they are written. -/
structure NumberText where
  negative : Bool
  whole : List Char
  fraction : Option (List Char)
  exponent : Option (Bool × List Char)

/-- The value of a decimal digit. -/
def digitValue (c : Char) : Nat := c.toNat - '0'.toNat

/-- Appends digits to a significand as long as it stays below `bound`; gives back the digits left
over. -/
def absorb (bound : Nat) : Nat → List Char → Nat × List Char
  | s, [] => (s, [])
  | s, c :: rest =>
    let next := 10 * s + digitValue c
    if next < bound then absorb bound next rest else (s, c :: rest)

/-- The float nearest to a power of ten. -/
def powerOfTen (n : Nat) : Float := Float.ofScientific 1 false n

/-- Divides by powers of ten, at most `10 ^ 308` at a time. -/
def scaleDown : Nat → Float → Nat → Float
  | 0, x, _ => x
  | fuel + 1, x, n =>
    if n ≤ 308 then x / powerOfTen n
    else if x == 0.0 then x
    else scaleDown fuel (x / powerOfTen 308) (n - 308)

/-- `significand · 10 ^ exponent`, unless that is beyond the floats. -/
def floatOfParts (significand : Nat) (exponent : Int) : Option Float :=
  let x := (UInt64.ofNat significand).toFloat
  if exponent < 0 then some (scaleDown ((-exponent).toNat / 308 + 1) x (-exponent).toNat)
  else if exponent ≤ 308 then
    let y := x * powerOfTen exponent.toNat
    if y.isInf then none else some y
  else if significand = 0 then some x
  else none

/-- Keeps an exponent within 32 bits. -/
def clampExponent (e : Int) : Int := max (-0x80000000) (min e 0x7fffffff)

/-- The unsigned float of a number. An exponent that 32 bits do not hold is zero or out of
range. -/
def NumberText.magnitude (t : NumberText) : Option Float :=
  let (s₀, dropped) := absorb Decimal.wordEnd 0 t.whole
  let fraction := t.fraction.getD []
  let (s, ignored) := absorb Decimal.wordEnd s₀ fraction
  let base : Int := (dropped.length : Int) - ((fraction.length - ignored.length : Nat) : Int)
  match t.exponent with
  | none => floatOfParts s base
  | some (negative, ds) =>
    let (e, rest) := absorb 0x80000000 0 ds
    if rest.isEmpty then
      floatOfParts s (clampExponent (if negative then base - e else base + e))
    else if s ≠ 0 ∧ ¬ negative then none
    else some 0.0

/-- The float of a number. -/
def NumberText.float (t : NumberText) : Json :=
  match t.magnitude with
  | none => .unreadable
  | some x => .float (if t.negative then -x else x)

/-- The node of a number: an integer where there is one. -/
def NumberText.toJson (t : NumberText) : Json :=
  match t.fraction, t.exponent, absorb Decimal.wordEnd 0 t.whole with
  | none, none, (s, []) =>
    if !t.negative then .int s
    else if s = 0 ∨ Decimal.signedEnd < s then .float (-(UInt64.ofNat s).toFloat)
    else .int (-(s : Int))
  | _, _, _ => t.float

end Habitat.Json
