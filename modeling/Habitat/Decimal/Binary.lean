import Habitat.Decimal.Word

/-!
# Floats as exact dyadic numbers

A finite float is `± m · 2 ^ q` for a natural `m` and an integer `q`. Whatever has to be exact
about floats (the fewest digits, the remainder of a division) is computed on that form in `Nat`,
so no rounding happens before the last step.
-/
namespace Habitat.Decimal

/-- The exact value of a finite float: `± m · 2 ^ q`. -/
structure Dyadic where
  negative : Bool
  m : Nat
  q : Int

/-- What a float stands for. In `finite d narrow`, the flag says that the next float towards zero
is only half as far away as the next one outwards. -/
inductive Shape where
  | finite (d : Dyadic) (narrow : Bool)
  | infinite (negative : Bool)
  | nan

/-- The leading bit of a significand, which is not stored. -/
def hiddenBit : Nat := 0x10000000000000

/-- Splits the 64 bits into sign, exponent and fraction. -/
def shape (x : Float) : Shape :=
  let bits := x.toBits.toNat
  let negative : Bool := signedEnd ≤ bits
  let exponent : Nat := bits / hiddenBit % 2048
  let fraction : Nat := bits % hiddenBit
  if exponent = 2047 then
    if fraction = 0 then .infinite negative else .nan
  else if exponent = 0 then .finite ⟨negative, fraction, -1074⟩ false
  else .finite ⟨negative, hiddenBit + fraction, (exponent : Int) - 1075⟩ (fraction = 0 && 1 < exponent)

/-- Multiplication by a power of two; for a negative exponent the low bits are dropped. -/
def shift (m : Nat) (q : Int) : Nat :=
  if 0 ≤ q then m <<< q.toNat else m >>> (-q).toNat

/-- The float with this exact value, for a value that some finite float has. -/
def Dyadic.toFloat (d : Dyadic) : Float :=
  let sign := if d.negative then signedEnd else 0
  if d.m = 0 then Float.ofBits (UInt64.ofNat sign) else
  let top : Int := d.m.log2
  let lead := top + d.q
  let magnitude :=
    if lead < -1022 then shift d.m (d.q + 1074)
    else (lead + 1022).toNat * hiddenBit + shift d.m (52 - top)
  Float.ofBits (UInt64.ofNat (sign + magnitude))

/-- The remainder of the division that truncates: it has the sign of the dividend and is
exact. -/
def remainder (x y : Float) : Float :=
  match shape x, shape y with
  | .nan, _ | _, .nan | .infinite _, _ => 0.0 / 0.0
  | .finite .., .infinite _ => x
  | .finite a _, .finite b _ =>
    if b.m = 0 then 0.0 / 0.0 else
    let q := min a.q b.q
    let m := shift a.m (a.q - q) % shift b.m (b.q - q)
    Dyadic.toFloat ⟨a.negative, m, q⟩

end Habitat.Decimal
