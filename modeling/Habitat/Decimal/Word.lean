/-!
# Words

Integers that 64 bits hold, the powers of two at which words end, and the integer part of a float
as a word.
-/
namespace Habitat.Decimal

/-- One more than the greatest natural number of 64 bits. -/
def wordEnd : Nat := 0x10000000000000000

/-- One more than the greatest signed integer of 64 bits. -/
def signedEnd : Nat := 0x8000000000000000

/-- The integer in 64 bits, if they hold it. -/
def toInt64? (n : Int) : Option Int64 :=
  if -(signedEnd : Int) ≤ n ∧ n < signedEnd then some (Int64.ofInt n) else none

/-- The integer part of a float, kept within 64 bits; zero for what is not a number. -/
def truncate (x : Float) : Int64 :=
  if x < 0 then .ofInt (-(min (-x).toUInt64.toNat signedEnd : Nat))
  else .ofNat (min x.toUInt64.toNat (signedEnd - 1))

open Float.Model in
/-- Nothing below zero is left of a negative float without its sign. -/
theorem toUInt64_of_neg {x : Float} (h : x < 0) : x.toUInt64 = 0 := by
  have hzero : (0 : Float).toModel.unpack = .zero .positive := rfl
  have hlt : x.toModel.unpack.lt (.zero .positive) = true := by
    rw [← hzero]
    exact of_decide_eq_true h
  unfold Float.toUInt64 Float.Model.toUInt64 UnpackedFloat.toUInt64
  generalize x.toModel.unpack = u at hlt
  cases u with
  | notANumber | zero => cases hlt
  | infinity s =>
    cases s with
    | negative => rfl
    | positive => cases hlt
  | finite s m e hm =>
    cases s with
    | negative =>
      have hle : UnpackedFloat.toInt 0 (UInt64.size - 1) (.finite .negative m e hm) ≤ 0 :=
        Int.neg_nonpos_of_nonneg (Int.natCast_nonneg _)
      rw [Int.toNat_of_nonpos hle]
      rfl
    | positive => cases hlt

/-- Above zero, the signed and the unsigned integer part are the same as far as both words
reach. -/
theorem toNat_truncate (x : Float) :
    (truncate x).toInt.toNat = min x.toUInt64.toNat (signedEnd - 1) := by
  have hend : signedEnd = 2 ^ 63 := rfl
  unfold truncate
  split
  case isTrue hneg =>
    rw [toUInt64_of_neg hneg, UInt64.toNat_zero, Int64.toInt_ofInt_of_le] <;> omega
  case isFalse => rw [Int64.toInt_ofNat_of_lt] <;> omega

end Habitat.Decimal
