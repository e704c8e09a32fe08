import Habitat.Decimal.Shortest

/-!
# The text of a float

A format says for which decimal exponents a number is written positionally, how two equally near
candidates for its digits are told apart, and whether a positive power of ten carries a sign;
everything else is common.

* `FloatFormat.display`: messages and rendered values
* `FloatFormat.json`: documents
-/
namespace Habitat.Decimal

/-- The choices a format makes. `least` and `greatest` bound the exponent of the leading digit of
a number written positionally. -/
structure FloatFormat where
  tie : Tie
  least : Int
  greatest : Int
  plus : Bool

/-- Positional from `0.0001` up to, and without, `10 ^ 16`. -/
def FloatFormat.display : FloatFormat := ⟨.up, -4, 15, false⟩

/-- Positional from `0.00001` up to, and without, `10 ^ 16`. -/
def FloatFormat.json : FloatFormat := ⟨.toEven, -5, 15, true⟩

/-- `n` zeros. -/
def zeros (n : Nat) : String := String.ofList (List.replicate n '0')

/-- A decimal number without exponent, with at least one digit after the point. -/
def positional (ds : String) (exponent : Int) : String :=
  let point := (ds.length : Int) + exponent
  if 0 ≤ exponent then ds ++ zeros exponent.toNat ++ ".0"
  else if 0 < point then
    String.ofList (ds.toList.take point.toNat) ++ "." ++ String.ofList (ds.toList.drop point.toNat)
  else "0." ++ zeros (-point).toNat ++ ds

/-- One digit, the others after a point, and the power of ten. -/
def scientific (plus : Bool) (ds : String) (lead : Int) : String :=
  let rest := ds.toList.drop 1
  let mantissa := String.ofList (ds.toList.take 1) ++
    (if rest.isEmpty then "" else "." ++ String.ofList rest)
  mantissa ++ (if plus && 0 < lead then "e+" else "e") ++ toString lead

/-- The text of a nonzero decimal. -/
def FloatFormat.decimal (f : FloatFormat) (d : Scientific) : String :=
  let ds := toString d.digits
  let lead := (ds.length : Int) - 1 + d.exponent
  if f.least ≤ lead ∧ lead ≤ f.greatest then positional ds d.exponent else scientific f.plus ds lead

/-- The text of a float; both zeros keep their sign. -/
def FloatFormat.text (f : FloatFormat) (x : Float) : String :=
  match shape x with
  | .nan => "NaN"
  | .infinite negative => if negative then "-inf" else "inf"
  | .finite d narrow =>
    let sign := if d.negative then "-" else ""
    if d.m = 0 then sign ++ "0.0" else sign ++ f.decimal (shortest f.tie d narrow)

end Habitat.Decimal
