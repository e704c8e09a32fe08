import Habitat.Decimal.Word

/-!
# Numbers written as text

Whole numbers are an optional sign and decimal digits. Floats also take a point, an exponent, and
the words `inf`, `infinity` and `nan` in any case; they are rounded to the nearest float.
-/
namespace Habitat.Decimal

/-- The number written by decimal digits. -/
def ofDigits (ds : List Char) : Nat :=
  ds.foldl (fun n c => 10 * n + (c.toNat - '0'.toNat)) 0

/-- The optional sign of a number: whether it is a minus, and the characters behind it. -/
def signed : List Char → Bool × List Char
  | '-' :: rest => (true, rest)
  | '+' :: rest => (false, rest)
  | cs => (false, cs)

/-- A whole number, if the text is one and 64 bits hold it. -/
def int64? (cs : List Char) : Option Int64 :=
  let (negative, ds) := signed cs
  if ds.isEmpty || !ds.all Char.isDigit then none else
  toInt64? (if negative then -(ofDigits ds : Int) else ofDigits ds)

/-- `m · 10 ^ e`, rounded to the nearest float. Exponents so far out that only infinity or zero
can result are not computed. -/
def scaled (m : Nat) (e : Int) : Float :=
  let lead := ((toString m).length : Int) + e
  if m = 0 then 0.0
  else if 310 < lead then 1.0 / 0.0
  else if lead < -330 then 0.0
  else if 0 ≤ e then Float.ofScientific m false e.toNat
  else Float.ofScientific m true (-e).toNat

/-- The exponent part of a float: nothing, or `e`, an optional sign and digits. -/
def exponent? : List Char → Option Int
  | [] => some 0
  | c :: rest =>
    if c = 'e' ∨ c = 'E' then
      let (negative, ds) := signed rest
      if ds.isEmpty || !ds.all Char.isDigit then none
      else some (if negative then -(ofDigits ds : Int) else ofDigits ds)
    else none

/-- A float without sign. -/
def unsignedFloat? (cs : List Char) : Option Float :=
  let word := String.ofList (cs.map Char.toLower)
  if word = "inf" ∨ word = "infinity" then some (1.0 / 0.0)
  else if word = "nan" then some (0.0 / 0.0)
  else
    let whole := cs.takeWhile Char.isDigit
    let rest := cs.dropWhile Char.isDigit
    let (fraction, tail) := match rest with
      | '.' :: more => (more.takeWhile Char.isDigit, more.dropWhile Char.isDigit)
      | _ => ([], rest)
    if whole.isEmpty && fraction.isEmpty then none
    else (exponent? tail).map fun e => scaled (ofDigits (whole ++ fraction)) (e - fraction.length)

/-- A float, if the text is one. -/
def float? (cs : List Char) : Option Float :=
  let (negative, rest) := signed cs
  (unsignedFloat? rest).map fun x => if negative then -x else x

end Habitat.Decimal
