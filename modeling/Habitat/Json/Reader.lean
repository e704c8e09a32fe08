import Habitat.Json.Number

/-!
# Reading documents

A recursive descent over the characters. The fuel is the length of the text, and every call that
uses some has consumed a character, so it never runs out.

* `Json.read?`: the document of a text, if the text is one document and white space
-/
namespace Habitat.Json

/-- White space between tokens. -/
def isGap (c : Char) : Bool := c = ' ' || c = '\t' || c = '\n' || c = '\r'

def skipGap (cs : List Char) : List Char := cs.dropWhile isGap

/-- A piece of a string: a character, or half a surrogate pair. -/
inductive Piece where
  | char (c : Char)
  | half (n : Nat)

def hexDigit? (c : Char) : Option Nat :=
  if '0' ≤ c ∧ c ≤ '9' then some (c.toNat - '0'.toNat)
  else if 'a' ≤ c ∧ c ≤ 'f' then some (c.toNat - 'a'.toNat + 10)
  else if 'A' ≤ c ∧ c ≤ 'F' then some (c.toNat - 'A'.toNat + 10)
  else none

/-- The code unit of a four-digit escape. -/
def hexUnit? (a b c d : Char) : Option Nat := do
  let a ← hexDigit? a
  let b ← hexDigit? b
  let c ← hexDigit? c
  let d ← hexDigit? d
  return ((a * 16 + b) * 16 + c) * 16 + d

def pieceOfUnit (n : Nat) : Piece :=
  if 0xD800 ≤ n ∧ n < 0xE000 then .half n else .char (Char.ofNat n)

/-- What a one-letter escape stands for. -/
def escaped? : Char → Option Char
  | '"' => some '"'
  | '\\' => some '\\'
  | '/' => some '/'
  | 'b' => some '\x08'
  | 'f' => some '\x0c'
  | 'n' => some '\n'
  | 'r' => some '\r'
  | 't' => some '\t'
  | _ => none

/-- The pieces up to the closing quote, last one first, and the characters behind it. -/
def pieces : List Char → List Piece → Option (List Piece × List Char)
  | [], _ => none
  | '"' :: rest, done => some (done, rest)
  | '\\' :: 'u' :: a :: b :: c :: d :: rest, done =>
    match hexUnit? a b c d with
    | some n => pieces rest (pieceOfUnit n :: done)
    | none => none
  | '\\' :: c :: rest, done =>
    match escaped? c with
    | some e => pieces rest (.char e :: done)
    | none => none
  | c :: rest, done => if c = '\\' ∨ c.toNat < 0x20 then none else pieces rest (.char c :: done)

/-- Joins halves of pairs; a half on its own gives no text. -/
def joinPieces : List Piece → List Char → Option (List Char)
  | [], done => some done
  | .char c :: rest, done => joinPieces rest (c :: done)
  | .half low :: .half high :: rest, done =>
    if 0xDC00 ≤ low ∧ high < 0xDC00 then
      joinPieces rest (Char.ofNat (0x10000 + (high - 0xD800) * 0x400 + (low - 0xDC00)) :: done)
    else none
  | .half _ :: _, _ => none

/-- A string behind its opening quote: the text, if it is one, and the characters behind the
closing quote. -/
def string? (cs : List Char) : Option (Option String × List Char) :=
  (pieces cs []).map fun (ps, rest) => ((joinPieces ps []).map String.ofList, rest)

/-- The exponent part of a number, if there is one. -/
def exponent? : List Char → Option (Option (Bool × List Char) × List Char)
  | c :: rest =>
    if c = 'e' ∨ c = 'E' then
      let (negative, rest) := match rest with
        | '-' :: r => (true, r)
        | '+' :: r => (false, r)
        | r => (false, r)
      let ds := rest.takeWhile Char.isDigit
      if ds.isEmpty then none else some (some (negative, ds), rest.dropWhile Char.isDigit)
    else some (none, c :: rest)
  | [] => some (none, [])

/-- A number; a leading zero stands alone before the point. -/
def number? (cs : List Char) : Option (Json × List Char) :=
  let (negative, cs) := match cs with
    | '-' :: r => (true, r)
    | r => (false, r)
  let whole := cs.takeWhile Char.isDigit
  let rest := cs.dropWhile Char.isDigit
  if whole.isEmpty || (whole.head? == some '0' && 1 < whole.length) then none else
  match rest with
  | '.' :: more =>
    let ds := more.takeWhile Char.isDigit
    if ds.isEmpty then none else
    (exponent? (more.dropWhile Char.isDigit)).map fun (e, rest) =>
      (NumberText.toJson ⟨negative, whole, some ds, e⟩, rest)
  | _ => (exponent? rest).map fun (e, rest) =>
      (NumberText.toJson ⟨negative, whole, none, e⟩, rest)

/-- The deepest nesting that is read. -/
def maxDepth : Nat := 127

/-- An array or object is read unless it is nested too deep. -/
def atDepth (depth : Nat) (j : Json) : Json := if depth < maxDepth then j else .unreadable

/-- An object whose names are all texts. -/
def objectOf (fields : List (Option String × Json)) : Json :=
  match fields.mapM fun (k, j) => k.map fun k => (k, j) with
  | some fields => .obj fields
  | none => .unreadable

mutual

/-- One value inside `depth` arrays and objects, and the characters behind it. -/
def value? : Nat → Nat → List Char → Option (Json × List Char)
  | 0, _, _ => none
  | fuel + 1, depth, cs =>
    match cs with
    | 'n' :: 'u' :: 'l' :: 'l' :: rest => some (.null, rest)
    | 't' :: 'r' :: 'u' :: 'e' :: rest => some (.bool true, rest)
    | 'f' :: 'a' :: 'l' :: 's' :: 'e' :: rest => some (.bool false, rest)
    | '"' :: rest =>
      (string? rest).map fun (s, rest) => ((s.map Json.str).getD .unreadable, rest)
    | '[' :: rest =>
      match skipGap rest with
      | ']' :: rest => some (atDepth depth (.arr []), rest)
      | rest => (items? fuel (depth + 1) rest []).map fun (js, rest) =>
          (atDepth depth (.arr js), rest)
    | '{' :: rest =>
      match skipGap rest with
      | '}' :: rest => some (atDepth depth (.obj []), rest)
      | rest => (fields? fuel (depth + 1) rest []).map fun (fs, rest) =>
          (atDepth depth (objectOf fs), rest)
    | cs => number? cs

/-- The items of an array up to its closing bracket. -/
def items? : Nat → Nat → List Char → List Json → Option (List Json × List Char)
  | 0, _, _, _ => none
  | fuel + 1, depth, cs, done =>
    match value? fuel depth (skipGap cs) with
    | none => none
    | some (j, rest) =>
      match skipGap rest with
      | ']' :: rest => some ((j :: done).reverse, rest)
      | ',' :: rest => items? fuel depth rest (j :: done)
      | _ => none

/-- The fields of an object up to its closing brace. -/
def fields? : Nat → Nat → List Char → List (Option String × Json) →
    Option (List (Option String × Json) × List Char)
  | 0, _, _, _ => none
  | fuel + 1, depth, cs, done =>
    match skipGap cs with
    | '"' :: rest =>
      match string? rest with
      | none => none
      | some (k, rest) =>
        match skipGap rest with
        | ':' :: rest =>
          match value? fuel depth (skipGap rest) with
          | none => none
          | some (j, rest) =>
            match skipGap rest with
            | '}' :: rest => some (((k, j) :: done).reverse, rest)
            | ',' :: rest => fields? fuel depth rest ((k, j) :: done)
            | _ => none
        | _ => none
    | _ => none

end

/-- The document of a text. -/
def read? (text : String) : Option Json :=
  let cs := text.toList
  match value? (2 * cs.length + 2) 0 (skipGap cs) with
  | some (j, rest) => if (skipGap rest).isEmpty then some j else none
  | none => none

/-- The document of a text in which every node stands for a value, with one field a name. -/
def readSettled? (text : String) : Option Json :=
  match read? text with
  | some j => if j.readable then some j.settle else none
  | none => none

end Habitat.Json
