import Habitat.Text.Hidden

/-!
# Quoted text

Text in double quotes for inspection. Quotes, backslashes and hidden characters are
escaped.
-/
namespace Habitat.Text

/-- The digits of a code point, in lower case. -/
def hex (n : Nat) : List Char := Nat.toDigits 16 n

/-- A character inside quotes. -/
def escape (c : Char) : List Char :=
  if c = '"' then ['\\', '"']
  else if c = '\\' then ['\\', '\\']
  else if c = '\n' then ['\\', 'n']
  else if c = '\r' then ['\\', 'r']
  else if c = '\t' then ['\\', 't']
  else if c.toNat = 0 then ['\\', '0']
  else if isHidden c then ['\\', 'u', '\x7b'] ++ hex c.toNat ++ ['\x7d']
  else [c]

/-- A text in quotes. -/
def quote (s : String) : String := "\"" ++ String.ofList (s.toList.flatMap escape) ++ "\""

/-- Texts in quotes between brackets. -/
def quoteList (ss : List String) : String := "[" ++ ", ".intercalate (ss.map quote) ++ "]"

end Habitat.Text
