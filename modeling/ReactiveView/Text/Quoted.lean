import ReactiveView.Text.Casing
import ReactiveView.Text.Table.Escaped

/-!
# Quoted text

Listings and outlines show text between double quotes. A quote and a backslash are preceded by a
backslash, the common controls have their letter, and a character without a visible form of its own
is shown by its number in braces.
-/

namespace ReactiveView.Text

/-- The lower case hexadecimal digits of a number. -/
def hexDigits (n : Nat) : List Char := Nat.toDigits 16 n

/-- Whether a character is shown by its number. -/
def isEscaped (c : Char) : Bool :=
  if 0x20 ≤ c.toNat ∧ c.toNat < 0x7F then false else inRanges Table.escapedRanges c.toNat

/-- How one character is written inside quotes. -/
def quoteChar (c : Char) : List Char :=
  if c = '"' ∨ c = '\\' then ['\\', c]
  else if c = '\t' then ['\\', 't']
  else if c = '\n' then ['\\', 'n']
  else if c = '\r' then ['\\', 'r']
  else if c.toNat = 0 then ['\\', '0']
  else if isEscaped c then
    ['\\', 'u', '\x7b'] ++ hexDigits c.toNat ++ ['\x7d']
  else [c]

/-- A text between quotes. -/
def quote (s : String) : String :=
  String.ofList ('"' :: (s.toList.flatMap quoteChar ++ ['"']))

end ReactiveView.Text
