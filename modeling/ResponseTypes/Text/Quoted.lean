import ResponseTypes.Text.Unprinted

/-!
# Quoted text

`quoted` writes a text between quotes: single ones, or double ones if the text holds a single quote and no double
one.  The quote in use, the backslash and characters that do not print are escaped by a backslash.
-/

namespace ResponseTypes.Text

set_option autoImplicit false

/-- The lowest hexadecimal digits of a number, the highest first. -/
def hexDigits (n : Nat) : Nat → List Char
  | 0 => []
  | count + 1 => hexDigits (n / 16) count ++ [Nat.digitChar (n % 16)]

/-- A character by its code point. -/
def escapeCode (n : Nat) : List Char :=
  if n < 0x100 then '\\' :: 'x' :: hexDigits n 2
  else if n < 0x10000 then '\\' :: 'u' :: hexDigits n 4
  else '\\' :: 'U' :: hexDigits n 8

/-- One character between quotes. -/
def quoteChar (mark : Char) (c : Char) : List Char :=
  if c = mark || c = '\\' then ['\\', c]
  else if c = '\n' then ['\\', 'n']
  else if c = '\r' then ['\\', 'r']
  else if c = '\t' then ['\\', 't']
  else if isUnprinted c then escapeCode c.toNat
  else [c]

/-- The quote that a text is written with. -/
def quoteMark (cs : List Char) : Char :=
  if cs.contains '\'' && !cs.contains '"' then '"' else '\''

/-- A text between quotes. -/
def quoted (s : String) : String :=
  let mark := quoteMark s.toList
  String.ofList (mark :: s.toList.flatMap (quoteChar mark) ++ [mark])

end ResponseTypes.Text
