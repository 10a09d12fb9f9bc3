import ResponseTypes.Assoc

/-!
# Short names

`short n` is the `n`-th word over the letters a to z, ordered by length and then alphabetically.  An `Abbreviations`
hands out short names for texts, one for each text, leaving out the reserved words of JavaScript.
-/

namespace ResponseTypes.Naming

set_option autoImplicit false

/-- The letter of a digit. -/
def letter (n : Nat) : Char :=
  Char.ofNat (97 + n)

/-- The word whose place is one less than `n`, the last letter first. -/
def reversedShort (n : Nat) : List Char :=
  if n = 0 then [] else letter ((n - 1) % 26) :: reversedShort ((n - 1) / 26)
termination_by n
decreasing_by omega

/-- The word at a place, counted from zero. -/
def short (index : Nat) : String :=
  String.ofList (reversedShort (index + 1)).reverse

/-- The word at a place; no word has a place below zero. -/
def shortAt (index : Int) : String :=
  if index < 0 then "" else short index.toNat

/-- Words that cannot name a variable. -/
def reservedWords : List String := [
  "await", "break", "case", "catch", "class", "const", "continue", "debugger", "default", "delete", "do", "else",
  "enum", "export", "extends", "false", "finally", "for", "function", "if", "import", "in", "instanceof", "let", "new",
  "null", "return", "static", "super", "switch", "this", "throw", "true", "try", "typeof", "var", "void", "while",
  "with", "yield"]

/-- The first short name at or after a place that is not reserved, with the place after it.  At most as many names in a
row are reserved as there are reserved words. -/
def nextFree : Nat → Nat → String × Nat
  | 0, index => (short index, index + 1)
  | tries + 1, index =>
    if reservedWords.contains (short index) then nextFree tries (index + 1) else (short index, index + 1)

/-- Texts with their short names, and the place of the next one. -/
structure Abbreviations where
  names : Assoc String String
  next : Nat
deriving DecidableEq, Repr

namespace Abbreviations

def empty : Abbreviations :=
  ⟨[], 0⟩

/-- The short name of a text, which is new if the text is. -/
def get (a : Abbreviations) (text : String) : String × Abbreviations :=
  match Assoc.get? a.names text with
  | some name => (name, a)
  | none =>
    let (name, next) := nextFree reservedWords.length a.next
    (name, ⟨Assoc.insert a.names text name, next⟩)

/-- The short names of some texts, in order. -/
def getAll (a : Abbreviations) : List String → List String × Abbreviations
  | [] => ([], a)
  | text :: rest =>
    let (name, a) := a.get text
    let (names, a) := getAll a rest
    (name :: names, a)

end Abbreviations

end ResponseTypes.Naming
