import ResponseTypes.Files.Path
import ResponseTypes.Program.Bytes
import ResponseTypes.Text.Blank

/-!
# Showing lines

A program that writes its input, on request with numbers in front of lines, marks at their ends, tabs and other
characters that do not print made visible, and no two empty lines in a row.
-/

namespace ResponseTypes.Program

set_option autoImplicit false

/-- How the input is shown. -/
structure Cat where
  numbers : Bool := false
  /-- only lines that are not empty have numbers -/
  skipEmpty : Bool := false
  ends : Bool := false
  tabs : Bool := false
  controls : Bool := false
  squeeze : Bool := false
deriving DecidableEq, Repr

namespace Cat

/-- How the input is shown if a letter asks for more. -/
def withLetter (s : Cat) : Char → Option Cat
  | 'A' => some { s with controls := true, ends := true, tabs := true }
  | 'b' => some { s with numbers := true, skipEmpty := true }
  | 'e' => some { s with controls := true, ends := true }
  | 'E' => some { s with ends := true }
  | 'n' => some { s with numbers := true }
  | 's' => some { s with squeeze := true }
  | 't' => some { s with controls := true, tabs := true }
  | 'T' => some { s with tabs := true }
  | 'u' => some s
  | 'v' => some { s with controls := true }
  | _ => none

/-- Words for the letters. -/
def words : List (String × Char) :=
  [("show-all", 'A'), ("number-nonblank", 'b'), ("show-ends", 'E'), ("number", 'n'), ("squeeze-blank", 's'),
    ("show-tabs", 'T'), ("show-nonprinting", 'v')]

/-- The letter of a word, of which only the start has to be there. -/
def letterOf? (word : List Char) : Option Char :=
  (words.lookup (String.ofList word)).or
    (match words.filter (fun w => word.isPrefixOf w.1.toList) with
    | [w] => some w.2
    | _ => none)

/-- Reads the arguments: options, which may stand anywhere in front of two dashes, and what is to be shown. -/
def readArguments (s : Cat) : List String → Option (Cat × List String)
  | [] => some (s, [])
  | argument :: rest =>
    let shown := (readArguments s rest).map (fun (s, operands) => (s, argument :: operands))
    match argument.toList with
    | ['-'] => shown
    | ['-', '-'] => some (s, rest)
    | '-' :: '-' :: word => do readArguments (← s.withLetter (← letterOf? word)) rest
    | '-' :: c :: letters => do readArguments (← (c :: letters).foldlM withLetter s) rest
    | _ => shown

/-- What is read where an operand leads to: the input or nothing.  There are no other files. -/
def source? (input : List Byte) (operand : String) : Option (List Byte) :=
  if operand = "-" then some input
  else match Files.Place.reach? Files.Place.isUsual operand with
    | some p => if p.isInput then some input else if p.isNull then some [] else none
    | none => none

/-- A byte made visible. -/
def visible (s : Cat) (c : Byte) : List Byte :=
  let low := fun (n : Nat) =>
    if n < 32 then ['^', byte (n + 64)] else if n = 127 then ['^', '?'] else [byte n]
  if c = byte 9 then if s.tabs then ['^', 'I'] else [c]
  else if !s.controls then [c]
  else if 128 ≤ c.toNat then 'M' :: '-' :: low (c.toNat - 128)
  else low c.toNat

/-- A line made visible.  A carriage return in front of a marked end is visible in any case. -/
def visibleLine (s : Cat) (line : List Byte) : List Byte :=
  if s.ends && line.getLast? == some (byte 13) then line.dropLast.flatMap s.visible ++ ['^', 'M']
  else line.flatMap s.visible

/-- A number before a line. -/
def numbered (n : Nat) : List Byte :=
  let digits := (toString n).toList
  List.replicate (6 - digits.length) ' ' ++ digits ++ [byte 9]

/-- Shows lines; the last one has no line feed, and is not there if it is empty.  `number` is the number of the last
line, `emptyBefore` says that the line before was empty. -/
def showLines (s : Cat) (number : Nat) (emptyBefore : Bool) : List (List Byte) → List Byte
  | [] => []
  | [line] =>
    if line.isEmpty then []
    else (if s.numbers then numbered (number + 1) else []) ++ line.flatMap s.visible
  | line :: rest =>
    if s.squeeze && emptyBefore && line.isEmpty then showLines s number true rest
    else
      let counts := s.numbers && !(s.skipEmpty && line.isEmpty)
      (if counts then numbered (number + 1) else []) ++ s.visibleLine line ++ (if s.ends then ['$'] else []) ++
        '\n' :: showLines s (if counts then number + 1 else number) line.isEmpty rest

/-- What the program writes.  The input can be read once. -/
def run (arguments : List String) (input : List Byte) : Option (List Byte) := do
  let (s, operands) ← readArguments {} arguments
  let sources ← (if operands.isEmpty then ["-"] else operands).mapM (source? input)
  let read := (sources.find? (!·.isEmpty)).getD []
  some (if s = {} then read else s.showLines 0 false (Text.splitLines read))

end Cat

end ResponseTypes.Program
