import ResponseTypes.Text.Blank
import ResponseTypes.Text.Replace

/-!
# Block strings

A block string is written over several lines between triple quotes.  `dedent` gives its value: the indentation that all
lines but the first share is removed, and so are blank lines at both ends.  `compact` writes a value as a block string
with as few characters as reading it back allows.
-/

namespace ResponseTypes.GraphQL.BlockString

set_option autoImplicit false

/-- A space or a tab. -/
def isIndent (c : Char) : Bool :=
  c == ' ' || c == '\t'

/-- Nothing but indentation. -/
def isBlankLine (line : List Char) : Bool :=
  line.all isIndent

/-- The number of characters that indent a line. -/
def indent (line : List Char) : Nat :=
  (line.takeWhile isIndent).length

/-- The indentation that the lines which are not blank share. -/
def sharedIndent (lines : List (List Char)) : Nat :=
  ((lines.filter (fun l => !isBlankLine l)).map indent).min?.getD 0

/-- Lines joined by line feeds. -/
def joinLines : List (List Char) → List Char
  | [] => []
  | [line] => line
  | line :: rest => line ++ '\n' :: joinLines rest

/-- The value of a block string, from its text with line feeds as line ends. -/
def dedent (text : List Char) : List Char :=
  let lines := match Text.splitLines text with
    | [] => []
    | first :: rest => first :: rest.map (List.drop (sharedIndent rest))
  joinLines (((lines.dropWhile isBlankLine).reverse.dropWhile isBlankLine).reverse)

/-- Three quotes. -/
def quotes : List Char :=
  ['"', '"', '"']

/-- The value must start on a line of its own, since reading would take its indentation away otherwise. -/
def needsFirstLine (escaped : List Char) : Bool :=
  match Text.splitLines escaped with
  | _ :: second :: rest => (second :: rest).all (fun l => l.isEmpty || l.head?.any isIndent)
  | _ => false

/-- The value must end on a line of its own, since its last character would join the closing quotes otherwise. -/
def needsLastLine (value escaped : List Char) : Bool :=
  (value.getLast? == some '"' && !('\\' :: quotes).isSuffixOf escaped) || value.getLast? == some '\\'

/-- The shortest block string with a value. -/
def compact (value : List Char) : List Char :=
  let escaped := Text.replace quotes ('\\' :: quotes) value
  quotes ++ (if needsFirstLine escaped then ['\n'] else []) ++ escaped ++
    (if needsLastLine value escaped then ['\n'] else []) ++ quotes

end ResponseTypes.GraphQL.BlockString
