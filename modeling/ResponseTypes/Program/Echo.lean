import ResponseTypes.Program.Bytes

/-!
# Echoing arguments

A program that writes its arguments, with a space between each two and a line feed after the last.  Options in front
leave the line feed out (`-n`) and have backslashes read (`-e`).
-/

namespace ResponseTypes.Program

set_option autoImplicit false

/-- How arguments are echoed. -/
structure Echo where
  lineFeed : Bool := true
  backslashes : Bool := false
deriving DecidableEq, Repr

namespace Echo

/-- Reads the options in front.  An argument with any other letter is no option. -/
def readOptions (e : Echo) : List String → Echo × List String
  | [] => (e, [])
  | argument :: rest =>
    match argument.toList with
    | '-' :: c :: letters =>
      if (c :: letters).all ['n', 'e', 'E'].contains then
        readOptions ((c :: letters).foldl (fun e c =>
          if c == 'n' then { e with lineFeed := false } else { e with backslashes := c == 'e' }) e) rest
      else (e, argument :: rest)
    | _ => (e, argument :: rest)

def hexOf? (c : Byte) : Option Nat :=
  if c.isDigit then some (c.toNat - 48)
  else if 'a' ≤ c && c ≤ 'f' then some (c.toNat - 87)
  else if 'A' ≤ c && c ≤ 'F' then some (c.toNat - 55)
  else none

/-- What the bytes after a backslash stand for and how many they are; none if all output ends here. -/
def escape? : List Byte → Option (List Byte × Nat)
  | [] => some (['\\'], 0)
  | 'c' :: _ => none
  | 'e' :: _ => some ([byte 27], 1)
  | 'x' :: rest =>
    match rest.head?.bind hexOf?, (rest.drop 1).head?.bind hexOf? with
    | some a, some b => some ([byte (16 * a + b)], 3)
    | some a, none => some ([byte a], 2)
    | none, _ => some (['\\', 'x'], 1)
  | c :: rest =>
    match octal? c with
    | some d =>
      let (value, count) := readOctal false d 0 (if c == '0' then 3 else 2) rest
      some ([byte value], count + 1)
    | none => some ((controlOf? c).elim ['\\', c] ([·]), 1)

/-- The bytes of arguments with backslashes read, and whether output goes on after them. -/
def unescape : List Byte → List Byte × Bool
  | [] => ([], true)
  | '\\' :: rest =>
    match escape? rest with
    | none => ([], false)
    | some (out, length) =>
      let (more, goesOn) := unescape (rest.drop length)
      (out ++ more, goesOn)
  | c :: rest =>
    let (more, goesOn) := unescape rest
    (c :: more, goesOn)
termination_by cs => cs.length
decreasing_by
  all_goals simp only [List.length_cons, List.length_drop]
  all_goals omega

/-- What the arguments write with backslashes read. -/
def unescapeAll (ending : List Byte) : List (List Byte) → List Byte
  | [] => ending
  | text :: rest =>
    match unescape text with
    | (out, false) => out
    | (out, true) => out ++ (if rest.isEmpty then ending else ' ' :: unescapeAll ending rest)

/-- What the program writes. -/
def run (arguments : List String) : List Byte :=
  let (e, rest) := readOptions {} arguments
  let ending := if e.lineFeed then ['\n'] else []
  if e.backslashes then unescapeAll ending (rest.map ofText)
  else [' '].intercalate (rest.map ofText) ++ ending

end Echo

end ResponseTypes.Program
