import ResponseTypes.Text.Replace

/-!
# Bytes

Programs work on bytes.  A byte is written as the character whose code it is, so the characters here lie below 256.
`ofText` and `toText?` lead from a text to the bytes of its UTF-8 form and back.
-/

namespace ResponseTypes.Program

set_option autoImplicit false

/-- A byte, as the character with its code. -/
abbrev Byte := Char

def byte (n : Nat) : Byte :=
  Char.ofNat (n % 256)

/-- The bytes of a text. -/
def ofText (s : String) : List Byte :=
  s.toUTF8.toList.map (fun b => byte b.toNat)

/-- The text of some bytes, if they are one. -/
def toText? (bytes : List Byte) : Option String :=
  String.fromUTF8? ⟨(bytes.map (fun b => b.toNat.toUInt8)).toArray⟩

/-- All bytes from one to another. -/
def bytesFrom (first last : Byte) : List Byte :=
  (List.range (last.toNat + 1 - first.toNat)).map (fun i => byte (first.toNat + i))

/-- All bytes. -/
def allBytes : List Byte :=
  bytesFrom (byte 0) (byte 255)

/-- The value of an octal digit. -/
def octal? (c : Byte) : Option Nat :=
  if '0' ≤ c && c ≤ '7' then some (c.toNat - 48) else none

/-- The byte that a letter stands for after a backslash. -/
def controlOf? : Byte → Option Byte
  | 'a' => some (byte 7)
  | 'b' => some (byte 8)
  | 'f' => some (byte 12)
  | 'n' => some (byte 10)
  | 'r' => some (byte 13)
  | 't' => some (byte 9)
  | 'v' => some (byte 11)
  | '\\' => some '\\'
  | _ => none

/-- The number that up to `most` octal digits write and how many they are.  A digit that would lead beyond a byte is
left out if `fit` says so. -/
def readOctal (fit : Bool) (value count : Nat) : Nat → List Byte → Nat × Nat
  | 0, _ => (value, count)
  | _, [] => (value, count)
  | most + 1, c :: rest =>
    match octal? c with
    | none => (value, count)
    | some d => if fit && 256 ≤ 8 * value + d then (value, count) else readOctal fit (8 * value + d) (count + 1) most rest

end ResponseTypes.Program
