import ResponseTypes.Program.Bytes

/-!
# Sets of bytes

A set of bytes is written as a list of items (`Item`): single bytes, ranges such as `a-z`, classes such as `[:lower:]`,
equivalences such as `[=a=]`, and repetitions such as `[a*3]`.  The order of a set counts, since bytes of one set may be
exchanged for those of another.  Repetitions can be long, so the bytes of a set are counted in runs (`runsOf`).
-/

namespace ResponseTypes.Program

set_option autoImplicit false

/-- A byte of a written set, and whether a backslash stands before it. -/
abbrev Mark := Byte × Bool

/-- The bytes of a written set, after backslashes. -/
def marks : List Byte → List Mark
  | [] => []
  | '\\' :: [] => [('\\', false)]
  | '\\' :: c :: rest =>
    match octal? c with
    | some d =>
      let (value, count) := readOctal true d 0 2 rest
      (byte value, true) :: marks (rest.drop count)
    | none => ((controlOf? c).getD c, true) :: marks rest
  | c :: rest => (c, false) :: marks rest
termination_by cs => cs.length
decreasing_by
  all_goals simp only [List.length_cons, List.length_drop]
  all_goals omega

inductive Item where
  /-- single bytes and ranges -/
  | bytes (l : List Byte)
  /-- a byte several times -/
  | copies (c : Byte) (count : Nat)
  /-- a byte as often as it takes to fill up the set -/
  | fill (c : Byte)
  /-- all small letters, or all capitals -/
  | letters (l : List Byte)
  /-- another class -/
  | group (l : List Byte)
  /-- what is equivalent to a byte -/
  | same (c : Byte)
deriving DecidableEq, Repr

/-- Blanks among bytes. -/
def isSpace (c : Byte) : Bool :=
  (' ' :: bytesFrom (byte 9) (byte 13)).contains c

/-- The class of a name. -/
def classOf? (name : List Byte) : Option Item :=
  let lower := bytesFrom 'a' 'z'
  let upper := bytesFrom 'A' 'Z'
  let digits := bytesFrom '0' '9'
  let blank := [byte 9, ' ']
  let printed := bytesFrom ' ' '~'
  let holding := fun (p : Byte → Bool) => some (Item.group (allBytes.filter p))
  match String.ofList name with
  | "lower" => some (.letters lower)
  | "upper" => some (.letters upper)
  | "digit" => holding digits.contains
  | "alpha" => holding (upper ++ lower).contains
  | "alnum" => holding (digits ++ upper ++ lower).contains
  | "blank" => holding blank.contains
  | "space" => holding isSpace
  | "cntrl" => holding (byte 127 :: bytesFrom (byte 0) (byte 31)).contains
  | "print" => holding printed.contains
  | "graph" => holding (bytesFrom '!' '~').contains
  | "punct" => holding (fun c => printed.contains c && c != ' ' && !(digits ++ upper ++ lower).contains c)
  | "xdigit" => holding (digits ++ bytesFrom 'A' 'F' ++ bytesFrom 'a' 'f').contains
  | _ => none

/-- The place of a delimiter that is followed by a closing bracket. -/
def closing? (delimiter : Byte) : List Mark → Option Nat
  | a :: b :: rest =>
    if a = (delimiter, false) && b = (']', false) then some 0 else (closing? delimiter (b :: rest)).map (· + 1)
  | _ => none

/-- A star, digits and a closing bracket follow. -/
def looksRepeated (ms : List Mark) : Bool :=
  match ms with
  | ('*', false) :: rest => (rest.dropWhile (fun m => m.1.isDigit)).head? == some (']', false)
  | _ => false

/-- The most bytes that a set can have. -/
def mostBytes : Nat := 18446744073709551614

/-- The number of a repetition, which is nothing for a fill: in base eight if a zero stands first, otherwise in base
ten, and then blanks and a plus may stand before it. -/
def countOf? (written : List Byte) : Option Nat :=
  let base := if written.head? == some '0' then 8 else 10
  let digits := match written.dropWhile isSpace with
    | '+' :: rest => rest
    | rest => rest
  if digits.isEmpty && !written.isEmpty then none
  else
    (digits.foldlM (fun n c => if c.isDigit && c.toNat - 48 < base then some (base * n + (c.toNat - 48)) else none) 0).filter
      (· ≤ mostBytes)

/-- What stands after an opening bracket. -/
inductive Bracketed where
  /-- the item, and how many bytes it takes after the bracket -/
  | item (i : Item) (length : Nat)
  /-- an item that cannot be -/
  | wrong
  /-- no item of this kind -/
  | none
deriving DecidableEq, Repr

/-- A repetition after an opening bracket. -/
def repetition : List Mark → Bracketed
  | c :: ('*', false) :: rest =>
    let digits := rest.takeWhile (fun m => !m.2 && m.1 != ']')
    match rest.drop digits.length with
    | (']', false) :: _ =>
      match countOf? (digits.map Prod.fst) with
      | Option.none => .wrong
      | some 0 => .item (.fill c.1) (digits.length + 3)
      | some n => .item (.copies c.1 n) (digits.length + 3)
    | _ => .none
  | _ => .none

/-- A class, an equivalence or a repetition after an opening bracket. -/
def bracketed (ms : List Mark) : Bracketed :=
  match ms with
  | (delimiter, false) :: rest =>
    if delimiter = ':' || delimiter = '=' then
      match closing? delimiter rest with
      | Option.none => repetition ms
      | some n =>
        let name := (rest.take n).map Prod.fst
        let found := if delimiter = ':' then classOf? name else match name with
          | [c] => some (.same c)
          | _ => Option.none
        match found with
        | some i => .item i (n + 3)
        | Option.none => if !name.isEmpty && looksRepeated rest then repetition ms else .wrong
    else repetition ms
  | _ => repetition ms

/-- The items of a written set; none if it is not written well. -/
def items : List Mark → Option (List Item)
  | [] => some []
  | m :: rest =>
    let plain := match rest with
      | ('-', false) :: last :: _ =>
        if m.1 ≤ last.1 then Bracketed.item (.bytes (bytesFrom m.1 last.1)) 2 else .wrong
      | _ => .item (.bytes [m.1]) 0
    let first :=
      if m = ('[', false) && 2 ≤ rest.length then
        match bracketed rest with
        | .none => plain
        | b => b
      else plain
    match first with
    | .item i length => (items (rest.drop length)).map (i :: ·)
    | _ => Option.none
termination_by ms => ms.length
decreasing_by
  simp only [List.length_cons, List.length_drop]
  omega

/-- A byte and how often it stands in a row. -/
abbrev Run := Byte × Nat

/-- How many bytes some runs have together. -/
def lengthOf (runs : List Run) : Nat :=
  runs.foldr (fun r n => r.2 + n) 0

namespace Item

/-- The bytes of an item, given how many a fill takes. -/
def runs (filled : Nat) : Item → List Run
  | bytes l | letters l | group l => l.map (·, 1)
  | copies c count => [(c, count)]
  | fill c => [(c, filled)]
  | same c => [(c, 1)]

def isFill : Item → Bool
  | fill _ => true
  | _ => false

end Item

/-- The bytes of a set in order, given how many a fill takes. -/
def runsOf (filled : Nat) (set : List Item) : List Run :=
  set.flatMap (Item.runs filled)

/-- The bytes that a set holds. -/
def membersOf (runs : List Run) : List Byte :=
  (runs.filter (fun r => 0 < r.2)).map Prod.fst

/-- The items of a set, from its text. -/
def readSet (text : String) : Option (List Item) :=
  (items (marks (ofText text))).filter (fun set => lengthOf (runsOf 0 set) ≤ mostBytes)

end ResponseTypes.Program
