import ResponseTypes.Program.ByteSet

/-!
# Exchanging bytes

A filter that exchanges the bytes of one set for those of another, deletes the bytes of a set, or squeezes runs of one
byte.  The bytes of the first set and the second belong together by their places; the last byte of the second stands in
for all that are missing.
-/

namespace ResponseTypes.Program

set_option autoImplicit false

/-- What the filter is asked to do. -/
structure Exchange where
  /-- the first set is the bytes that are not named -/
  complement : Bool := false
  delete : Bool := false
  squeeze : Bool := false
  /-- bytes of the first set without a partner stay -/
  truncate : Bool := false
deriving DecidableEq, Repr

namespace Exchange

/-- What it is asked by a letter too. -/
def withLetter (e : Exchange) : Char → Option Exchange
  | 'c' | 'C' => some { e with complement := true }
  | 'd' => some { e with delete := true }
  | 's' => some { e with squeeze := true }
  | 't' => some { e with truncate := true }
  | 'A' => some e
  | _ => none

/-- The letter of a word, of which only the start has to be there. -/
def letterOf? (word : List Char) : Option Char :=
  let words := ["complement", "delete", "squeeze-repeats", "truncate-set1"]
  match words.filter (fun w => word.isPrefixOf w.toList) with
  | [w] => w.toList.head?
  | _ => none

/-- Reads the options, up to the first argument that is none. -/
def readOptions (e : Exchange) : List String → Option (Exchange × List String)
  | [] => some (e, [])
  | argument :: rest =>
    match argument.toList with
    | ['-', '-'] => some (e, rest)
    | '-' :: '-' :: word => do readOptions (← e.withLetter (← letterOf? word)) rest
    | '-' :: c :: letters => do readOptions (← (c :: letters).foldlM withLetter e) rest
    | _ => some (e, argument :: rest)

/-- The bytes of the first set. -/
def chosen (e : Exchange) (set : List Item) : List Run :=
  let named := runsOf 0 set
  let members := membersOf named
  if e.complement then (allBytes.filter (fun c => !members.contains c)).map (·, 1) else named

/-- The places at which classes of letters begin, from `place` on, and their letters, given how many bytes a fill
takes. -/
def letterPlaces (filled place : Nat) : List Item → List (Nat × List Byte)
  | [] => []
  | i :: rest =>
    let more := letterPlaces filled (place + lengthOf (i.runs filled)) rest
    match i with
    | .letters l => (place, l) :: more
    | _ => more

/-- How many bytes a fill of the second set takes, if the first has `size` bytes. -/
def filledTo (size : Nat) (second : List Item) : Nat :=
  size - lengthOf (runsOf 0 second)

/-- The second set, filled up to as many bytes as the first has.  None if the two do not go together. -/
def partners (e : Exchange) (first second : List Item) : Option (List Run) :=
  let size := lengthOf (e.chosen first)
  let filled := filledTo size second
  let given := runsOf filled second
  let firstPlaces := (letterPlaces 0 0 first).map Prod.fst
  let isOther := fun (i : Item) => match i with
    | .same _ | .group _ => true
    | _ => false
  let isClass := fun (i : Item) => match i with
    | .letters _ | .group _ => true
    | _ => false
  if first.any Item.isFill || 1 < second.countP Item.isFill || second.any isOther then none
  else if !e.complement &&
      (letterPlaces filled 0 second).any (fun p => p.1 ≤ size && !firstPlaces.contains p.1) then none
  else
    let whole :=
      if size ≤ lengthOf given || e.truncate then some given
      else if second.getLast?.any isClass then none
      else given.getLast?.map (fun r => given ++ [(r.1, size - lengthOf given)])
    whole.filter (fun runs =>
      let members := membersOf runs
      !(e.complement && first.any isClass) ||
        (lengthOf runs = size && !members.isEmpty && members.all (fun c => some c == members.head?)))

/-- The pairs of bytes in the same places of two sets, each with the place at which it stands first. -/
def pairUp (place : Nat) : List Run → List Run → List (Nat × Byte × Byte)
  | (a, m) :: first, (b, n) :: second =>
    if m = 0 then pairUp place first ((b, n) :: second)
    else if n = 0 then pairUp place ((a, m) :: first) second
    else if m ≤ n then (place, a, b) :: pairUp (place + m) first ((b, n - m) :: second)
    else (place, a, b) :: pairUp (place + n) ((a, m - n) :: first) second
  | _, _ => []
termination_by first second => first.length + second.length

/-- The pairs of two sets.  Of a class of letters that is its own partner only the first letter counts. -/
def pairs (e : Exchange) (first second : List Item) (targets : List Run) : List (Byte × Byte) :=
  let size := lengthOf (e.chosen first)
  let kept := (letterPlaces 0 0 first).filter (letterPlaces (filledTo size second) 0 second).contains
  let isKept := fun (place : Nat) => !e.complement && kept.any (fun p => p.1 < place && place < p.1 + p.2.length)
  ((pairUp 0 (e.chosen first) targets).filter (fun p => !isKept p.1)).map Prod.snd

/-- The partner of a byte, the last if it has several; a byte without one is its own. -/
def partnerOf (pairs : List (Byte × Byte)) (c : Byte) : Byte :=
  (pairs.reverse.lookup c).getD c

/-- Bytes with one of each run that is squeezed. -/
def squeezed (set : List Byte) : List Byte → List Byte
  | [] => []
  | c :: rest =>
    if set.contains c && rest.head? == some c then squeezed set rest else c :: squeezed set rest

/-- What the filter makes of bytes, given one set or two. -/
def on (e : Exchange) (operands : List String) (input : List Byte) : Option (List Byte) := do
  match e.delete, e.squeeze, ← operands.mapM readSet with
  | true, false, [set] =>
    if set.any Item.isFill then none
    else
      let members := membersOf (e.chosen set)
      some (input.filter (fun c => !members.contains c))
  | false, true, [set] =>
    if set.any Item.isFill then none else some (squeezed (membersOf (e.chosen set)) input)
  | true, true, [set, others] =>
    if (set ++ others).any Item.isFill then none
    else
      let members := membersOf (e.chosen set)
      some (squeezed (membersOf (runsOf 0 others)) (input.filter (fun c => !members.contains c)))
  | false, squeeze, [set, others] =>
    let targets ← e.partners set others
    let pairs := e.pairs set others targets
    let output := input.map (partnerOf pairs)
    some (if squeeze then squeezed (membersOf targets) output else output)
  | _, _, _ => none

/-- How many bytes of written sets the filter goes through one by one. -/
def walked (e : Exchange) (operands : List String) : Nat :=
  match operands.filterMap (fun o => (readSet o).map (fun set => lengthOf (runsOf 0 set))) with
  | [n] => n
  | [n, m] =>
    if e.delete then n + m
    else
      (if e.truncate && !e.complement then min n m else n) +
        (if !e.squeeze then 0 else if e.truncate then m else max n m)
  | _ => 0

/-- How many bytes the filter can go through in the time that it has. -/
def patience : Nat := 5000000000

/-- What the filter makes of bytes, given all arguments; nothing if it does not end in time. -/
def run (arguments : List String) (input : List Byte) : Option (Option (List Byte)) := do
  let (e, operands) ← readOptions {} arguments
  let output ← e.on operands input
  some (if e.walked operands ≤ patience then some output else none)

end Exchange

end ResponseTypes.Program
