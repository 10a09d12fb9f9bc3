/-!
# Replacing, joining and sorting

`replace` puts a text in the place of every occurrence of another, from left to right and without overlap;
`joinWith` puts a separator between texts.  `sortBy` is stable, and `sorted` sorts texts with it.
-/

namespace ResponseTypes.Text

set_option autoImplicit false

/-- Replaces the occurrences of `pattern`, after `skip` characters that belong to the last one. -/
def replaceFrom (pattern insert : List Char) : Nat → List Char → List Char
  | _, [] => []
  | skip + 1, _ :: rest => replaceFrom pattern insert skip rest
  | 0, c :: rest =>
    if pattern.isPrefixOf (c :: rest) then insert ++ replaceFrom pattern insert (pattern.length - 1) rest
    else c :: replaceFrom pattern insert 0 rest

/-- Replaces every occurrence of `pattern`, which is not empty, by `insert`. -/
def replace (pattern insert : List Char) (cs : List Char) : List Char :=
  replaceFrom pattern insert 0 cs

/-- The same on strings. -/
def replaceIn (s pattern insert : String) : String :=
  String.ofList (replace pattern.toList insert.toList s.toList)

/-- The texts with a separator between each two. -/
def joinWith (separator : String) (parts : List String) : String :=
  String.intercalate separator parts

/-- Some text of `pattern` occurs in `cs`. -/
def occursIn (pattern : List Char) : List Char → Bool
  | [] => pattern.isEmpty
  | c :: rest => pattern.isPrefixOf (c :: rest) || occursIn pattern rest

/-- The distinct texts of a list, at their first places. -/
def distinct {α : Type} [BEq α] : List α → List α
  | [] => []
  | a :: rest => a :: (distinct rest).filter (fun b => !(b == a))

/-- Inserts an element before the first one that it may stand before. -/
def insertBy {α : Type} (le : α → α → Bool) (a : α) : List α → List α
  | [] => [a]
  | b :: rest => if le a b then a :: b :: rest else b :: insertBy le a rest

/-- The elements in order; those that are equal in it stay in theirs. -/
def sortBy {α : Type} (le : α → α → Bool) (l : List α) : List α :=
  l.foldr (insertBy le) []

/-- The texts in the order of their code points. -/
def sorted (texts : List String) : List String :=
  sortBy (fun a b => decide (a ≤ b)) texts

end ResponseTypes.Text
