import ResponseTypes.Shape.Key

/-!
# Merging shapes

`merge a b` is the shape of a value that is selected twice, once with each shape, under one response key.  The value may
only be missing if both say so.  Objects merge field by field and arrays element by element; shapes of different kinds
form a union, or an intersection if a fragment reference takes part.  A union keeps one object branch per concrete type
and no two identical branches of another kind.

Merging goes down one object or array at a time: `mergeAt n` merges shapes whose nesting is at most `n`, which `merge`
chooses large enough.
-/

namespace ResponseTypes.Shape

set_option autoImplicit false

/-- The note of a merged value, with the first description that says something. -/
def mergeNotes (a b : Note) : Note :=
  ⟨a.nullable && b.nullable, Note.firstDescription a.description b.description⟩

/-- The note of a merged value that keeps its own description. -/
def keepNote (a b : Note) : Note :=
  ⟨a.nullable && b.nullable, a.description⟩

/-- One tag for the values of two, if there is one. -/
def uniteTags (a b : TypeTag) : Option TypeTag :=
  match a.within, b.within with
  | none, none => some (.ofNames (a.names ++ b.names) none)
  | some w, none => some ⟨a.names.filter (fun n => !b.names.contains n), some w⟩
  | none, some w => some ⟨b.names.filter (fun n => !a.names.contains n), some w⟩
  | some w, some w' => if w = w' then some ⟨a.names.filter b.names.contains, some w⟩ else none

/-- The parts of an intersection and more of them, without those that are there already. -/
def appendParts (parts more : List Shape) : List Shape :=
  more.foldl (fun acc s => if s.occursIn acc then acc else acc ++ [s]) parts

mutual

/-- The branches of a union, with those of unions among them in their place. -/
def flatBranches : Shape → List Shape
  | union branches _ => flatList branches
  | s => [s]

/-- The branches of some shapes. -/
def flatList : List Shape → List Shape
  | [] => []
  | s :: rest => flatBranches s ++ flatList rest

end

/-- The shape is an object of the concrete type. -/
def isObjectOf (typeName : String) : Shape → Bool
  | object typeName' _ _ => typeName' == typeName
  | _ => false

/-- Changes the first shape that satisfies `p`. -/
def updateFirst (p : Shape → Bool) (f : Shape → Shape) : List Shape → List Shape
  | [] => []
  | s :: rest => if p s then f s :: rest else s :: updateFirst p f rest

section Layer

variable (below : Shape → Shape → Shape)

/-- Merges field maps key by key.  The keys of the first keep their order, new ones follow in theirs. -/
def mergeFieldsWith (a b : Fields) : Fields :=
  a.map (fun e => (e.1, match Assoc.get? b e.1 with
    | some s => below e.2 s
    | none => e.2)) ++ b.filter (fun e => !Assoc.has a e.1)

/-- Merges two objects; the first gives the type. -/
def mergeObjects (a b : Shape) : Shape :=
  match a, b with
  | object typeName fields n, object _ fields' n' =>
    object typeName (mergeFieldsWith below fields fields') (keepNote n n')
  | _, _ => a

/-- Adds a branch, which is no union, to those of a union. -/
def addBranch (branches : List Shape) (s : Shape) : List Shape :=
  match s with
  | object typeName _ _ =>
    if branches.any (isObjectOf typeName) then
      updateFirst (isObjectOf typeName) (fun first => mergeObjects below first s) branches
    else branches ++ [s]
  | _ => if s.occursIn branches then branches else branches ++ [s]

/-- The branches of a union of shapes: objects of one type are merged, identical branches of other kinds appear once. -/
def unifyWith (shapes : List Shape) : List Shape :=
  (flatList shapes).foldl (addBranch below) []

/-- Merges shapes of different kinds. -/
def mergeMismatched (a b : Shape) : Shape :=
  let n := mergeNotes a.note b.note
  match a, b with
  | object typeName fields _, ref r _ =>
    object typeName (mergeFieldsWith below fields [(fragmentKey r.artifact, b)]) n
  | ref r _, object typeName fields _ =>
    object typeName (mergeFieldsWith below [(fragmentKey r.artifact, a)] fields) n
  | inter parts _, _ => inter (appendParts parts [b]) n
  | _, inter parts _ => inter (appendParts [a] parts) n
  | ref _ _, _ | _, ref _ _ => inter [a, b] n
  | _, _ => union (unifyWith below [a, b]) n

/-- Merges two shapes, given how to merge what their objects and arrays hold. -/
def mergeWith (a b : Shape) : Shape :=
  let n := keepNote a.note b.note
  match a, b with
  | scalar code _, scalar code' _ =>
    if code = code' then a.withNote n
    else union (unifyWith below [a.withNullable false, b.withNullable false]) n
  | tag t m, tag t' m' =>
    match uniteTags t t' with
    | some t => tag t (mergeNotes m m')
    | none => union [a, b] n
  | object _ _ _, object _ _ _ => mergeObjects below a b
  | array element elementNullable _, array element' elementNullable' _ =>
    array (below element element') (elementNullable || elementNullable') n
  | union branches _, union branches' _ => union (unifyWith below (branches ++ branches')) n
  | inter parts _, inter parts' _ => inter (appendParts parts parts') n
  | ref r _, ref r' _ => if r.artifact = r'.artifact then a.withNote n else inter [a, b] n
  | _, _ => mergeMismatched below a b

end Layer

/-- Merges shapes whose nesting is at most `n`. -/
def mergeAt : Nat → Shape → Shape → Shape
  | 0 => mergeWith (fun a _ => a)
  | n + 1 => mergeWith (mergeAt n)

/-- Merges two shapes. -/
def merge (a b : Shape) : Shape :=
  mergeAt (max a.nesting b.nesting) a b

/-- Merges a shape into what is there, if anything is. -/
def mergeInto (a : Option Shape) (b : Shape) : Shape :=
  match a with
  | none => b
  | some a => merge a b

/-- Merges two field maps. -/
def mergeFields (a b : Fields) : Fields :=
  mergeFieldsWith merge a b

/-- The branches of the union of some shapes. -/
def unify (shapes : List Shape) : List Shape :=
  unifyWith (mergeAt (listNesting shapes - 1)) shapes

end ResponseTypes.Shape
