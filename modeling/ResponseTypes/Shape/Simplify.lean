import ResponseTypes.Shape.Merge

/-!
# Simplifying unions

Object branches of a union that differ in nothing but their type tags become one branch, whose tags cover those of all
of them.  A union that is left with one branch is replaced by it.
-/

namespace ResponseTypes.Shape

set_option autoImplicit false

/-- The fields with their tags united with those under the same keys of other fields, if each can be. -/
def uniteFieldTags (others : Fields) : Fields → Option Fields
  | [] => some []
  | (k, s) :: rest =>
    match s with
    | tag t n =>
      match Assoc.get? others k with
      | some (tag t' n') => do
        let united ← uniteTags t t'
        let rest ← uniteFieldTags others rest
        return (k, tag united (mergeNotes n n')) :: rest
      | _ => none
    | _ => (uniteFieldTags others rest).map ((k, s) :: ·)

/-- The first of two object branches with tags that cover those of both. -/
def combine (a b : Shape) : Option Shape :=
  match a, b with
  | object typeName fields n, object _ fields' _ =>
    (uniteFieldTags fields' fields).map (fun fs => object typeName fs n)
  | _, _ => none

/-- The branches are objects that differ in nothing but tags. -/
def alike (a b : Shape) : Bool :=
  match a, b with
  | object _ _ _, object _ _ _ => decide (key true a = key true b)
  | _, _ => false

/-- Adds a branch to simplified ones: into the first that it can be combined with, and else last. -/
def absorb (s : Shape) : List Shape → List Shape
  | [] => [s]
  | first :: rest =>
    match if alike first s then combine first s else none with
    | some both => both :: rest
    | none => first :: absorb s rest

/-- Combines the branches of a union that can be, from left to right. -/
def combineBranches (branches : List Shape) : List Shape :=
  branches.foldl (fun acc s => absorb s acc) []

/-- The union of simplified branches; a lone branch takes the note of the union. -/
def unionOf (branches : List Shape) (n : Note) : Shape :=
  match combineBranches branches with
  | [s] => s.withNote ⟨n.nullable, Note.firstDescription n.description s.description⟩
  | branches => union branches n

mutual

/-- Simplifies the unions of a shape. -/
def simplify : Shape → Shape
  | scalar code n => scalar code n
  | tag t n => tag t n
  | ref r n => ref r n
  | object typeName fields n => object typeName (simplifyFields fields) n
  | array element elementNullable n => array (simplify element) elementNullable n
  | inter parts n => inter (simplifyList parts) n
  | union branches n => unionOf (simplifyList branches) n

/-- Simplifies some shapes. -/
def simplifyList : List Shape → List Shape
  | [] => []
  | s :: rest => simplify s :: simplifyList rest

/-- Simplifies some fields. -/
def simplifyFields : List (String × Shape) → List (String × Shape)
  | [] => []
  | (k, s) :: rest => (k, simplify s) :: simplifyFields rest

end

end ResponseTypes.Shape
