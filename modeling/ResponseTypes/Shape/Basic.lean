import ResponseTypes.Assoc
import ResponseTypes.Text.Replace

/-!
# Shapes

A `Shape` describes the values that a response may hold at one place: scalars, type tags, objects with their fields,
arrays, unions, intersections and references to the shapes of fragments.  Every shape carries a `Note`: whether the
value may be missing, and its description.

A fragment that is spread into an object stands among its fields under a key of its own, `fragmentKey`, which no
response key equals.
-/

namespace ResponseTypes

set_option autoImplicit false

/-- What is known of a value apart from its shape. -/
structure Note where
  nullable : Bool := false
  description : Option String := none
deriving DecidableEq, Repr, Inhabited

/-- The first of two descriptions that says something, and else the second. -/
def Note.firstDescription (a b : Option String) : Option String :=
  match a with
  | none | some "" => b
  | some _ => a

/-- The value of a type tag: one of `names`, or, if `within` is set, any possible type of that abstract type but
`names`.  The names are sorted and distinct. -/
structure TypeTag where
  names : List String
  within : Option String
deriving DecidableEq, Repr

namespace TypeTag

/-- A tag from names in any order. -/
def ofNames (names : List String) (within : Option String) : TypeTag :=
  ⟨Text.sorted (Text.distinct names), within⟩

/-- The tag of one concrete type. -/
def single (name : String) : TypeTag :=
  ⟨[name], none⟩

/-- The tag that covers all of an abstract type. -/
def allOf (abstractName : String) : TypeTag :=
  ⟨[], some abstractName⟩

end TypeTag

/-- A reference to the shape of a fragment. -/
structure FragmentRef where
  fragment : String
  /-- the name of the fragment's generated type -/
  artifact : String
  /-- the type the fragment is defined on -/
  condition : String
  /-- the type it is spread on -/
  parent : String
  /-- fields whose shape is given elsewhere -/
  omitted : List String
deriving DecidableEq, Repr

inductive Shape where
  /-- a scalar, an enum or an input type, by its type expression -/
  | scalar (code : String) (note : Note)
  | tag (tag : TypeTag) (note : Note)
  | object (typeName : String) (fields : List (String × Shape)) (note : Note)
  | array (element : Shape) (elementNullable : Bool) (note : Note)
  | union (branches : List Shape) (note : Note)
  | inter (parts : List Shape) (note : Note)
  | ref (ref : FragmentRef) (note : Note)
deriving Repr, Inhabited

/-- Shapes by response key, or by fragment key. -/
abbrev Fields := List (String × Shape)

/-- The key of a fragment reference among the fields of an object. -/
def fragmentKey (artifact : String) : String :=
  "..." ++ artifact

/-- The key is that of a fragment reference. -/
def isFragmentKey (key : String) : Bool :=
  "...".toList.isPrefixOf key.toList

namespace Shape

/-! ## Equality -/

mutual

/-- The shapes are equal. -/
def same : Shape → Shape → Bool
  | scalar code n, scalar code' n' => code == code' && n == n'
  | tag t n, tag t' n' => t == t' && n == n'
  | object typeName fields n, object typeName' fields' n' => typeName == typeName' && sameFields fields fields' && n == n'
  | array element elementNullable n, array element' elementNullable' n' =>
    same element element' && elementNullable == elementNullable' && n == n'
  | union branches n, union branches' n' => sameList branches branches' && n == n'
  | inter parts n, inter parts' n' => sameList parts parts' && n == n'
  | ref r n, ref r' n' => r == r' && n == n'
  | _, _ => false

def sameList : List Shape → List Shape → Bool
  | [], [] => true
  | s :: rest, s' :: rest' => same s s' && sameList rest rest'
  | _, _ => false

def sameFields : List (String × Shape) → List (String × Shape) → Bool
  | [], [] => true
  | (key, s) :: rest, (key', s') :: rest' => key == key' && same s s' && sameFields rest rest'
  | _, _ => false

end

mutual

theorem same_iff : (a b : Shape) → (same a b = true ↔ a = b)
  | scalar _ _, b | tag _ _, b | ref _ _, b => by cases b <;> simp [same]
  | array element _ _, b => by cases b <;> simp [same, same_iff element, and_assoc]
  | object _ fields _, b => by cases b <;> simp [same, sameFields_iff fields, and_assoc]
  | union branches _, b => by cases b <;> simp [same, sameList_iff branches]
  | inter parts _, b => by cases b <;> simp [same, sameList_iff parts]

theorem sameList_iff : (l l' : List Shape) → (sameList l l' = true ↔ l = l')
  | [], l' => by cases l' <;> simp [sameList]
  | s :: rest, l' => by cases l' <;> simp [sameList, same_iff s, sameList_iff rest]

theorem sameFields_iff : (fs fs' : List (String × Shape)) → (sameFields fs fs' = true ↔ fs = fs')
  | [], fs' => by cases fs' <;> simp [sameFields]
  | (key, s) :: rest, [] => by simp [sameFields]
  | (key, s) :: rest, (key', s') :: rest' => by simp [sameFields, same_iff s, sameFields_iff rest]

end

instance : DecidableEq Shape :=
  fun a b => decidable_of_iff (same a b = true) (same_iff a b)

/-! ## Notes, fields and nesting -/

def note : Shape → Note
  | scalar _ n | tag _ n | object _ _ n | array _ _ n | union _ n | inter _ n | ref _ n => n

/-- The same shape with another note. -/
def withNote (n : Note) : Shape → Shape
  | scalar code _ => scalar code n
  | tag t _ => tag t n
  | object typeName fields _ => object typeName fields n
  | array element elementNullable _ => array element elementNullable n
  | union branches _ => union branches n
  | inter parts _ => inter parts n
  | ref r _ => ref r n

/-- The value may be missing. -/
def nullable (s : Shape) : Bool :=
  s.note.nullable

def description (s : Shape) : Option String :=
  s.note.description

/-- The same shape, that may be missing or not. -/
def withNullable (nullable : Bool) (s : Shape) : Shape :=
  s.withNote { s.note with nullable }

/-- The fields of an object; other shapes have none. -/
def fields : Shape → Fields
  | object _ fields _ => fields
  | _ => []

def isTag : Shape → Bool
  | tag _ _ => true
  | _ => false

def isUnion : Shape → Bool
  | union _ _ => true
  | _ => false

mutual

/-- How many objects and arrays stand inside each other at most. -/
def nesting : Shape → Nat
  | scalar _ _ | tag _ _ | ref _ _ => 0
  | object _ fields _ => fieldsNesting fields + 1
  | array element _ _ => nesting element + 1
  | union branches _ => listNesting branches
  | inter parts _ => listNesting parts

/-- The largest nesting of some shapes. -/
def listNesting : List Shape → Nat
  | [] => 0
  | s :: rest => max (nesting s) (listNesting rest)

/-- The largest nesting of some fields. -/
def fieldsNesting : List (String × Shape) → Nat
  | [] => 0
  | (_, s) :: rest => max (nesting s) (fieldsNesting rest)

end

@[simp] theorem note_withNote (n : Note) (s : Shape) : (s.withNote n).note = n := by
  cases s <;> rfl

@[simp] theorem withNote_note (s : Shape) : s.withNote s.note = s := by
  cases s <;> rfl

@[simp] theorem nesting_withNote (n : Note) (s : Shape) : (s.withNote n).nesting = s.nesting := by
  cases s <;> simp [withNote, nesting]

end Shape

end ResponseTypes
