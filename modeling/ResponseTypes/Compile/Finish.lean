import ResponseTypes.Compile.Plan

/-!
# Finishing shapes

A shape is finished by composing the fragments that are spread into its objects; what is in conflict between them is
merged and finished in turn.  That takes nothing but the fields of fragments, which a `Query` asks for.
-/

namespace ResponseTypes.Compile

set_option autoImplicit false

/-- A computation that asks for the fields of fragments. -/
inductive Query (α : Type) where
  | done (a : α)
  | lack (e : Lack)
  | fields (fragment : String) (next : Fields → Query α)

namespace Query

/-- One query after the other. -/
def bind {α β : Type} : Query α → (α → Query β) → Query β
  | done a, f => f a
  | lack e, _ => lack e
  | fields fragment next, f => fields fragment (fun answer => (next answer).bind f)

instance : Monad Query where
  pure := done
  bind := bind

/-- Carries a query out, given how to get the fields of a fragment. -/
def perform (fieldsOf : String → Step Fields) {α : Type} : Query α → Step α
  | done a => pure a
  | lack e => Tracking.failHere e
  | fields fragment next => do
    let answer ← fieldsOf fragment
    (next answer).perform fieldsOf

end Query

/-! ## Field maps -/

mutual

/-- All fields of a shape, those of its branches, its parts and its fragments together. -/
def flatFields : Shape → Query Fields
  | .object _ fields _ => flatOwnFields [] fields
  | .ref r _ => .fields r.fragment .done
  | .union branches _ => flatFieldsOfAll [] branches
  | .inter parts _ => flatFieldsOfAll [] parts
  | .scalar _ _ | .tag _ _ | .array _ _ _ => pure []

/-- The fields of an object with those of its fragments in their places, after some fields. -/
def flatOwnFields (before : Fields) : List (String × Shape) → Query Fields
  | [] => pure before
  | (key, s) :: rest => do
    let fields ← if isFragmentKey key then flatFields s else pure [(key, s)]
    flatOwnFields (Shape.mergeFields before fields) rest

/-- All fields of some shapes, after some fields. -/
def flatFieldsOfAll (before : Fields) : List Shape → Query Fields
  | [] => pure before
  | s :: rest => do
    let fields ← flatFields s
    flatFieldsOfAll (Shape.mergeFields before fields) rest

end

mutual

/-- How many objects stand inside each other at most, with all fragments in their places. -/
def height (ofFragment : String → Nat) : Shape → Nat
  | .scalar _ _ | .tag _ _ => 0
  | .object _ fields _ => fieldsHeight ofFragment fields + 1
  | .array element _ _ => height ofFragment element
  | .union branches _ => listHeight ofFragment branches
  | .inter parts _ => listHeight ofFragment parts
  | .ref r _ => ofFragment r.fragment + 1

/-- The largest height of some shapes. -/
def listHeight (ofFragment : String → Nat) : List Shape → Nat
  | [] => 0
  | s :: rest => max (height ofFragment s) (listHeight ofFragment rest)

/-- The largest height of some fields; a fragment among them stands for its fields. -/
def fieldsHeight (ofFragment : String → Nat) : List (String × Shape) → Nat
  | [] => 0
  | (key, s) :: rest =>
    let own := height ofFragment s
    max (if isFragmentKey key then own - 1 else own) (fieldsHeight ofFragment rest)

end

/-- The height of a fragment's fields. -/
def heightIn (maps : Assoc String FieldMap) (fragment : String) : Nat :=
  ((Assoc.get? maps fragment).map (·.height)).getD 0

/-! ## Finishing shapes -/

/-- The fragment references among the fields of an object. -/
def refsOf (fields : Fields) : List (FragmentRef × Note) :=
  fields.filterMap (fun
    | (key, .ref r n) => if isFragmentKey key then some (r, n) else none
    | _ => none)

/-- The fields of an object that are no fragment references. -/
def directFields (fields : Fields) : Fields :=
  fields.filter (fun e => !isFragmentKey e.1)

/-- The field maps of the fragments among the fields of an object, added to some.  A fragment key has to hold a
reference. -/
def fieldMapsOf (maps : Shape.FieldMaps) : List (String × Shape) → Query Shape.FieldMaps
  | [] => pure maps
  | (key, s) :: rest =>
    if isFragmentKey key then
      match s with
      | .ref r _ => .fields r.fragment (fun fields => fieldMapsOf (Assoc.insert maps r.fragment fields) rest)
      | _ => .lack (fun _ => .partMissing "fragment")
    else fieldMapsOf maps rest

/-- The object of some fields, with the fragments among them composed. -/
def composeRefs (typeName : String) (fields : Fields) : Query Shape := do
  let maps ← fieldMapsOf [] fields
  match Shape.compose typeName (directFields fields) (refsOf fields) maps with
  | .ok s => return s
  | .error fragment => .lack (fun _ => .fieldMapMissing fragment)

mutual

/-- A shape whose objects with fragments are composed by `compose`, given their type, their fields and their note. -/
def finishBy (compose : String → Fields → Note → Query Shape) : Shape → Query Shape
  | .scalar code n => pure (.scalar code n)
  | .tag t n => pure (.tag t n)
  | .ref r n => pure (.ref r n)
  | .array element elementNullable n => do
    return .array (← finishBy compose element) elementNullable n
  | .union branches n => do return .union (← finishListBy compose branches) n
  | .inter parts n => do return .inter (← finishListBy compose parts) n
  | .object typeName fields n => do
    if fields.any (fun e => isFragmentKey e.1) then compose typeName fields n
    else return .object typeName (← finishFieldsBy compose fields) n

def finishListBy (compose : String → Fields → Note → Query Shape) : List Shape → Query (List Shape)
  | [] => pure []
  | s :: rest => do
    let s ← finishBy compose s
    return s :: (← finishListBy compose rest)

def finishFieldsBy (compose : String → Fields → Note → Query Shape) : List (String × Shape) → Query Fields
  | [] => pure []
  | (key, s) :: rest => do
    let s ← finishBy compose s
    return (key, s) :: (← finishFieldsBy compose rest)

end

/-- An object with the fragments among its fields composed, and those in what that gives, at most `depth` times inside
each other. -/
def composeWithin : Nat → String → Fields → Note → Query Shape
  | 0 => fun _ _ _ => .lack (fun _ => .endless)
  | depth + 1 => fun typeName fields n => do
    let composed ← composeRefs typeName fields
    return (← finishBy (composeWithin depth) composed).withNote n

/-- A shape with the fragments in its objects composed, at most `depth` times inside each other. -/
def finishWithin (depth : Nat) : Shape → Query Shape :=
  finishBy (composeWithin depth)

/-- Some shapes, finished. -/
def finishList (depth : Nat) : List Shape → Query (List Shape) :=
  finishListBy (composeWithin depth)

/-- Some fields, finished. -/
def finishFields (depth : Nat) : List (String × Shape) → Query Fields :=
  finishFieldsBy (composeWithin depth)

section Equations

variable {depth : Nat} {n : Note}

theorem finishWithin_scalar {code : String} : finishWithin depth (.scalar code n) = pure (.scalar code n) := rfl

theorem finishWithin_tag {t : TypeTag} : finishWithin depth (.tag t n) = pure (.tag t n) := rfl

theorem finishWithin_ref {r : FragmentRef} : finishWithin depth (.ref r n) = pure (.ref r n) := rfl

theorem finishWithin_array {element : Shape} {elementNullable : Bool} :
    finishWithin depth (.array element elementNullable n) =
      finishWithin depth element >>= fun s => pure (.array s elementNullable n) := rfl

theorem finishWithin_union {branches : List Shape} :
    finishWithin depth (.union branches n) = finishList depth branches >>= fun l => pure (.union l n) := rfl

theorem finishWithin_inter {parts : List Shape} :
    finishWithin depth (.inter parts n) = finishList depth parts >>= fun l => pure (.inter l n) := rfl

theorem finishWithin_object {typeName : String} {fields : Fields} :
    finishWithin depth (.object typeName fields n) =
      if fields.any (fun e => isFragmentKey e.1) then
        match depth with
        | 0 => .lack (fun _ => .endless)
        | depth + 1 => do
          let composed ← composeRefs typeName fields
          return (← finishWithin depth composed).withNote n
      else do return .object typeName (← finishFields depth fields) n := by
  cases depth <;> rfl

theorem finishList_nil : finishList depth [] = pure [] := rfl

theorem finishList_cons {s : Shape} {rest : List Shape} :
    finishList depth (s :: rest) =
      finishWithin depth s >>= fun s => finishList depth rest >>= fun l => pure (s :: l) := rfl

theorem finishFields_nil : finishFields depth [] = pure [] := rfl

theorem finishFields_cons {key : String} {s : Shape} {rest : List (String × Shape)} :
    finishFields depth ((key, s) :: rest) =
      finishWithin depth s >>= fun s => finishFields depth rest >>= fun fs => pure ((key, s) :: fs) := rfl

end Equations

end ResponseTypes.Compile
