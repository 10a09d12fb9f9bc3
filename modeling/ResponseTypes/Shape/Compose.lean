import ResponseTypes.Shape.Merge

/-!
# Composing fragments

`compose` gives the shape of an object from the fields that are selected on it and the fragments that are spread into
it.  Without conflicts it is the intersection of the fields and the fragment references.  A key is in conflict when
merging what is selected under it yields a union, or changes what was merged before; keys in conflict are merged into
one object and omitted from every fragment that declares them, and a fragment that is left without fields is dropped.
Type tags never conflict.
-/

namespace ResponseTypes.Shape

set_option autoImplicit false

/-- Field maps of fragments, by fragment. -/
abbrev FieldMaps := Assoc String Fields

/-- The fields that a reference stands for. -/
def refFields (maps : FieldMaps) (r : FragmentRef) : Fields :=
  (Assoc.get? maps r.fragment).getD []

/-- What is selected under a key: first directly, then by the fragments in order. -/
def contributions (direct : Fields) (maps : FieldMaps) (refs : List FragmentRef) (key : String) : List Shape :=
  (Assoc.get? direct key).toList ++ refs.filterMap (fun r => Assoc.get? (refFields maps r) key)

/-- The merge of shapes from left to right, and whether some step was a conflict. -/
def mergeAll (first : Shape) (rest : List Shape) : Shape × Bool :=
  rest.foldl (fun (merged, conflict) s =>
    let next := merge merged s
    (next, conflict || next.isUnion || !identical next merged)) (first, false)

/-- The merged shape of a key that is in conflict. -/
def conflict? (shapes : List Shape) : Option Shape :=
  match shapes with
  | first :: second :: rest =>
    if shapes.any isTag then none
    else
      let (merged, conflict) := mergeAll first (second :: rest)
      if conflict then some merged else none
  | _ => none

/-- The keys in conflict, with their merged shapes. -/
def conflicts (direct : Fields) (refs : List FragmentRef) (maps : FieldMaps) : Fields :=
  let keys := Assoc.keys direct ++ refs.flatMap (fun r => Assoc.keys (refFields maps r))
  (Text.distinct keys).filterMap (fun k => (conflict? (contributions direct maps refs k)).map (k, ·))

/-- A reference that leaves out the keys in conflict, unless nothing is left of it. -/
def keepRef? (maps : FieldMaps) (conflicts : Fields) (r : FragmentRef) (n : Note) : Option Shape :=
  let fields := refFields maps r
  let omitted := (Assoc.keys conflicts).filter (fun k => Assoc.has fields k)
  if !fields.isEmpty && omitted.length == fields.length then none else some (ref { r with omitted } n)

/-- An object of some fields, if there are any. -/
def objectOf? (typeName : String) (fields : Fields) : Option Shape :=
  if fields.isEmpty then none else some (object typeName fields {})

/-- The shape of an object with direct fields and fragment references.  Fails if the field map of a fragment is
missing, giving the fragment's name. -/
def compose (typeName : String) (direct : Fields) (refs : List (FragmentRef × Note)) (maps : FieldMaps) :
    Except String Shape :=
  match refs.find? (fun r => !Assoc.has maps r.1.fragment) with
  | some r => .error r.1.fragment
  | none =>
    let inConflict := conflicts direct (refs.map Prod.fst) maps
    let parts :=
      (objectOf? typeName inConflict).toList ++
        (objectOf? typeName (direct.filter (fun e => !Assoc.has inConflict e.1))).toList ++
        refs.filterMap (fun r => keepRef? maps inConflict r.1 r.2)
    .ok (match parts with
      | [] => object typeName [] {}
      | [s] => s
      | parts => inter parts {})

end ResponseTypes.Shape
