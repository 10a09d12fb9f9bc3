import ResponseTypes.Compile.Declared
import ResponseTypes.Shape.Merge

/-!
# Selections on interfaces and unions

What is selected on an interface or a union is first sorted by what it targets (`Groups`).  Fields selected on the
abstract type itself are shared by all branches; a concrete type that a fragment or an inline fragment targets gets
fields of its own on top (`typeFields`).  There is one branch per possible type (`branches`): a targeted type has its own
type tag, and all others share one.
-/

namespace ResponseTypes.Compile

set_option autoImplicit false

open GraphQL (Selection TypeDef)

variable {small : List Selection → Prop}

/-- The response key and the field name of type tags. -/
def typenameKey : String := "__typename"

/-- Fields by concrete type. -/
abbrev TypeFields := Assoc String Fields

/-- Selections that are small enough to be compiled inside others. -/
abbrev SmallSelections (small : List Selection → Prop) := { sels : List Selection // small sels }

/-- Selections on an abstract type, by what they target.  What inline fragments select is kept as it is written; all of
it is `small`. -/
structure Groups (small : List Selection → Prop) where
  /-- fields of the abstract type itself -/
  base : Fields := []
  /-- fragments on the abstract type itself -/
  ownSpreads : List FragmentDef := []
  /-- fragments on concrete types -/
  concreteSpreads : Assoc String (List FragmentDef) := []
  /-- fragments on other abstract types -/
  abstractSpreads : List FragmentDef := []
  /-- inline fragments on concrete types -/
  concreteInlines : Assoc String (List (TypeDef × SmallSelections small)) := []
  /-- inline fragments on other types -/
  abstractInlines : List (TypeDef × SmallSelections small) := []

/-- How groups are compiled further. -/
structure GroupCompiler (small : List Selection → Prop) where
  /-- the shape of an inline fragment on a concrete type -/
  concrete : TypeDef → SmallSelections small → Plan Shape
  /-- the fields that an inline fragment on another type shares among all types, and those of single types -/
  abstract : TypeDef → SmallSelections small → Plan (Fields × TypeFields)

/-- The fields of a type. -/
def TypeFields.of (per : TypeFields) (name : String) : Fields :=
  (Assoc.get? per name).getD []

/-- Adds a value to the list of a key. -/
def appendAt {α : Type} (m : Assoc String (List α)) (key : String) (a : α) : Assoc String (List α) :=
  Assoc.insert m key ((Assoc.get? m key).getD [] ++ [a])

/-- The fields with another one merged in. -/
def mergeField (fields : Fields) (key : String) (s : Shape) : Fields :=
  Assoc.insert fields key (Shape.mergeInto (Assoc.get? fields key) s)

/-- A reference to a fragment that is spread on a type. -/
def fragmentRef (c : Config) (f : FragmentDef) (parent : String) : FragmentRef where
  fragment := f.fragment.name
  artifact := c.naming.fragment f.fragment.name
  condition := f.fragment.condition
  parent := parent
  omitted := []

/-- A reference to a fragment as a shape. -/
def refShape (c : Config) (f : FragmentDef) (parent : String) : Shape :=
  .ref (fragmentRef c f parent) {}

/-- A reference to a fragment as a field. -/
def refFields (c : Config) (f : FragmentDef) (parent : String) : Fields :=
  [(fragmentKey (fragmentRef c f parent).artifact, refShape c f parent)]

/-- The shape of selections that are nothing but fragment spreads: a reference to the one fragment on the abstract type,
or one reference for each concrete type, if each has one fragment. -/
def shortcut? (c : Config) (t : TypeDef) (possible : List String) (g : Groups small) : Option Shape :=
  match g.ownSpreads with
  | [own] =>
    if g.concreteSpreads.isEmpty && g.abstractSpreads.isEmpty then some (refShape c own t.name) else none
  | _ :: _ :: _ => none
  | [] =>
    if !g.abstractSpreads.isEmpty || g.concreteSpreads.any (fun e => e.2.length > 1) then none
    else
      let targeted := g.concreteSpreads.filter (fun e => possible.contains e.1)
      let refs := targeted.flatMap (fun e => e.2.map (fun f => refShape c f t.name))
      let rest := if targeted.length < possible.length then [Shape.object t.name [] {}] else []
      match refs, rest with
      | [], _ => none
      | [ref], [] => some ref
      | refs, rest => some (.union (refs ++ rest) {})

/-- The fields that all branches share, with the fragments on the abstract type. -/
def baseFields (c : Config) (t : TypeDef) (g : Groups small) : Fields :=
  g.ownSpreads.foldl (fun fields f => Shape.mergeFields fields (refFields c f t.name)) g.base

/-- The fields with a tag in the place of each tag. -/
def retag (tag : TypeTag) (fields : Fields) : Fields :=
  fields.map (fun e => (e.1, if e.2.isTag then .tag tag { nullable := e.2.nullable } else e.2))

/-- The fields with the tag of a concrete type in the place of each tag; the tag gets declared if there is one. -/
def resolveTags (name : String) (fields : Fields) : Plan Fields := do
  if fields.any (fun e => e.2.isTag) then
    fields.mapM (fun e => do
      if e.2.isTag then
        let tag ← typeTag name
        return (e.1, .tag tag { nullable := e.2.nullable })
      else return e)
  else return fields

/-- The fields of a shape that is merged into an object, which has to be an object itself. -/
def inlineFields : Shape → Plan Fields
  | .object _ fields _ => .done fields
  | _ => .lack (fun _ => .partMissing "fields")

/-- Adds fields to those of a possible type. -/
def contribute (possible : List String) (name : String) (fields : Fields) (per : TypeFields) :
    Plan TypeFields := do
  if !possible.contains name || fields.isEmpty then return per
  else
    let fields ← resolveTags name fields
    return Assoc.insert per name (Shape.mergeFields (per.of name) fields)

/-- The fields that fragments and inline fragments add for each possible type. -/
def typeFields (c : Config) (below : GroupCompiler small) (t : TypeDef) (possible : List String) (g : Groups small) :
    Plan TypeFields := do
  let per : TypeFields := []
  let per ← g.concreteInlines.foldlM (fun per e => do
    if possible.contains e.1 then
      e.2.foldlM (fun per i => do
        let s ← below.concrete i.1 i.2
        let fields ← inlineFields s
        contribute possible e.1 fields per) per
    else return per) per
  let per ← g.concreteSpreads.foldlM (fun per e =>
    e.2.foldlM (fun per f => contribute possible e.1 (refFields c f t.name) per) per) per
  let per ← g.abstractSpreads.foldlM (fun per f =>
    possible.foldlM (fun per name =>
      if c.schema.implements name f.fragment.condition then contribute possible name (refFields c f t.name) per
      else pure per) per) per
  g.abstractInlines.foldlM (fun per e => do
    let (base, nested) ← below.abstract e.1 e.2
    possible.foldlM (fun per name =>
      if c.schema.implements name e.1.name then
        contribute possible name (Shape.mergeFields base (nested.of name)) per
      else pure per) per) per

/-- The tag that the branches of types without fields of their own share.  It leaves out the targeted types if that is
shorter than listing the others. -/
def sharedTag (t : TypeDef) (possible targeted : List String) : Plan TypeTag := do
  if targeted.isEmpty then abstractTag t.name
  else
    let others := possible.filter (fun n => !targeted.contains n)
    if others.length > targeted.length && others.length > 2 then
      .declare (.tagUnion t.name) (.done (.ofNames targeted (some t.name)))
    else
      others.forM (fun n => .declare (.tag n) (.done ()))
      return .ofNames others none

/-- The branches of the possible types, given the shared tag if it is known. -/
def branchesFrom (c : Config) (t : TypeDef) (possible : List String) (base : Fields) (per : TypeFields)
    (shared : Option TypeTag) : List String → Plan (List Shape)
  | [] => pure []
  | name :: rest => do
    let fields := Shape.mergeFields base (per.of name)
    if !fields.any (fun e => e.2.isTag) then
      let more ← branchesFrom c t possible base per shared rest
      return .object name fields {} :: more
    else if Assoc.has per name || !c.output.mergeTags then
      let tag ← typeTag name
      let more ← branchesFrom c t possible base per shared rest
      return .object name (retag tag fields) {} :: more
    else
      let tag ← match shared with
        | some tag => pure tag
        | none => sharedTag t possible (possible.filter (Assoc.has per))
      let more ← branchesFrom c t possible base per (some tag) rest
      return .object name (retag tag fields) {} :: more

/-- One branch for each possible type. -/
def branches (c : Config) (t : TypeDef) (possible : List String) (base : Fields) (per : TypeFields) :
    Plan (List Shape) :=
  branchesFrom c t possible base per none possible

/-- The shape of some branches. -/
def ofBranches (t : TypeDef) : List Shape → Shape
  | [] => .object t.name [] {}
  | [s] => s
  | branches => .union branches {}

/-- The shape of selections on an abstract type. -/
def ofGroups (c : Config) (below : GroupCompiler small) (t : TypeDef) (g : Groups small) : Plan Shape := do
  let possible := c.schema.possible t.name
  let spreadsOnly := g.base.isEmpty && g.concreteInlines.isEmpty && g.abstractInlines.isEmpty
  match if spreadsOnly then shortcut? c t possible g else none with
  | some s => return s
  | none =>
    let per ← typeFields c below t possible g
    return ofBranches t (← branches c t possible (baseFields c t g) per)

end ResponseTypes.Compile
