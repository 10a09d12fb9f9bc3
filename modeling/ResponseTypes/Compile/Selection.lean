import ResponseTypes.Compile.Branches
import ResponseTypes.Compile.Input

/-!
# Compiling selections

`selection` plans the shape of selections on a type.  Selections on an object type form one object, those on an interface
or a union are sorted into `Groups`.  `select` carries the plan out; whenever a fragment is spread, `spread` is asked for
it.
-/

namespace ResponseTypes.Compile

set_option autoImplicit false

open GraphQL (FieldHead Selection TypeDef TypeRef)

/-- Values of a concrete type meet a condition. -/
def appliesTo (c : Config) (condition concrete : String) : Bool :=
  condition == concrete || c.schema.implements concrete condition

/-- The shape of a value that is output, given how to compile what is selected below it on its type. -/
def outputShape (c : Config) (below : Option (TypeDef → Plan Shape)) : TypeRef → Bool → Plan Shape
  | .nonNull t, _ => outputShape c below t false
  | .list t, nullable => do
    let element ← outputShape c below t true
    return .array element element.nullable { nullable }
  | .named n, nullable => do
    let t ← Plan.typeOf c n
    match t.body with
    | .object _ _ | .interface _ _ | .union _ =>
      match below with
      | none => return .object t.name [] { nullable }
      | some select => return (← select t).withNullable nullable
    | .enum _ => return .scalar (← enumType c t.name) { nullable }
    | .input _ => return .scalar (← inputType c t.name) { nullable }
    | .scalar => return .scalar (c.scalars.typeFor t.name) { nullable }

/-- The shape of a field of a type, given how to compile what is selected below it. -/
def fieldShape (c : Config) (t : TypeDef) (head : FieldHead) (conditional : Bool)
    (below : Option (TypeDef → Plan Shape)) : Plan Shape := do
  match t.field? head.name with
  | none => .lack (.fieldNotFound head.name t.name)
  | some field =>
    let s ← outputShape c below field.type true
    return s.withNote ⟨s.nullable || conditional, field.description⟩

/-- The object of fields on a concrete type.  If every selection has to select its type tag and none does, it is
added. -/
def objectOf (c : Config) (t : TypeDef) (fields : Fields) (tagged : Bool) : Plan Shape := do
  if c.output.alwaysTag && !tagged && !Assoc.has fields typenameKey then
    let tag ← typeTag t.name
    return .object t.name (Assoc.insert fields typenameKey (.tag tag {})) {}
  else return .object t.name fields {}

/-- The groups of an abstract type, at the end of its selections.  If every selection has to select its type tag, it is
added unless it is there. -/
def closeGroups {small : List Selection → Prop} (c : Config) (t : TypeDef) (g : Groups small) : Plan (Groups small) := do
  if c.output.alwaysTag && !Assoc.has g.base typenameKey then
    let tag ← abstractTag t.name
    return { g with base := Assoc.insert g.base typenameKey (.tag tag {}) }
  else return g

section Small

variable {small : List Selection → Prop} {s : Selection} {condition : Option String} {directives : List GraphQL.Directive}
  {below rest : List Selection}

theorem sizeOf_tail_lt : sizeOf rest < sizeOf (s :: rest) := by
  rw [List.cons.sizeOf_spec]
  omega

theorem sizeOf_below_lt : sizeOf below < sizeOf (Selection.inline condition directives below :: rest) := by
  rw [List.cons.sizeOf_spec, Selection.inline.sizeOf_spec]
  omega

/-- What is smaller than the rest of some selections is small if what is smaller than all of them is. -/
theorem small_tail (h : ∀ l, sizeOf l < sizeOf (s :: rest) → small l) : ∀ l, sizeOf l < sizeOf rest → small l :=
  fun l hl => h l (Nat.lt_trans hl sizeOf_tail_lt)

theorem small_below (h : ∀ l, sizeOf l < sizeOf (Selection.inline condition directives below :: rest) → small l) :
    small below :=
  h below sizeOf_below_lt

theorem small_inner (h : ∀ l, sizeOf l < sizeOf (Selection.inline condition directives below :: rest) → small l) :
    ∀ l, sizeOf l < sizeOf below → small l :=
  fun l hl => h l (Nat.lt_trans hl sizeOf_below_lt)

end Small

mutual

/-- The shape of selections on a type. -/
def selection (c : Config) (t : TypeDef) (sels : List Selection) : Plan Shape :=
  .keep t.name sels
    (.count "selection_sets"
      (if t.body.isAbstract then do
        let g ← @groups (fun l => sizeOf l < sizeOf sels) c t sels (fun _ h => h) {}
        ofGroups c ⟨fun t' s => selection c t' s.1, fun t' s => sharedAndOwn c t' s.1⟩ t g
      else if t.body.isObject then objectSelection c t [] false sels
      else .lack (.breach (.notSelectable t.name))))
    .done
termination_by 2 * sizeOf sels + 1
decreasing_by
  all_goals first
    | exact Nat.lt_succ_self _
    | have := s.2; omega

/-- The shape of selections on an object type, after some fields; `tagged` tells whether its tag was selected. -/
def objectSelection (c : Config) (t : TypeDef) (fields : Fields) (tagged : Bool)
    (sels : List Selection) : Plan Shape :=
  match sels with
  | [] => objectOf c t fields tagged
  | .field head below :: rest => do
    let conditional := (Selection.field head below).isConditional
    if head.name = typenameKey then
      let tag ← typeTag t.name
      objectSelection c t (mergeField fields head.key (.tag tag { nullable := conditional })) true rest
    else
      let s ← fieldShape c t head conditional
        (if below.isEmpty then none else some (fun t' => selection c t' below))
      objectSelection c t (mergeField fields head.key s) tagged rest
  | .spread name _ :: rest => do
    let f ← .spread name .done
    if appliesTo c f.fragment.condition t.name then
      objectSelection c t (Shape.mergeFields fields (refFields c f t.name)) tagged rest
    else objectSelection c t fields tagged rest
  | .inline condition _ below :: rest => do
    if appliesTo c (condition.getD t.name) t.name then
      let s ← selection c t below
      let more ← inlineFields s
      objectSelection c t (Shape.mergeFields fields more) tagged rest
    else objectSelection c t fields tagged rest
termination_by 2 * sizeOf sels

/-- Selections on an abstract type by what they target, added to those before them. -/
def groups {small : List Selection → Prop} (c : Config) (t : TypeDef) (sels : List Selection)
    (h : ∀ l, sizeOf l < sizeOf sels → small l) (g : Groups small) : Plan (Groups small) :=
  match sels with
  | [] => closeGroups c t g
  | .field head below :: rest => do
    let conditional := (Selection.field head below).isConditional
    if head.name = typenameKey then
      let tag ← abstractTag t.name
      groups c t rest (small_tail h)
        { g with base := mergeField g.base head.key (.tag tag { nullable := conditional }) }
    else
      let s ← fieldShape c t head conditional
        (if below.isEmpty then none else some (fun t' => selection c t' below))
      groups c t rest (small_tail h) { g with base := mergeField g.base head.key s }
  | .spread name _ :: rest => do
    let f ← .spread name .done
    if f.fragment.condition = t.name then
      groups c t rest (small_tail h) { g with ownSpreads := g.ownSpreads ++ [f] }
    else if (← Plan.typeOf c f.fragment.condition).body.isObject then
      groups c t rest (small_tail h)
        { g with concreteSpreads := appendAt g.concreteSpreads f.fragment.condition f }
    else
      groups c t rest (small_tail h) { g with abstractSpreads := g.abstractSpreads ++ [f] }
  | .inline condition _ below :: rest => do
    let t' ← Plan.typeOf c (condition.getD t.name)
    if condition.getD t.name = t.name then
      let g ← groups c t below (small_inner h) g
      groups c t rest (small_tail h) g
    else if t'.body.isObject then
      groups c t rest (small_tail h)
        { g with concreteInlines :=
            appendAt g.concreteInlines (condition.getD t.name) (t', ⟨below, small_below h⟩) }
    else
      groups c t rest (small_tail h)
        { g with abstractInlines := g.abstractInlines ++ [(t', ⟨below, small_below h⟩)] }
termination_by 2 * sizeOf sels

/-- The fields that selections on an abstract type share among all its types, and those of single types. -/
def sharedAndOwn (c : Config) (t : TypeDef) (sels : List Selection) :
    Plan (Fields × TypeFields) := do
  let g ← @groups (fun l => sizeOf l < sizeOf sels) c t sels (fun _ h => h) {}
  let per ← typeFields c ⟨fun t' s => selection c t' s.1, fun t' s => sharedAndOwn c t' s.1⟩ t
    (c.schema.possible t.name) g
  return (baseFields c t g, per)
termination_by 2 * sizeOf sels + 1
decreasing_by
  all_goals first
    | exact Nat.lt_succ_self _
    | have := s.2; omega

end

/-- The shape of selections on a type. -/
def select (c : Setup) (spread : Spread) (t : TypeDef) (sels : List Selection) : Step Shape :=
  (selection c.toConfig t sels).perform c.cached (host c spread)

end ResponseTypes.Compile
