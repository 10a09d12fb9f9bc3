import ResponseTypes.Proofs.Plan.Kept

/-!
# Field collection

`collectKeys c n sels` : the response keys of the fields that field collection reaches for a value of the concrete type
`n`, and the keys of the fragments whose spreads it reaches, without looking into fragments.  Which selections apply to a
concrete type is said by the kind of their type condition (`Schema.doesFragmentTypeApply`).

`demandedKeys c n t sels` : those of these keys that may not be missing when the selections are on the type `t`: a field is
selected under the key on no condition of its own, and its type is not nullable.
-/

namespace ResponseTypes

set_option autoImplicit false

open GraphQL (FieldHead Selection TypeDef)

theorem GraphQL.TypeBody.not_isAbstract {b : GraphQL.TypeBody} (h : b.isObject = true) : ¬ b.isAbstract = true := by
  cases b <;> simp_all [isObject, isAbstract]

namespace Schema

/-- What is selected under a type condition applies to values of a concrete type: the condition is the type itself, or an
interface it implements, or a union it belongs to. -/
def doesFragmentTypeApply (s : Schema) (condition concrete : String) : Bool :=
  match s.type? condition with
  | some ⟨_, .object _ _, _⟩ => condition == concrete
  | some ⟨_, .interface _ _, _⟩ | some ⟨_, .union _, _⟩ => s.implements concrete condition
  | _ => false

variable {s : Schema}

theorem mem_possible_iff {concrete condition : String} :
    s.implements concrete condition = true ↔ concrete ∈ s.possible condition :=
  List.contains_iff_mem

/-- Only interfaces and unions have possible types. -/
theorem isAbstract_of_mem_possible {name concrete : String} {t : TypeDef} (ht : s.type? name = some t)
    (h : concrete ∈ s.possible name) : t.body.isAbstract = true := by
  obtain ⟨_, body, _⟩ := t
  unfold possible at h
  rw [ht] at h
  cases body <;> first | rfl | cases h

theorem applies_of_isObject {condition : String} {t : TypeDef} (ht : s.type? condition = some t)
    (hobject : t.body.isObject = true) (concrete : String) :
    s.doesFragmentTypeApply condition concrete = true ↔ condition = concrete := by
  obtain ⟨_, body, _⟩ := t
  unfold doesFragmentTypeApply
  rw [ht]
  cases body <;> first | exact beq_iff_eq | cases hobject

theorem applies_of_not_isObject {condition : String} {t : TypeDef} (ht : s.type? condition = some t)
    (hobject : ¬ t.body.isObject = true) (concrete : String) :
    s.doesFragmentTypeApply condition concrete = true ↔ concrete ∈ s.possible condition := by
  have habstract : ¬ t.body.isAbstract = true → concrete ∉ s.possible condition :=
    fun h hmem => h (isAbstract_of_mem_possible ht hmem)
  obtain ⟨_, body, _⟩ := t
  unfold doesFragmentTypeApply
  rw [ht]
  cases body with
  | object interfaces fields => exact absurd rfl hobject
  | interface | union => exact mem_possible_iff
  | scalar | enum | input => exact ⟨nofun, fun h => absurd h (habstract nofun)⟩

/-- What is selected on an abstract type applies to its possible types. -/
theorem applies_of_mem_possible {condition concrete : String} (h : concrete ∈ s.possible condition) :
    s.doesFragmentTypeApply condition concrete = true := by
  cases ht : s.type? condition with
  | none =>
    unfold possible at h
    rw [ht] at h
    cases h
  | some t =>
    have habstract := isAbstract_of_mem_possible ht h
    exact (applies_of_not_isObject ht (fun hobject => GraphQL.TypeBody.not_isAbstract hobject habstract) concrete).2 h

end Schema

namespace Compile

/-- The key of a fragment that is spread. -/
def spreadKey (c : Sources) (f : FragmentDef) : String :=
  fragmentKey (c.naming.fragment f.fragment.name)

mutual

/-- The keys that a selection collects for a value of the concrete type `n`, with spreads left as they are.  Directives
that leave a selection out are not decided. -/
def selectionKeys (c : Sources) (n : String) : Selection → List String
  | .field head _ => [head.key]
  | .spread name _ =>
    match Assoc.get? c.fragments name with
    | some f => if c.schema.doesFragmentTypeApply f.fragment.condition n then [spreadKey c f] else []
    | none => []
  | .inline condition _ below =>
    if condition.all (c.schema.doesFragmentTypeApply · n) then collectKeys c n below else []

/-- The keys that selections collect for a value of the concrete type `n`. -/
def collectKeys (c : Sources) (n : String) : List Selection → List String
  | [] => []
  | s :: rest => selectionKeys c n s ++ collectKeys c n rest

end

variable {c : Sources}

@[simp] theorem collectKeys_nil (n : String) : collectKeys c n [] = [] := rfl

@[simp] theorem collectKeys_cons (n : String) (s : Selection) (rest : List Selection) :
    collectKeys c n (s :: rest) = selectionKeys c n s ++ collectKeys c n rest := rfl

theorem mem_selectionKeys_spread {n k name : String} {directives : List GraphQL.Directive} {f : FragmentDef}
    (hf : Assoc.get? c.fragments name = some f) : k ∈ selectionKeys c n (.spread name directives) ↔
      c.schema.doesFragmentTypeApply f.fragment.condition n = true ∧ k = spreadKey c f := by
  rw [selectionKeys, hf]
  dsimp only
  split
  · rename_i h
    simp [h]
  · rename_i h
    simp [h]

theorem mem_selectionKeys_inline {n k : String} {condition : Option String} {directives : List GraphQL.Directive}
    {below : List Selection} : k ∈ selectionKeys c n (.inline condition directives below) ↔
      condition.all (c.schema.doesFragmentTypeApply · n) = true ∧ k ∈ collectKeys c n below := by
  rw [selectionKeys]
  split
  · rename_i h
    simp [h]
  · rename_i h
    simp [h]

/-! ## Keys that may not be missing -/

/-- A field that is selected on a type may not be missing: it is selected on no condition, and its type is not nullable. -/
def isDemanded (t : TypeDef) (head : FieldHead) (below : List Selection) : Bool :=
  !(Selection.field head below).isConditional &&
    (head.name == typenameKey || (t.field? head.name).any fun field => field.type.isNonNull)

/-- The type on which an inline fragment among selections on a type is compiled. -/
def Config.narrowed (c : Config) (t : TypeDef) (condition : Option String) : TypeDef :=
  if t.body.isObject || condition.getD t.name == t.name then t else (c.schema.type? (condition.getD t.name)).getD t

mutual

/-- The keys that a selection on the type `t` collects; if `strict`, without those of fields that may be missing. -/
def selectionKeysIf (strict : Bool) (c : Sources) (n : String) (t : TypeDef) : Selection → List String
  | .field head below => if strict && !isDemanded t head below then [] else [head.key]
  | .spread name directives => selectionKeys c n (.spread name directives)
  | .inline condition _ below =>
    if condition.all (c.schema.doesFragmentTypeApply · n) then keysIf strict c n (c.narrowed t condition) below else []

/-- The keys that selections on the type `t` collect; if `strict`, without those of fields that may be missing. -/
def keysIf (strict : Bool) (c : Sources) (n : String) (t : TypeDef) : List Selection → List String
  | [] => []
  | s :: rest => selectionKeysIf strict c n t s ++ keysIf strict c n t rest

end

/-- The keys that selections on the type `t` collect for a value of the concrete type `n` and that may not be missing. -/
def demandedKeys (c : Sources) (n : String) (t : TypeDef) (sels : List Selection) : List String :=
  keysIf true c n t sels

section KeysIf

variable {strict : Bool} {n k : String} {t : TypeDef}

mutual

theorem selectionKeysIf_false (n : String) (t : TypeDef) (s : Selection) : selectionKeysIf false c n t s = selectionKeys c n s := by
  cases s with
  | field head below => rfl
  | spread name directives => rfl
  | inline condition directives below => rw [selectionKeysIf, selectionKeys, keysIf_false n _ below]

/-- All keys are collected if it is not asked which may be missing. -/
theorem keysIf_false (n : String) (t : TypeDef) (sels : List Selection) : keysIf false c n t sels = collectKeys c n sels := by
  cases sels with
  | nil => rfl
  | cons s rest => rw [keysIf, collectKeys, selectionKeysIf_false n t s, keysIf_false n t rest]

end

theorem mem_keysIf_cons {s : Selection} {rest : List Selection} :
    k ∈ keysIf strict c n t (s :: rest) ↔ k ∈ selectionKeysIf strict c n t s ∨ k ∈ keysIf strict c n t rest := by
  rw [keysIf, List.mem_append]

theorem mem_selectionKeysIf_field {head : FieldHead} {below : List Selection} :
    k ∈ selectionKeysIf strict c n t (.field head below) ↔
      k = head.key ∧ (strict = true → isDemanded t head below = true) := by
  rw [selectionKeysIf]
  cases strict <;> cases isDemanded t head below <;> simp

theorem mem_selectionKeysIf_spread {name : String} {directives : List GraphQL.Directive} {f : FragmentDef}
    (hf : Assoc.get? c.fragments name = some f) : k ∈ selectionKeysIf strict c n t (.spread name directives) ↔
      c.schema.doesFragmentTypeApply f.fragment.condition n = true ∧ k = spreadKey c f := by
  rw [selectionKeysIf, mem_selectionKeys_spread hf]

theorem mem_selectionKeysIf_inline {condition : Option String} {directives : List GraphQL.Directive} {below : List Selection} :
    k ∈ selectionKeysIf strict c n t (.inline condition directives below) ↔
      condition.all (c.schema.doesFragmentTypeApply · n) = true ∧ k ∈ keysIf strict c n (c.narrowed t condition) below := by
  rw [selectionKeysIf]
  split
  · rename_i h
    simp [h]
  · rename_i h
    simp [h]

end KeysIf

/-- A condition on an object type is checked as field collection does. -/
theorem appliesTo_iff {t : TypeDef} (ht : Known c.toConfig t) (hobject : t.body.isObject = true) (condition : String) :
    appliesTo c.toConfig condition t.name = true ↔ c.schema.doesFragmentTypeApply condition t.name = true := by
  unfold appliesTo
  rw [Bool.or_eq_true, beq_iff_eq, Schema.mem_possible_iff]
  cases htype : c.schema.type? condition with
  | none =>
    have happlies : c.schema.doesFragmentTypeApply condition t.name = false := by
      unfold Schema.doesFragmentTypeApply
      rw [htype]
    have hpossible : c.schema.possible condition = [] := by
      unfold Schema.possible
      rw [htype]
    rw [happlies, hpossible]
    refine ⟨?_, nofun⟩
    rintro (rfl | h)
    · exact absurd (htype.symm.trans ht) nofun
    · cases h
  | some t' =>
    by_cases hobject' : t'.body.isObject = true
    · rw [Schema.applies_of_isObject htype hobject']
      refine ⟨fun h => h.resolve_right fun hmem => ?_, Or.inl⟩
      exact GraphQL.TypeBody.not_isAbstract hobject' (Schema.isAbstract_of_mem_possible htype hmem)
    · rw [Schema.applies_of_not_isObject htype hobject']
      refine ⟨fun h => h.resolve_left ?_, Or.inr⟩
      rintro rfl
      cases htype.symm.trans ht
      exact hobject' hobject

/-- An inline fragment without a condition applies. -/
theorem appliesTo_getD_iff {t : TypeDef} (ht : Known c.toConfig t) (hobject : t.body.isObject = true)
    (condition : Option String) : appliesTo c.toConfig (condition.getD t.name) t.name = true ↔
      ∀ name ∈ condition, c.schema.doesFragmentTypeApply name t.name = true := by
  cases condition with
  | none => simp [appliesTo]
  | some name => simpa using appliesTo_iff ht hobject name

end Compile

end ResponseTypes
