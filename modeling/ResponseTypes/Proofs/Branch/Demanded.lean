import ResponseTypes.Proofs.Branch.Spreads

/-!
# Fields that may be missing

What stands under a response key may be missing just if that is so of each field that is selected under it (`FieldFor`): it
is selected on a condition of its own, or its type is nullable (`object_demands`, `branches_demand`).  Conditions of the
inline fragments around a field do not matter.
-/

namespace ResponseTypes.Compile

set_option autoImplicit false

open GraphQL (FieldHead Selection TypeDef)

/-- A field is selected for values of a concrete type, in selections on a type or in inline fragments among them; it is one of
the type that comes last. -/
inductive FieldFor (c : Sources) (n : String) : TypeDef → List Selection → FieldHead → List Selection → TypeDef → Prop
  | here {t : TypeDef} {sels below : List Selection} {head : FieldHead} :
      .field head below ∈ sels → FieldFor c n t sels head below t
  | inline {t parent : TypeDef} {sels inner below : List Selection} {head : FieldHead} {condition : Option String}
      {directives : List GraphQL.Directive} : .inline condition directives inner ∈ sels →
      (∀ name ∈ condition, c.schema.doesFragmentTypeApply name n = true) →
      FieldFor c n (c.narrowed t condition) inner head below parent → FieldFor c n t sels head below parent

variable {c : Sources} {n k : String} {t : TypeDef} {sels : List Selection}

/-! ## Demanded keys -/

theorem mem_keysIf {strict : Bool} {s : Selection} (hs : s ∈ sels) (hk : k ∈ selectionKeysIf strict c n t s) :
    k ∈ keysIf strict c n t sels := by
  induction sels with
  | nil => cases hs
  | cons first rest ih =>
    rw [mem_keysIf_cons]
    rcases List.mem_cons.1 hs with rfl | hs
    · exact Or.inl hk
    · exact Or.inr (ih hs)

theorem FieldFor.mem_demandedKeys {head : FieldHead} {below : List Selection} {parent : TypeDef}
    (h : FieldFor c n t sels head below parent) (hdemanded : isDemanded parent head below = true) :
    head.key ∈ demandedKeys c n t sels := by
  induction h with
  | here hmem => exact mem_keysIf hmem (mem_selectionKeysIf_field.2 ⟨rfl, fun _ => hdemanded⟩)
  | inline hmem happlies _ ih =>
    exact mem_keysIf hmem (mem_selectionKeysIf_inline.2 ⟨(Option.all_eq_true _ _).2 happlies, ih hdemanded⟩)

theorem FieldFor.mono {head : FieldHead} {below more : List Selection} {parent : TypeDef}
    (h : FieldFor c n t sels head below parent) (hsub : sels ⊆ more) : FieldFor c n t more head below parent := by
  cases h with
  | here hmem => exact .here (hsub hmem)
  | inline hmem happlies hinner => exact .inline (hsub hmem) happlies hinner

mutual

theorem exists_demanded_of_selection (hk : isFragmentKey k = false) (t : TypeDef) (s : Selection)
    (hmem : k ∈ selectionKeysIf true c n t s) : ∃ head below parent, FieldFor c n t [s] head below parent ∧ head.key = k ∧
      isDemanded parent head below = true := by
  cases s with
  | field head below =>
    obtain ⟨rfl, hdemanded⟩ := mem_selectionKeysIf_field.1 hmem
    exact ⟨head, below, t, .here (List.mem_singleton_self _), rfl, hdemanded rfl⟩
  | spread name directives =>
    cases hf : Assoc.get? c.fragments name with
    | none => simp [selectionKeysIf, selectionKeys, hf] at hmem
    | some f =>
      obtain ⟨-, rfl⟩ := (mem_selectionKeysIf_spread hf).1 hmem
      rw [spreadKey, isFragmentKey_fragmentKey] at hk
      cases hk
  | inline condition directives inner =>
    obtain ⟨happlies, hmem⟩ := mem_selectionKeysIf_inline.1 hmem
    obtain ⟨head, below, parent, hfield, hkey, hdemanded⟩ := exists_demanded hk (c.narrowed t condition) inner hmem
    exact ⟨head, below, parent, .inline (List.mem_singleton_self _) ((Option.all_eq_true _ _).1 happlies) hfield, hkey,
      hdemanded⟩

/-- A response key that is demanded is that of a field that may not be missing. -/
theorem exists_demanded (hk : isFragmentKey k = false) (t : TypeDef) (sels : List Selection)
    (hmem : k ∈ keysIf true c n t sels) : ∃ head below parent, FieldFor c n t sels head below parent ∧ head.key = k ∧
      isDemanded parent head below = true := by
  cases sels with
  | nil => cases hmem
  | cons s rest =>
    rcases mem_keysIf_cons.1 hmem with hmem | hmem
    · obtain ⟨head, below, parent, hfield, h⟩ := exists_demanded_of_selection hk t s hmem
      exact ⟨head, below, parent, hfield.mono (List.cons_subset_cons s (List.nil_subset rest)), h⟩
    · obtain ⟨head, below, parent, hfield, h⟩ := exists_demanded hk t rest hmem
      exact ⟨head, below, parent, hfield.mono (List.subset_cons_self s rest), h⟩

end

theorem mem_demandedKeys_iff (hk : isFragmentKey k = false) : k ∈ demandedKeys c n t sels ↔
    ∃ head below parent, FieldFor c n t sels head below parent ∧ head.key = k ∧ isDemanded parent head below = true := by
  refine ⟨exists_demanded hk t sels, ?_⟩
  rintro ⟨head, below, parent, hfield, rfl, hdemanded⟩
  exact hfield.mem_demandedKeys hdemanded

/-! ## Shapes -/

/-- Each field that is selected under the key may be missing. -/
def MayMiss (c : Sources) (n : String) (t : TypeDef) (sels : List Selection) (k : String) : Prop :=
  ∀ head below parent, FieldFor c n t sels head below parent → head.key = k → isDemanded parent head below = false

/-- What stands under a response key of fields that have the demanded keys may be missing if each field under the key may. -/
theorem nullable_iff_mayMiss {fields : Fields} {s : Shape} (hk : isFragmentKey k = false)
    (hkeys : HasKey true fields k ↔ k ∈ demandedKeys c n t sels) (hs : Assoc.get? fields k = some s) :
    s.nullable = true ↔ MayMiss c n t sels k := by
  have hdemanded : s.nullable = false ↔ k ∈ demandedKeys c n t sels := by
    rw [← hkeys, HasKey, hs]
    simp [Demanded]
  rw [← Bool.not_eq_false, hdemanded, mem_demandedKeys_iff hk, MayMiss]
  simp only [not_exists, not_and, Bool.not_eq_true]

section Runs

variable {c : Setup} {building : List String} {s s' : State} {shape : Shape}

/-- Compiling selections on an object type gives fields of which one may be missing just if each field that is selected under
its key may. -/
theorem object_demands (ht : Known c.toConfig t) (hobject : t.body.isObject = true) (hs : Recalls c.toSources s)
    (h : (select c (useFragment c fun name => discard (generateFragment c building name)) t sels).runOn s =
      (.ok shape, s')) :
    ∀ k, c.Tells k → isFragmentKey k = false → ∀ field, Assoc.get? shape.fields k = some field →
      (field.nullable = true ↔ MayMiss c.toSources t.name t sels k) := fun _ htells hk _ hfield =>
  nullable_iff_mayMiss hk (selection_gathers (N := fun _ => True) true htells ht hobject sels (fun _ _ => trivial) shape
    (outcome_of_select ht hs h)) hfield

/-- Compiling selections on an interface or a union, if they do not take the fast path, gives branches with fields of which one
may be missing just if each field that is selected under its key for the type of the branch may. -/
theorem branches_demand (ht : Known c.toConfig t) (habstract : t.body.isAbstract = true) (hs : Recalls c.toSources s)
    (h : (select c (useFragment c fun name => discard (generateFragment c building name)) t sels).runOn s =
      (.ok shape, s'))
    (hslow : fastPath? c.toSources t sels = none) :
    ∃ fields : String → Fields,
      shape = ofBranches t ((c.schema.possible t.name).map fun n => .object n (fields n) {}) ∧
      ∀ n ∈ c.schema.possible t.name, ∀ k, c.Tells k → isFragmentKey k = false → ∀ field,
        Assoc.get? (fields n) k = some field → (field.nullable = true ↔ MayMiss c.toSources n t sels k) := by
  obtain ⟨fields, hshape, hkeys⟩ := exists_branches ht habstract (outcome_of_select ht hs h) hslow
  exact ⟨fields, hshape, fun n hn k htells hk field hfield => nullable_iff_mayMiss hk (hkeys n hn true k htells) hfield⟩

end Runs

end ResponseTypes.Compile
