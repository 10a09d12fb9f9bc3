import ResponseTypes.Proofs.Assoc
import ResponseTypes.Proofs.Branch.Collected
import ResponseTypes.Proofs.Branch.Outcome
import ResponseTypes.Proofs.Plan.Recall
import ResponseTypes.Proofs.Shape.Merging

/-!
# Branches hold what field collection reaches

Selections on an object type form an object with the keys that are collected for it (`selection_collects`).  Selections on
an abstract type are sorted into groups, in which nothing of it is lost (`groups_collects`); what the groups hold for a
possible type is brought together again in the fields that all types share and in its own (`typeFields_collects`).  So the
branch of each possible type has the keys that are collected for it (`branches_collect`).

The same holds of the keys that may not be missing (`HasKey true`), of which the keys that are demanded are collected.
-/

namespace ResponseTypes

set_option autoImplicit false

open GraphQL (FieldHead Selection TypeDef TypeRef)

/-! ## Keys of fields -/

namespace Compile

theorem mem_keys_mergeField {fields : Fields} {k key : String} {s : Shape} :
    k ∈ Assoc.keys (mergeField fields key s) ↔ k ∈ Assoc.keys fields ∨ k = key :=
  Assoc.mem_keys_insert

theorem keys_retag (tag : TypeTag) (fields : Fields) : Assoc.keys (retag tag fields) = Assoc.keys fields := by
  simp [retag, Assoc.keys, Function.comp_def]

theorem TypeFields.of_insert (per : TypeFields) (name n : String) (fields : Fields) :
    TypeFields.of (Assoc.insert per name fields) n = if name = n then fields else per.of n := by
  unfold TypeFields.of
  rw [Assoc.get?_insert]
  split <;> rfl

variable {c : Sources}

theorem mem_keys_refFields {f : FragmentDef} {parent k : String} :
    k ∈ Assoc.keys (refFields c.toConfig f parent) ↔ k = spreadKey c f :=
  List.mem_singleton

/-! ### Keys that may not be missing -/

/-- The shape may not be missing, if that is asked for. -/
def Demanded (strict : Bool) (s : Shape) : Prop :=
  strict = true → s.nullable = false

/-- Fields have a key; if `strict`, what stands under it may not be missing. -/
def HasKey (strict : Bool) (fields : Fields) (k : String) : Prop :=
  ∃ s, Assoc.get? fields k = some s ∧ Demanded strict s

section HasKey

variable {strict : Bool} {fields fields' : Fields} {k key : String} {a b s : Shape}

theorem nullable_withNote (n : Note) (s : Shape) : (s.withNote n).nullable = n.nullable := by
  cases s <;> rfl

theorem demanded_merge : Demanded strict (Shape.merge a b) ↔ Demanded strict a ∨ Demanded strict b := by
  cases strict
  · simp [Demanded]
  · simp only [Demanded, Shape.nullable_merge, Bool.and_eq_false_iff, forall_const]

theorem hasKey_false : HasKey false fields k ↔ k ∈ Assoc.keys fields := by
  constructor
  · rintro ⟨s, hs, -⟩
    exact Assoc.mem_keys_of_get? hs
  · intro hk
    cases hs : Assoc.get? fields k with
    | none => exact absurd hk (Assoc.get?_eq_none.1 hs)
    | some s => exact ⟨s, hs, nofun⟩

theorem not_hasKey_nil : ¬HasKey strict [] k :=
  fun ⟨_, h, _⟩ => nomatch h

theorem hasKey_mergeField : HasKey strict (mergeField fields key s) k ↔ HasKey strict fields k ∨ k = key ∧ Demanded strict s := by
  unfold HasKey mergeField
  rw [Assoc.get?_insert]
  by_cases hkey : key = k
  · subst hkey
    rw [if_pos rfl]
    cases hget : Assoc.get? fields key with
    | none => simp [Shape.mergeInto]
    | some a => simp [Shape.mergeInto, demanded_merge]
  · rw [if_neg hkey]
    simp [Ne.symm hkey]

theorem hasKey_mergeFields : HasKey strict (Shape.mergeFields fields fields') k ↔ HasKey strict fields k ∨ HasKey strict fields' k := by
  unfold HasKey
  rw [Shape.mergeFields, Shape.get?_mergeFieldsWith]
  cases Assoc.get? fields k <;> cases Assoc.get? fields' k <;> simp [demanded_merge]

theorem hasKey_retag (tag : TypeTag) : HasKey strict (retag tag fields) k ↔ HasKey strict fields k := by
  unfold HasKey
  rw [retag, Assoc.get?_map (fun e : String × Shape => if e.2.isTag then Shape.tag tag { nullable := e.2.nullable } else e.2)]
  cases Assoc.get? fields k with
  | none => simp
  | some s =>
    have hnullable : (if s.isTag then Shape.tag tag { nullable := s.nullable } else s).nullable = s.nullable := by
      split <;> rfl
    simp [Demanded, hnullable]

theorem hasKey_refFields {f : FragmentDef} {parent : String} :
    HasKey strict (refFields c.toConfig f parent) k ↔ k = spreadKey c f := by
  constructor
  · rintro ⟨s, hs, -⟩
    exact mem_keys_refFields.1 (Assoc.mem_keys_of_get? hs)
  · rintro rfl
    exact ⟨refShape c.toConfig f parent, by simp [refFields, spreadKey, fragmentRef, Assoc.get?], fun _ => rfl⟩

theorem hasKey_insert (hkey : k ≠ key) : HasKey strict (Assoc.insert fields key s) k ↔ HasKey strict fields k := by
  unfold HasKey
  rw [Assoc.get?_insert, if_neg hkey.symm]

theorem hasKey_baseFields {small : List Selection → Prop} {t : TypeDef} {g : Groups small} :
    HasKey strict (baseFields c.toConfig t g) k ↔ HasKey strict g.base k ∨ ∃ f ∈ g.ownSpreads, k = spreadKey c f := by
  unfold baseFields
  generalize g.ownSpreads = own, g.base = fields
  induction own generalizing fields with
  | nil => simp
  | cons f own ih =>
    rw [List.foldl_cons, ih, hasKey_mergeFields, hasKey_refFields]
    simp [or_assoc]

theorem mem_keys_baseFields {small : List Selection → Prop} {t : TypeDef} {g : Groups small} :
    k ∈ Assoc.keys (baseFields c.toConfig t g) ↔ k ∈ Assoc.keys g.base ∨ ∃ f ∈ g.ownSpreads, k = spreadKey c f := by
  rw [← hasKey_false, hasKey_baseFields, hasKey_false]

end HasKey

/-! ## Groups -/

/-- The value stands in some list of the key. -/
def At {α : Type} (m : Assoc String (List α)) (key : String) (a : α) : Prop :=
  ∃ e ∈ m, e.1 = key ∧ a ∈ e.2

theorem at_cons {α : Type} {m : Assoc String (List α)} {key n : String} {l : List α} {a : α} :
    At ((key, l) :: m) n a ↔ key = n ∧ a ∈ l ∨ At m n a := by
  simp [At]

theorem at_appendAt {α : Type} {m : Assoc String (List α)} {key n : String} {a x : α} :
    At (appendAt m key a) n x ↔ At m n x ∨ key = n ∧ x = a := by
  unfold appendAt
  induction m with
  | nil => simp [Assoc.insert, At]
  | cons e m ih =>
    obtain ⟨key', l⟩ := e
    rw [Assoc.get?_cons, Assoc.insert]
    by_cases hkey : key' = key
    · subst hkey
      rw [if_pos rfl, if_pos rfl, at_cons, at_cons, Option.getD_some, List.mem_append, List.mem_singleton]
      tauto
    · rw [if_neg hkey, if_neg hkey, at_cons, at_cons, ih, or_assoc]

theorem exists_at {α : Type} {m : Assoc String (List α)} {key : String} {P : α → Prop} :
    (∃ e ∈ m, e.1 = key ∧ ∃ a ∈ e.2, P a) ↔ ∃ a, At m key a ∧ P a :=
  ⟨fun ⟨e, he, hkey, a, ha, h⟩ => ⟨a, ⟨e, he, hkey, ha⟩, h⟩, fun ⟨a, ⟨e, he, hkey, ha⟩, h⟩ => ⟨e, he, hkey, a, ha, h⟩⟩

section Groups

variable {small : List Selection → Prop}

/-- Groups hold a key for all types; if `strict`, such that it may not be missing. -/
def Groups.Shares (c : Sources) (strict : Bool) (g : Groups small) (k : String) : Prop :=
  HasKey strict g.base k ∨ ∃ f ∈ g.ownSpreads, k = spreadKey c f

/-- Groups hold a key for a concrete type. -/
def Groups.Targets (c : Sources) (strict : Bool) (g : Groups small) (n k : String) : Prop :=
  (∃ i, At g.concreteInlines n i ∧ k ∈ keysIf strict c n i.1 i.2.1) ∨
  (∃ f, At g.concreteSpreads n f ∧ k = spreadKey c f) ∨
  (∃ f ∈ g.abstractSpreads, n ∈ c.schema.possible f.fragment.condition ∧ k = spreadKey c f) ∨
  ∃ i ∈ g.abstractInlines, n ∈ c.schema.possible i.1.name ∧ k ∈ keysIf strict c n i.1 i.2.1

/-- Groups hold a key for a possible type, with others or alone. -/
def Groups.Holds (c : Sources) (strict : Bool) (g : Groups small) (n k : String) : Prop :=
  g.Shares c strict k ∨ g.Targets c strict n k

/-- Inline fragments on concrete types stand under the types they are on. -/
def Groups.Sorted (c : Config) (g : Groups small) : Prop :=
  ∀ n i, At g.concreteInlines n i → Compile.Known c i.1 ∧ i.1.body.isObject = true ∧ i.1.name = n

/-- Other inline fragments stand with the definitions of the types they are on. -/
def Groups.Placed (c : Config) (g : Groups small) : Prop :=
  ∀ i ∈ g.abstractInlines, Compile.Known c i.1

variable {strict : Bool} {g : Groups small} {n k : String}

theorem holds_mergeField {key : String} {s : Shape} :
    Groups.Holds c strict { g with base := mergeField g.base key s } n k ↔
      g.Holds c strict n k ∨ k = key ∧ Demanded strict s := by
  simp only [Groups.Holds, Groups.Shares, Groups.Targets, hasKey_mergeField]
  exact iff_of_eq (by ac_rfl)

theorem holds_ownSpread {f : FragmentDef} :
    Groups.Holds c strict { g with ownSpreads := g.ownSpreads ++ [f] } n k ↔ g.Holds c strict n k ∨ k = spreadKey c f := by
  simp only [Groups.Holds, Groups.Shares, Groups.Targets, List.mem_append, List.mem_singleton, or_and_right, exists_or,
    exists_eq_left]
  exact iff_of_eq (by ac_rfl)

theorem holds_concreteSpread {f : FragmentDef} {condition : String} :
    Groups.Holds c strict { g with concreteSpreads := appendAt g.concreteSpreads condition f } n k ↔
      g.Holds c strict n k ∨ condition = n ∧ k = spreadKey c f := by
  simp only [Groups.Holds, Groups.Shares, Groups.Targets, at_appendAt, or_and_right, exists_or, and_assoc, exists_and_left,
    exists_eq_left]
  exact iff_of_eq (by ac_rfl)

theorem holds_abstractSpread {f : FragmentDef} :
    Groups.Holds c strict { g with abstractSpreads := g.abstractSpreads ++ [f] } n k ↔
      g.Holds c strict n k ∨ n ∈ c.schema.possible f.fragment.condition ∧ k = spreadKey c f := by
  simp only [Groups.Holds, Groups.Shares, Groups.Targets, List.mem_append, List.mem_singleton, or_and_right, exists_or,
    exists_eq_left]
  exact iff_of_eq (by ac_rfl)

theorem holds_concreteInline {condition : String} {i : TypeDef × SmallSelections small} :
    Groups.Holds c strict { g with concreteInlines := appendAt g.concreteInlines condition i } n k ↔
      g.Holds c strict n k ∨ condition = n ∧ k ∈ keysIf strict c n i.1 i.2.1 := by
  simp only [Groups.Holds, Groups.Shares, Groups.Targets, at_appendAt, or_and_right, exists_or, and_assoc, exists_and_left,
    exists_eq_left]
  exact iff_of_eq (by ac_rfl)

theorem holds_abstractInline {i : TypeDef × SmallSelections small} :
    Groups.Holds c strict { g with abstractInlines := g.abstractInlines ++ [i] } n k ↔
      g.Holds c strict n k ∨ n ∈ c.schema.possible i.1.name ∧ k ∈ keysIf strict c n i.1 i.2.1 := by
  simp only [Groups.Holds, Groups.Shares, Groups.Targets, List.mem_append, List.mem_singleton, or_and_right, exists_or,
    exists_eq_left]
  exact iff_of_eq (by ac_rfl)

end Groups

/-! ## Selections on object types -/

/-- A key that is there because of what is selected: not the type tag that every selection has. -/
def Config.Tells (c : Config) (k : String) : Prop :=
  c.output.alwaysTag = true → k ≠ typenameKey

theorem Config.tells_of_untagged {c : Config} (h : c.output.alwaysTag = false) (k : String) : c.Tells k :=
  fun htag => Bool.noConfusion (h.symm.trans htag)

variable {N : Need → Prop} {strict : Bool} {k : String}

open Plan (Gives gives_and gives_bind gives_definition gives_fragment gives_inlineFields gives_mono gives_pure gives_trivial)

/-! ### Single fields -/

theorem gives_outputShape_nullable (below : Option (TypeDef → Plan Shape)) (type : TypeRef) (nullable : Bool) :
    Gives c N (outputShape c.toConfig below type nullable) fun s => s.nullable = (nullable && !type.isNonNull) := by
  induction type generalizing nullable with
  | nonNull type ih => exact gives_mono (ih false) fun s hs => by simpa [TypeRef.isNonNull] using hs
  | list type ih => exact gives_bind (ih true) fun s _ => gives_pure (Bool.and_true nullable).symm
  | named n =>
    refine gives_bind gives_trivial fun t _ => ?_
    cases t.body with
    | scalar => exact gives_pure (Bool.and_true nullable).symm
    | enum values | input fields => exact gives_bind gives_trivial fun _ _ => gives_pure (Bool.and_true nullable).symm
    | object interfaces fields | interface interfaces fields | union members =>
      cases below with
      | none => exact gives_pure (Bool.and_true nullable).symm
      | some select =>
        exact gives_bind gives_trivial fun s _ =>
          gives_pure ((nullable_withNote _ s).trans (Bool.and_true nullable).symm)

/-- A field may not be missing if that is demanded of it. -/
theorem gives_fieldShape_demanded {t : TypeDef} {head : FieldHead} {below : List Selection} (hname : head.name ≠ typenameKey)
    (select : Option (TypeDef → Plan Shape)) :
    Gives c N (fieldShape c.toConfig t head (Selection.field head below).isConditional select) fun s =>
      Demanded strict s ↔ (strict = true → isDemanded t head below = true) := by
  unfold fieldShape
  cases hfield : t.field? head.name with
  | none => exact fun _ _ h => nomatch h
  | some field =>
    refine gives_bind (gives_outputShape_nullable select field.type true) fun s hs => gives_pure ?_
    refine forall_congr' fun _ => ?_
    rw [isDemanded, hfield, beq_false_of_ne hname, nullable_withNote, hs]
    simp [and_comm]

theorem demanded_tag {t : TypeDef} {head : FieldHead} {below : List Selection} (hname : head.name = typenameKey)
    (tag : TypeTag) : Demanded strict (.tag tag { nullable := (Selection.field head below).isConditional }) ↔
      (strict = true → isDemanded t head below = true) := by
  refine forall_congr' fun _ => ?_
  rw [isDemanded, hname]
  simp [Shape.nullable, Shape.note]

theorem mem_keysIf_field {n : String} {t : TypeDef} {head : FieldHead} {below rest : List Selection} {s : Shape} {P : Prop}
    (hs : Demanded strict s ↔ (strict = true → isDemanded t head below = true)) :
    (P ∨ k = head.key ∧ Demanded strict s) ∨ k ∈ keysIf strict c n t rest ↔
      P ∨ k ∈ keysIf strict c n t (.field head below :: rest) := by
  rw [mem_keysIf_cons, mem_selectionKeysIf_field, hs, or_assoc]

/-! ### Objects -/

mutual

/-- Selections on an object type form an object with the keys that are collected for it. -/
theorem selection_gathers (strict : Bool) (hk : c.Tells k) {t : TypeDef} (ht : Known c.toConfig t) (hobject : t.body.isObject = true)
    (sels : List Selection) :
    Gives c N (selection c.toConfig t sels) fun s => HasKey strict s.fields k ↔ k ∈ keysIf strict c t.name t sels := by
  refine gives_kept (selection.eq_1 c.toConfig t sels) ?_
  change Gives c N (if t.body.isAbstract then _ else _) _
  rw [if_neg (GraphQL.TypeBody.not_isAbstract hobject), if_pos hobject]
  exact gives_mono (objectSelection_gathers strict hk ht hobject [] false sels) fun s hs =>
    hs.trans (or_iff_right not_hasKey_nil)
termination_by (sizeOf sels, 1)
decreasing_by exact Prod.Lex.right _ Nat.zero_lt_one

theorem objectSelection_gathers (strict : Bool) (hk : c.Tells k) {t : TypeDef} (ht : Known c.toConfig t)
    (hobject : t.body.isObject = true) (fields : Fields) (tagged : Bool) (sels : List Selection) :
    Gives c N (objectSelection c.toConfig t fields tagged sels) fun s =>
      HasKey strict s.fields k ↔ HasKey strict fields k ∨ k ∈ keysIf strict c t.name t sels := by
  match sels with
  | [] =>
    rw [objectSelection, objectOf]
    split
    · rename_i htag
      have htypename : k ≠ typenameKey := hk (by simp_all)
      exact gives_bind gives_trivial fun tag _ => gives_pure (by simp [Shape.fields, hasKey_insert htypename, keysIf])
    · exact gives_pure (by simp [Shape.fields, keysIf])
  | .field head below :: rest =>
    have hrest : ∀ tagged s, (Demanded strict s ↔ (strict = true → isDemanded t head below = true)) →
        Gives c N (objectSelection c.toConfig t (mergeField fields head.key s) tagged rest) fun s' =>
          HasKey strict s'.fields k ↔ HasKey strict fields k ∨ k ∈ keysIf strict c t.name t (.field head below :: rest) := by
      refine fun tagged s hs => gives_mono (objectSelection_gathers strict hk ht hobject _ tagged rest) fun s' hs' => hs'.trans ?_
      rw [hasKey_mergeField, mem_keysIf_field hs]
    rw [objectSelection]
    split
    · rename_i hname
      exact gives_bind gives_trivial fun tag _ => hrest true _ (demanded_tag hname tag)
    · rename_i hname
      exact gives_bind (gives_fieldShape_demanded hname _) fun s hs => hrest tagged s hs
  | .spread name directives :: rest =>
    rw [objectSelection]
    refine gives_bind (gives_fragment name) fun f hf => ?_
    have hkeys : k ∈ keysIf strict c t.name t (.spread name directives :: rest) ↔
        (appliesTo c.toConfig f.fragment.condition t.name = true ∧ k = spreadKey c f) ∨ k ∈ keysIf strict c t.name t rest := by
      rw [mem_keysIf_cons, mem_selectionKeysIf_spread hf, appliesTo_iff ht hobject]
    split
    · rename_i happlies
      refine gives_mono (objectSelection_gathers strict hk ht hobject _ tagged rest) fun s hs => hs.trans ?_
      rw [hkeys, hasKey_mergeFields, hasKey_refFields, or_assoc]
      simp [happlies]
    · rename_i happlies
      refine gives_mono (objectSelection_gathers strict hk ht hobject _ tagged rest) fun s hs => hs.trans ?_
      rw [hkeys]
      simp [happlies]
  | .inline condition directives below :: rest =>
    have hkeys : k ∈ keysIf strict c t.name t (.inline condition directives below :: rest) ↔
        (appliesTo c.toConfig (condition.getD t.name) t.name = true ∧ k ∈ keysIf strict c t.name t below) ∨
          k ∈ keysIf strict c t.name t rest := by
      rw [mem_keysIf_cons, mem_selectionKeysIf_inline, appliesTo_getD_iff ht hobject, Option.all_eq_true, Config.narrowed, hobject]
      rfl
    rw [objectSelection]
    split
    · rename_i happlies
      refine gives_bind (selection_gathers strict hk ht hobject below) fun s hs => ?_
      refine gives_bind (gives_inlineFields s) fun more hmore => ?_
      subst hmore
      refine gives_mono (objectSelection_gathers strict hk ht hobject _ tagged rest) fun s' hs' => hs'.trans ?_
      rw [hkeys, hasKey_mergeFields, hs, or_assoc]
      simp [happlies]
    · rename_i happlies
      refine gives_mono (objectSelection_gathers strict hk ht hobject _ tagged rest) fun s' hs' => hs'.trans ?_
      rw [hkeys]
      simp [happlies]
termination_by (sizeOf sels, 0)
decreasing_by
  all_goals first
    | exact Prod.Lex.left _ _ sizeOf_tail_lt
    | exact Prod.Lex.left _ _ sizeOf_below_lt

end

/-- Selections on an object type form an object with the keys that are collected for it. -/
theorem selection_collects (hk : c.Tells k) {t : TypeDef} (ht : Known c.toConfig t)
    (hobject : t.body.isObject = true) (sels : List Selection) :
    Gives c N (selection c.toConfig t sels) fun s => k ∈ Assoc.keys s.fields ↔ k ∈ collectKeys c t.name sels :=
  gives_mono (selection_gathers false hk ht hobject sels) fun s hs => by rw [← hasKey_false, hs, keysIf_false]

/-! ## Selections on abstract types -/

theorem Groups.sorted_empty {small : List Selection → Prop} : Groups.Sorted c.toConfig ({} : Groups small) :=
  fun _ _ ⟨_, he, _⟩ => absurd he List.not_mem_nil

theorem Groups.holds_empty {small : List Selection → Prop} {n k : String} : ¬Groups.Holds c strict ({} : Groups small) n k := by
  simp [Groups.Holds, Groups.Shares, Groups.Targets, At, not_hasKey_nil]

/-- What is true of groups stays so when something is added to them. -/
structure Groups.Stable (c : Config) {small : List Selection → Prop} (I : Groups small → Prop) : Prop where
  base : ∀ g fields, I g → I { g with base := fields }
  ownSpread : ∀ g f, I g → I { g with ownSpreads := g.ownSpreads ++ [f] }
  concreteSpread : ∀ g condition f, I g → I { g with concreteSpreads := appendAt g.concreteSpreads condition f }
  abstractSpread : ∀ g f, I g → I { g with abstractSpreads := g.abstractSpreads ++ [f] }
  concreteInline : ∀ g i, Compile.Known c i.1 → i.1.body.isObject = true → I g →
    I { g with concreteInlines := appendAt g.concreteInlines i.1.name i }
  abstractInline : ∀ g i, Compile.Known c i.1 → I g → I { g with abstractInlines := g.abstractInlines ++ [i] }

/-- It stays so when selections are sorted into groups. -/
theorem Groups.Stable.groups {small : List Selection → Prop} {I : Groups small → Prop} (hI : Groups.Stable c.toConfig I)
    (t : TypeDef) (sels : List Selection) (h : ∀ l, sizeOf l < sizeOf sels → small l) (g : Groups small) (hg : I g) :
    Gives c N (groups c.toConfig t sels h g) I := by
  cases sels with
  | nil =>
    rw [Compile.groups]
    unfold closeGroups
    split
    · exact gives_bind gives_trivial fun _ _ => gives_pure (hI.base _ _ hg)
    · exact gives_pure hg
  | cons selection rest =>
    cases selection with
    | field head below =>
      rw [Compile.groups]
      split <;> exact gives_bind gives_trivial fun _ _ => hI.groups t rest (small_tail h) _ (hI.base _ _ hg)
    | spread name directives =>
      rw [Compile.groups]
      refine gives_bind gives_trivial fun f _ => ?_
      split
      · exact hI.groups t rest (small_tail h) _ (hI.ownSpread _ _ hg)
      · refine gives_bind gives_trivial fun t' _ => ?_
        split
        · exact hI.groups t rest (small_tail h) _ (hI.concreteSpread _ _ _ hg)
        · exact hI.groups t rest (small_tail h) _ (hI.abstractSpread _ _ hg)
    | inline condition directives below =>
      rw [Compile.groups]
      refine gives_bind (gives_definition _) fun t' ht' => ?_
      split
      · exact gives_bind (hI.groups t below (small_inner h) g hg) fun g₁ hg₁ => hI.groups t rest (small_tail h) g₁ hg₁
      · have hname := Schema.name_of_type? ht'
        have hknown : Compile.Known c.toConfig t' := (congrArg _ hname).trans ht'
        split
        · rename_i hobject
          refine hI.groups t rest (small_tail h) _ ?_
          rw [← hname]
          exact hI.concreteInline g (t', ⟨below, small_below h⟩) hknown hobject hg
        · exact hI.groups t rest (small_tail h) _ (hI.abstractInline _ _ hknown hg)
termination_by sizeOf sels
decreasing_by
  all_goals
    subst_vars
    first
      | exact sizeOf_tail_lt
      | exact sizeOf_below_lt

/-- Sorting selections into groups puts inline fragments on concrete types under the types they are on. -/
theorem groups_sorted {small : List Selection → Prop} (t : TypeDef) (sels : List Selection)
    (h : ∀ l, sizeOf l < sizeOf sels → small l) (g : Groups small) (hg : g.Sorted c.toConfig) :
    Gives c N (groups c.toConfig t sels h g) (Groups.Sorted c.toConfig) := by
  refine Groups.Stable.groups ⟨fun _ _ hg => hg, fun _ _ hg => hg, fun _ _ _ hg => hg, fun _ _ hg => hg,
    fun g i hknown hobject hg n j hj => ?_, fun _ _ _ hg => hg⟩ t sels h g hg
  rcases at_appendAt.1 hj with hj | ⟨hn, rfl⟩
  · exact hg n j hj
  · exact ⟨hknown, hobject, hn⟩

/-- Sorting selections into groups puts other inline fragments with the types they are on. -/
theorem groups_placed {small : List Selection → Prop} (t : TypeDef) (sels : List Selection)
    (h : ∀ l, sizeOf l < sizeOf sels → small l) (g : Groups small) (hg : g.Placed c.toConfig) :
    Gives c N (groups c.toConfig t sels h g) (Groups.Placed c.toConfig) := by
  refine Groups.Stable.groups ⟨fun _ _ hg => hg, fun _ _ hg => hg, fun _ _ _ hg => hg, fun _ _ hg => hg,
    fun _ _ _ _ hg => hg, fun g i hknown hg => ?_⟩ t sels h g hg
  exact List.forall_mem_append.2 ⟨hg, List.forall_mem_singleton.2 hknown⟩

/-- Fragments on concrete types stand in one list for each type. -/
theorem groups_nodup {small : List Selection → Prop} (t : TypeDef) (sels : List Selection)
    (h : ∀ l, sizeOf l < sizeOf sels → small l) (g : Groups small) (hg : (Assoc.keys g.concreteSpreads).Nodup) :
    Gives c N (groups c.toConfig t sels h g) fun g' => (Assoc.keys g'.concreteSpreads).Nodup :=
  Groups.Stable.groups (I := fun g => (Assoc.keys g.concreteSpreads).Nodup)
    ⟨fun _ _ hg => hg, fun _ _ hg => hg, fun _ _ _ hg => Assoc.nodup_keys_insert hg _ _, fun _ _ hg => hg,
    fun _ _ _ _ hg => hg, fun _ _ _ hg => hg⟩ t sels h g hg

theorem narrowed_of_own {t : TypeDef} {condition : Option String} (h : condition.getD t.name = t.name) :
    c.narrowed t condition = t := by
  simp [Config.narrowed, h]

theorem narrowed_of_other {t t' : TypeDef} {condition : Option String} (habstract : t.body.isAbstract = true)
    (h : condition.getD t.name ≠ t.name) (ht' : c.schema.type? (condition.getD t.name) = some t') :
    c.narrowed t condition = t' := by
  have hobject : ¬t.body.isObject = true := fun hobject => GraphQL.TypeBody.not_isAbstract hobject habstract
  simp [Config.narrowed, h, hobject, ht']

/-- Sorting selections into groups, what is collected for a possible type is added to what the groups hold for it, and
nothing else. -/
theorem groups_gather (strict : Bool) (hk : c.Tells k) {small : List Selection → Prop} {t : TypeDef} (ht : Known c.toConfig t)
    (sels : List Selection) (h : ∀ l, sizeOf l < sizeOf sels → small l) (g : Groups small) :
    Gives c N (groups c.toConfig t sels h g) fun g' =>
      ∀ n ∈ c.schema.possible t.name, (g'.Holds c strict n k ↔ g.Holds c strict n k ∨ k ∈ keysIf strict c n t sels) := by
  cases sels with
  | nil =>
    rw [groups, closeGroups]
    split
    · rename_i htag
      have htypename : k ≠ typenameKey := hk (by simp_all)
      exact gives_bind gives_trivial fun tag _ => gives_pure fun n _ => by
        simp [Groups.Holds, Groups.Shares, Groups.Targets, hasKey_insert htypename, keysIf]
    · exact gives_pure fun n _ => by simp [keysIf]
  | cons selection rest =>
    cases selection with
    | field head below =>
      have hrest : ∀ s, (Demanded strict s ↔ (strict = true → isDemanded t head below = true)) →
          Gives c N (groups c.toConfig t rest (small_tail h) { g with base := mergeField g.base head.key s }) fun g' =>
            ∀ n ∈ c.schema.possible t.name, (g'.Holds c strict n k ↔
              g.Holds c strict n k ∨ k ∈ keysIf strict c n t (.field head below :: rest)) := by
        refine fun s hs => gives_mono (groups_gather strict hk ht rest (small_tail h) _) fun g' hg' n hn => (hg' n hn).trans ?_
        rw [holds_mergeField, mem_keysIf_field hs]
      rw [groups]
      split
      · rename_i hname
        exact gives_bind gives_trivial fun tag _ => hrest _ (demanded_tag hname tag)
      · rename_i hname
        exact gives_bind (gives_fieldShape_demanded hname _) hrest
    | spread name directives =>
      rw [groups]
      refine gives_bind (gives_fragment name) fun f hf => ?_
      have hkeys : ∀ n, k ∈ keysIf strict c n t (.spread name directives :: rest) ↔
          (c.schema.doesFragmentTypeApply f.fragment.condition n = true ∧ k = spreadKey c f) ∨ k ∈ keysIf strict c n t rest := by
        intro n
        rw [mem_keysIf_cons, mem_selectionKeysIf_spread hf]
      split
      · rename_i hown
        refine gives_mono (groups_gather strict hk ht rest (small_tail h) _) fun g' hg' n hn => ?_
        rw [hg' n hn, holds_ownSpread, hkeys, hown, or_assoc]
        simp [Schema.applies_of_mem_possible hn]
      · refine gives_bind (gives_definition _) fun t' ht' => ?_
        split
        · rename_i hobject
          refine gives_mono (groups_gather strict hk ht rest (small_tail h) _) fun g' hg' n hn => ?_
          rw [hg' n hn, holds_concreteSpread, hkeys, Schema.applies_of_isObject ht' hobject, or_assoc]
        · rename_i hobject
          refine gives_mono (groups_gather strict hk ht rest (small_tail h) _) fun g' hg' n hn => ?_
          rw [hg' n hn, holds_abstractSpread, hkeys, Schema.applies_of_not_isObject ht' hobject, or_assoc]
    | inline condition directives below =>
      have hkeys : ∀ n ∈ c.schema.possible t.name, (k ∈ keysIf strict c n t (.inline condition directives below :: rest) ↔
          (c.schema.doesFragmentTypeApply (condition.getD t.name) n = true ∧
            k ∈ keysIf strict c n (c.narrowed t condition) below) ∨ k ∈ keysIf strict c n t rest) := by
        intro n hn
        rw [mem_keysIf_cons, mem_selectionKeysIf_inline]
        cases condition with
        | none => simp [Schema.applies_of_mem_possible hn]
        | some condition => rfl
      rw [groups]
      refine gives_bind (gives_definition _) fun t' ht' => ?_
      split
      · rename_i hown
        refine gives_bind (groups_gather strict hk ht below (small_inner h) g) fun g₁ hg₁ => ?_
        refine gives_mono (groups_gather strict hk ht rest (small_tail h) g₁) fun g' hg' n hn => ?_
        rw [hg' n hn, hg₁ n hn, hkeys n hn, narrowed_of_own hown, hown, or_assoc]
        simp [Schema.applies_of_mem_possible hn]
      · rename_i hother
        have hnarrowed : ∀ n ∈ c.schema.possible t.name, c.narrowed t condition = t' := fun n hn =>
          narrowed_of_other (Schema.isAbstract_of_mem_possible ht hn) hother ht'
        split
        · rename_i hobject
          refine gives_mono (groups_gather strict hk ht rest (small_tail h) _) fun g' hg' n hn => ?_
          rw [hg' n hn, holds_concreteInline, hkeys n hn, hnarrowed n hn, Schema.applies_of_isObject ht' hobject,
            or_assoc]
        · rename_i hobject
          refine gives_mono (groups_gather strict hk ht rest (small_tail h) _) fun g' hg' n hn => ?_
          rw [hg' n hn, holds_abstractInline, hkeys n hn, hnarrowed n hn,
            Schema.applies_of_not_isObject ht' hobject, or_assoc, Schema.name_of_type? ht']
termination_by sizeOf sels
decreasing_by
  all_goals
    subst_vars
    first
      | exact sizeOf_tail_lt
      | exact sizeOf_below_lt

/-! ### The fields of single types -/

/-- The second fields give the possible types in `K` the key, and have it wherever the first have it. -/
def TypeFields.Adds (strict : Bool) (k : String) (possible : List String) (K : String → Prop) (per per' : TypeFields) : Prop :=
  ∀ n ∈ possible, (HasKey strict (per'.of n) k ↔ HasKey strict (per.of n) k ∨ K n)

/-- The step adds the key to the fields of the possible types in `K`. -/
def Adding (c : Sources) (N : Need → Prop) (strict : Bool) (k : String) (possible : List String) (K : String → Prop)
    (step : TypeFields → Plan TypeFields) : Prop :=
  ∀ per, Gives c N (step per) (per.Adds strict k possible K)

section Adding

variable {possible : List String} {K K' : String → Prop} {α : Type}

theorem adding_congr {step : TypeFields → Plan TypeFields} (h : Adding c N strict k possible K step)
    (hK : ∀ n ∈ possible, (K n ↔ K' n)) : Adding c N strict k possible K' step :=
  fun per => gives_mono (h per) fun per' hadds n hn => by rw [hadds n hn, hK n hn]

theorem adding_pure (hK : ∀ n ∈ possible, ¬ K n) : Adding c N strict k possible K pure :=
  fun per => gives_pure fun n hn => by simp [hK n hn]

theorem adding_bind {step step' : TypeFields → Plan TypeFields} (h : Adding c N strict k possible K step)
    (h' : Adding c N strict k possible K' step') :
    Adding c N strict k possible (fun n => K n ∨ K' n) (fun per => step per >>= step') :=
  fun per => gives_bind (h per) fun per₁ h₁ => gives_mono (h' per₁) fun per₂ h₂ n hn => by
    rw [h₂ n hn, h₁ n hn, or_assoc]

/-- What is compiled first is given to the step. -/
theorem adding_after {p : Plan α} {P : α → Prop} {step : α → TypeFields → Plan TypeFields} (hp : Gives c N p P)
    (h : ∀ a, P a → Adding c N strict k possible K (step a)) : Adding c N strict k possible K (fun per => p >>= fun a => step a per) :=
  fun per => gives_bind hp fun a ha => h a ha per

theorem adding_foldlM {K : α → String → Prop} {l : List α} {step : TypeFields → α → Plan TypeFields}
    (h : ∀ a ∈ l, Adding c N strict k possible (K a) (step · a)) :
    Adding c N strict k possible (fun n => ∃ a ∈ l, K a n) (l.foldlM step ·) := by
  induction l with
  | nil => exact adding_pure fun n _ => by simp
  | cons a l ih =>
    refine adding_congr (adding_bind (h a List.mem_cons_self) (ih fun a' ha' => h a' (List.mem_cons_of_mem a ha'))) ?_
    exact fun n _ => by simp

/-- Fields that are added for a possible type add their keys for it. -/
theorem adding_contribute (name : String) (fields : Fields) :
    Adding c N strict k possible (fun n => name = n ∧ HasKey strict fields k) (contribute possible name fields) := by
  intro per
  unfold contribute
  split
  · rename_i hskip
    refine adding_pure ?_ per
    rintro n hn ⟨rfl, hk⟩
    rcases Bool.or_eq_true_iff.1 hskip with hmissing | hempty
    · simp [hn] at hmissing
    · rw [List.isEmpty_iff.1 hempty] at hk
      exact not_hasKey_nil hk
  · refine gives_bind (P := (· = retag (.single name) fields)) (fun _ fields' h => ?_) fun fields' hfields' => gives_pure fun n _ => ?_
    · exact (Except.ok.inj ((outcome_resolveTags name fields).symm.trans h)).symm
    rw [TypeFields.of_insert]
    split
    · rename_i hname
      rw [hasKey_mergeFields, hfields', hasKey_retag, hname]
      simp
    · rename_i hname
      simp [hname]

/-- Fields that are added for each possible type of a condition. -/
theorem adding_possible {condition : String} {fields : String → Fields} :
    Adding c N strict k possible (fun n => n ∈ c.schema.possible condition ∧ HasKey strict (fields n) k) (fun per =>
      possible.foldlM (fun per name =>
        if c.schema.implements name condition then contribute possible name (fields name) per else pure per) per) := by
  refine adding_congr (adding_foldlM (K := fun name n =>
    name = n ∧ n ∈ c.schema.possible condition ∧ HasKey strict (fields n) k) fun name _ => ?_) fun n hn => ?_
  · split
    · rename_i himplements
      refine adding_congr (adding_contribute name (fields name)) fun n _ => ?_
      rw [Schema.mem_possible_iff] at himplements
      exact ⟨fun ⟨h, hk⟩ => by subst h; exact ⟨rfl, himplements, hk⟩, fun ⟨h, _, hk⟩ => ⟨h, h ▸ hk⟩⟩
    · rename_i himplements
      rw [Schema.mem_possible_iff] at himplements
      exact adding_pure fun n _ h => himplements (h.1 ▸ h.2.1)
  · exact ⟨fun ⟨_, _, rfl, h⟩ => h, fun h => ⟨n, hn, rfl, h⟩⟩

end Adding

/-- What groups hold for single types is added for them. -/
theorem typeFields_gather {small : List Selection → Prop} {below : GroupCompiler small} {g : Groups small}
    (hg : g.Sorted c.toConfig) (hg' : g.Placed c.toConfig)
    (hconcrete : ∀ t s, Known c.toConfig t → t.body.isObject = true →
      Gives c N (below.concrete t s) fun r => HasKey strict r.fields k ↔ k ∈ keysIf strict c t.name t s.1)
    (habstract : ∀ t s, Known c.toConfig t → Gives c N (below.abstract t s) fun r => ∀ n ∈ c.schema.possible t.name,
      (HasKey strict r.1 k ∨ HasKey strict (r.2.of n) k ↔ k ∈ keysIf strict c n t s.1))
    (t : TypeDef) (possible : List String) :
    Gives c N (typeFields c.toConfig below t possible g) fun per =>
      ∀ n ∈ possible, (HasKey strict (per.of n) k ↔ g.Targets c strict n k) := by
  have hinlines : Adding c N strict k possible (fun n => ∃ i, At g.concreteInlines n i ∧ k ∈ keysIf strict c n i.1 i.2.1) fun per =>
      g.concreteInlines.foldlM (fun per e => do
        if possible.contains e.1 then
          e.2.foldlM (fun per i => do
            let s ← below.concrete i.1 i.2
            let fields ← inlineFields s
            contribute possible e.1 fields per) per
        else return per) per := by
    refine adding_congr (adding_foldlM (K := fun e n => e.1 = n ∧ ∃ i ∈ e.2, k ∈ keysIf strict c n i.1 i.2.1)
      fun e he => ?_) fun n _ => exists_at
    split
    · refine adding_congr (adding_foldlM (K := fun i n => e.1 = n ∧ k ∈ keysIf strict c n i.1 i.2.1) fun i hi => ?_)
        fun n _ => ⟨fun ⟨i, hi, h, hk⟩ => ⟨h, i, hi, hk⟩, fun ⟨h, i, hi, hk⟩ => ⟨i, hi, h, hk⟩⟩
      obtain ⟨hknown, hobject, hname⟩ := hg e.1 i ⟨e, he, rfl, hi⟩
      refine adding_after (hconcrete i.1 i.2 hknown hobject) fun s hs => ?_
      refine adding_after (gives_inlineFields s) fun fields hfields => adding_congr (adding_contribute e.1 fields) ?_
      subst hfields
      rintro n _
      rw [hs, hname]
      exact ⟨fun ⟨h, hk⟩ => ⟨h, h ▸ hk⟩, fun ⟨h, hk⟩ => ⟨h, h ▸ hk⟩⟩
    · rename_i hpossible
      exact adding_pure fun n hn h => hpossible (List.contains_iff_mem.2 (h.1 ▸ hn))
  have hspreads : Adding c N strict k possible (fun n => ∃ f, At g.concreteSpreads n f ∧ k = spreadKey c f) fun per =>
      g.concreteSpreads.foldlM (fun per e =>
        e.2.foldlM (fun per f => contribute possible e.1 (refFields c.toConfig f t.name) per) per) per := by
    refine adding_congr (adding_foldlM (K := fun e n => e.1 = n ∧ ∃ f ∈ e.2, k = spreadKey c f) fun e _ => ?_)
      fun n _ => exists_at
    refine adding_congr (adding_foldlM fun f _ => adding_contribute e.1 (refFields c.toConfig f t.name)) fun n _ => ?_
    simp only [hasKey_refFields]
    exact ⟨fun ⟨f, hf, h, hk⟩ => ⟨h, f, hf, hk⟩, fun ⟨h, f, hf, hk⟩ => ⟨f, hf, h, hk⟩⟩
  have habstractSpreads : Adding c N strict k possible
      (fun n => ∃ f ∈ g.abstractSpreads, n ∈ c.schema.possible f.fragment.condition ∧ k = spreadKey c f) fun per =>
      g.abstractSpreads.foldlM (fun per f =>
        possible.foldlM (fun per name =>
          if c.schema.implements name f.fragment.condition then
            contribute possible name (refFields c.toConfig f t.name) per
          else pure per) per) per :=
    adding_foldlM fun f _ => adding_congr adding_possible fun n _ => by rw [hasKey_refFields]
  have habstractInlines : Adding c N strict k possible
      (fun n => ∃ i ∈ g.abstractInlines, n ∈ c.schema.possible i.1.name ∧ k ∈ keysIf strict c n i.1 i.2.1) fun per =>
      g.abstractInlines.foldlM (fun per e => do
        let r ← below.abstract e.1 e.2
        possible.foldlM (fun per name =>
          if c.schema.implements name e.1.name then
            contribute possible name (Shape.mergeFields r.1 (r.2.of name)) per
          else pure per) per) per :=
    adding_foldlM fun i hi => adding_after (habstract i.1 i.2 (hg' i hi)) fun r hr => adding_congr adding_possible fun n _ => by
      refine and_congr_right fun hn => ?_
      rw [hasKey_mergeFields, hr n hn]
  refine gives_mono (adding_bind hinlines (adding_bind hspreads (adding_bind habstractSpreads habstractInlines)) [])
    fun per h n hn => ?_
  exact (h n hn).trans (or_iff_right not_hasKey_nil)

/-- The fields of selections on an abstract type, those shared among all its types and those of single types, have the
keys that are collected. -/
theorem sharedAndOwn_gathers (strict : Bool) (hk : c.Tells k) {t : TypeDef} (ht : Known c.toConfig t) (sels : List Selection) :
    Gives c N (sharedAndOwn c.toConfig t sels) fun r => ∀ n ∈ c.schema.possible t.name,
      (HasKey strict r.1 k ∨ HasKey strict (r.2.of n) k ↔ k ∈ keysIf strict c n t sels) := by
  rw [sharedAndOwn]
  refine gives_bind (gives_and (groups_sorted t sels (fun _ h => h) {} Groups.sorted_empty)
    (gives_and (groups_placed t sels (fun _ h => h) {} (List.forall_mem_nil _))
      (groups_gather strict hk ht sels (fun _ h => h) {}))) fun g hg => ?_
  refine gives_bind (typeFields_gather hg.1 hg.2.1 (fun t' s ht' hobject => selection_gathers strict hk ht' hobject s.1)
    (fun t' s ht' => sharedAndOwn_gathers strict hk ht' s.1) t _) fun per hper => gives_pure fun n hn => ?_
  rw [hasKey_baseFields, hper n hn]
  exact (hg.2.2 n hn).trans (or_iff_right Groups.holds_empty)
termination_by sizeOf sels
decreasing_by exact s.2

/-- Selections on an abstract type, if they do not take the fast path, come to one branch for each possible type in the
order of the schema; what the keys of a branch tell is collected for its type. -/
theorem exists_branches {t : TypeDef} (ht : Known c.toConfig t) (habstract : t.body.isAbstract = true) {sels : List Selection}
    {shape : Shape} (h : (selection c.toConfig t sels).outcome c = .ok shape) (hslow : fastPath? c t sels = none) :
    ∃ fields : String → Fields,
      shape = ofBranches t ((c.schema.possible t.name).map fun n => .object n (fields n) {}) ∧
      ∀ n ∈ c.schema.possible t.name, ∀ strict k, c.Tells k →
        (HasKey strict (fields n) k ↔ k ∈ keysIf strict c n t sels) := by
  rcases outcome_selection_abstract habstract h with hfast | ⟨-, g, per, hg, hper, hshape⟩
  · exact absurd (hslow.symm.trans hfast) nofun
  · refine ⟨_, hshape, fun n hn strict k hk => ?_⟩
    have hshared := sharedAndOwn_gathers (N := fun _ => True) strict hk ht sels (fun _ _ => trivial) _
      (outcome_sharedAndOwn hg hper) n hn
    rw [branchFields, hasKey_retag, hasKey_mergeFields, hshared]

/-- If not every selection has its type tag, the keys of a branch are those that are collected for its type. -/
theorem outcome_collects (htag : c.output.alwaysTag = false) {t : TypeDef} (ht : Known c.toConfig t)
    (habstract : t.body.isAbstract = true) {sels : List Selection} {shape : Shape} (h : (selection c.toConfig t sels).outcome c = .ok shape)
    (hslow : fastPath? c t sels = none) :
    ∃ fields : String → Fields,
      shape = ofBranches t ((c.schema.possible t.name).map fun n => .object n (fields n) {}) ∧
      ∀ n ∈ c.schema.possible t.name, ∀ k, k ∈ Assoc.keys (fields n) ↔ k ∈ collectKeys c n sels := by
  obtain ⟨fields, hshape, hkeys⟩ := exists_branches ht habstract h hslow
  refine ⟨fields, hshape, fun n hn k => ?_⟩
  rw [← hasKey_false, hkeys n hn false k (Config.tells_of_untagged htag k), keysIf_false]

/-- Compiling selections on an interface or a union, if they do not take the fast path, gives one branch for each possible
type in the order of the schema.  The keys of a branch are the response keys of the fields and the keys of the fragments
that field collection reaches for its type. -/
theorem branches_collect {c : Setup} (htag : c.output.alwaysTag = false) {t : TypeDef} (ht : Known c.toConfig t)
    (habstract : t.body.isAbstract = true) {sels : List Selection} {building : List String} {s s' : State} {shape : Shape}
    (hs : Recalls c.toSources s)
    (h : (select c (useFragment c fun name => discard (generateFragment c building name)) t sels).runOn s =
      (.ok shape, s'))
    (hslow : fastPath? c.toSources t sels = none) :
    ∃ fields : String → Fields,
      shape = ofBranches t ((c.schema.possible t.name).map fun n => .object n (fields n) {}) ∧
      ∀ n ∈ c.schema.possible t.name, ∀ k, k ∈ Assoc.keys (fields n) ↔ k ∈ collectKeys c.toSources n sels :=
  outcome_collects htag ht habstract (outcome_of_select ht hs h) hslow

/-! ## An example -/

/-- What can be found is a user, a guest or a bot; the first two have a name, and users and bots an identity. -/
def finding : Setup :=
  let field (name : String) : GraphQL.FieldDef := ⟨name, .named "String", [], none⟩
  { schema :=
      { types := [
          ("Node", ⟨"Node", .interface [] [field "id"], none⟩),
          ("Named", ⟨"Named", .interface [] [field "name"], none⟩),
          ("User", ⟨"User", .object ["Node", "Named"] [field "id", field "name"], none⟩),
          ("Guest", ⟨"Guest", .object ["Named"] [field "name"], none⟩),
          ("Bot", ⟨"Bot", .object ["Node"] [field "id"], none⟩),
          ("Found", ⟨"Found", .union ["User", "Guest", "Bot"], none⟩),
          ("String", ⟨"String", .scalar, none⟩)]
        roots := []
        keyed := by decide }
    output := {}
    naming := {}
    scalars := .standard
    fragments := []
    cached := true }

/-- The type of what can be found. -/
def foundType : TypeDef :=
  ⟨"Found", .union ["User", "Guest", "Bot"], none⟩

/-- The type tag, and the name of what has one, with the identity of what has one besides. -/
def foundSelections : List Selection :=
  [.field ⟨none, "__typename", [], []⟩ [],
    .inline (some "Named") []
      [.field ⟨none, "name", [], []⟩ [], .inline (some "Node") [] [.field ⟨none, "id", [], []⟩ []]]]

example : collectKeys finding.toSources "User" foundSelections = ["__typename", "name", "id"] := by decide +kernel

example : collectKeys finding.toSources "Bot" foundSelections = ["__typename"] := by decide +kernel

/-- The type tags were generated in one file, and another one is being processed. -/
def foundState : State :=
  let made (kind : ArtifactKind) (key : String) : (ArtifactKind × String) × Artifact ArtifactKind :=
    ((kind, key), { name := key, code := "", graphqlName := some key, kind, origin := ⟨"a", []⟩ })
  { State.initial true with
    tracker := (Tracker.initial true).start (some "b")
    store := [made .typeTagUnion "Found", made .typeTag "User", made .typeTag "Guest", made .typeTag "Bot"] }

/-- What is selected of what can be found is compiled. -/
def foundRun : Except Failure Shape × State :=
  (select finding (useFragment finding fun name => discard (generateFragment finding [] name)) foundType
    foundSelections).runOn foundState

theorem recalls_foundState : Recalls finding.toSources foundState :=
  fun _ _ _ _ => nofun

theorem isOk_foundRun : foundRun.1.isOk = true := by
  decide +kernel

theorem fastPath?_found : fastPath? finding.toSources foundType foundSelections = none := by
  cbv

/-- What is found has one branch for each of the three types, with what is collected for it. -/
theorem branches_collect_found :
    ∃ (shape : Shape) (fields : String → Fields), foundRun.1 = .ok shape ∧
      shape = ofBranches foundType (["User", "Guest", "Bot"].map fun n => .object n (fields n) {}) ∧
      ∀ n ∈ ["User", "Guest", "Bot"], ∀ k, k ∈ Assoc.keys (fields n) ↔ k ∈ collectKeys finding.toSources n foundSelections := by
  obtain ⟨shape, s', hrun⟩ := eq_ok_of_isOk isOk_foundRun
  obtain ⟨fields, hshape, hkeys⟩ := branches_collect (c := finding) rfl (t := foundType) rfl rfl recalls_foundState hrun
    fastPath?_found
  exact ⟨shape, fields, congrArg Prod.fst hrun, hshape, hkeys⟩

end Compile

end ResponseTypes
