import ResponseTypes.Proofs.Exact.Expand
import ResponseTypes.Proofs.Exact.Selected
import ResponseTypes.Proofs.Shape.Fits

/-!
# Conforming shapes

A shape conforms to an output type if it has its lists and may be missing where the type says so, and if the fields of its
objects conform to those of the object type, which `names` gives for response paths (`Conforms`).  Merging two shapes that
conform to one type gives a shape that conforms to it and holds what one of the two holds (`conforms_merge`,
`conforms_mergeFields`): neither a union nor an intersection comes up.
-/

namespace ResponseTypes.Compile

set_option autoImplicit false

open GraphQL (TypeDef TypeRef)
open Shape (Holds EntryHolds FieldsHold HasField merge mergeAt mergeWith mergeFields mergeFieldsWith exists_mem_mergeFieldsWith
  nodup_mergeFieldsWith)

/-- The type expression of values that have no fields. -/
def leafCode? (c : Config) (t : TypeDef) : Option String :=
  match t.body with
  | .scalar => some (c.scalars.typeFor t.name)
  | .enum _ => some (c.naming.enum t.name)
  | .input _ => some (c.naming.input t.name)
  | .object _ _ | .interface _ _ | .union _ => none

mutual

/-- A shape that is being compiled conforms to an output type, given the names of fields at response paths below it. -/
inductive Conforms (c : Sources) (R : String → Prop) : (List String → String) → TypeRef → Bool → Shape → Prop
  | nonNull {names : List String → String} {type : TypeRef} {nullable : Bool} {s : Shape} :
      Conforms c R names type false s → Conforms c R names (.nonNull type) nullable s
  | list {names : List String → String} {type : TypeRef} {nullable : Bool} {element : Shape} {n : Note} :
      n.nullable = nullable → Conforms c R names type true element →
      Conforms c R names (.list type) nullable (.array element element.nullable n)
  | leaf {names : List String → String} {name : String} {nullable : Bool} {t : TypeDef} {code : String} {n : Note} :
      n.nullable = nullable → c.schema.type? name = some t → leafCode? c.toConfig t = some code →
      Conforms c R names (.named name) nullable (.scalar code n)
  | object {names : List String → String} {name : String} {nullable : Bool} {t : TypeDef} {fields : Fields} {n : Note} :
      n.nullable = nullable → c.schema.type? name = some t → t.body.isObject = true → (Assoc.keys fields).Nodup →
      (∀ e ∈ fields, EntryConforms c R names t e.1 e.2) → Conforms c R names (.named name) nullable (.object t.name fields n)

/-- What stands under a key among the fields of an object conforms to its type.  The fragments it refers to are in `R`. -/
inductive EntryConforms (c : Sources) (R : String → Prop) : (List String → String) → TypeDef → String → Shape → Prop
  | tag {names : List String → String} {t : TypeDef} {k : String} {n : Note} : isFragmentKey k = false →
      names [k] = typenameKey → n.nullable = false → EntryConforms c R names t k (.tag (.single t.name) n)
  | field {names : List String → String} {t : TypeDef} {k : String} {f : GraphQL.FieldDef} {s : Shape} :
      isFragmentKey k = false → names [k] ≠ typenameKey → t.field? (names [k]) = some f →
      Conforms c R (fun path => names (k :: path)) f.type true s → EntryConforms c R names t k s
  | spread {names : List String → String} {t : TypeDef} {k : String} {f : FragmentDef} {n : Note} :
      k = fragmentKey (c.naming.fragment f.fragment.name) → R f.fragment.name →
      Assoc.get? c.fragments f.fragment.name = some f → f.fragment.condition = t.name →
      NamedBy c names t f.fragment.selections → EntryConforms c R names t k (.ref (fragmentRef c.toConfig f t.name) n)

end

/-- The fields of an object of a type conform to it. -/
structure FieldsConform (c : Sources) (R : String → Prop) (names : List String → String) (t : TypeDef) (fields : Fields) :
    Prop where
  nodup : (Assoc.keys fields).Nodup
  entries : ∀ e ∈ fields, EntryConforms c R names t e.1 e.2

/-- Generated names tell fragments apart. -/
def Sources.DistinctNames (c : Sources) : Prop :=
  ∀ name f other g, Assoc.get? c.fragments name = some f → Assoc.get? c.fragments other = some g →
    c.naming.fragment name = c.naming.fragment other → name = other

/-- A shape holds what one of two does. -/
def Joins (generated : String → Option Shape) (a b s : Shape) : Prop :=
  ∀ path, s.Holds generated path ↔ a.Holds generated path ∨ b.Holds generated path

variable {c : Sources} {R : String → Prop} {generated : String → Option Shape} {names : List String → String}
  {t : TypeDef} {type : TypeRef} {nullable : Bool} {a b s : Shape} {fields fields' : Fields} {k : String}

/-- Whether a value of a type may be missing, if the type itself does not say so. -/
def mayLack : TypeRef → Bool → Bool
  | .nonNull type, _ => mayLack type false
  | .list _, nullable | .named _, nullable => nullable

theorem Conforms.nullable_eq (h : Conforms c R names type nullable s) : s.nullable = mayLack type nullable := by
  induction type generalizing nullable with
  | nonNull type ih =>
    cases h with
    | nonNull h => exact ih h
  | list type ih =>
    cases h with
    | list hn => exact hn
  | named name =>
    cases h with
    | leaf hn | object hn => exact hn

/-- Another description makes no difference. -/
theorem Conforms.withNote (h : Conforms c R names type nullable s) {n : Note} (hn : n.nullable = s.nullable) :
    Conforms c R names type nullable (s.withNote n) := by
  induction type generalizing nullable with
  | nonNull type ih =>
    cases h with
    | nonNull h => exact .nonNull (ih h)
  | list type ih =>
    cases h with
    | list hm hs => exact .list (hn.trans hm) hs
  | named name =>
    cases h with
    | leaf hm ht hcode => exact .leaf (hn.trans hm) ht hcode
    | object hm ht hobject hnodup hentries => exact .object (hn.trans hm) ht hobject hnodup hentries

/-! ## Merging -/

theorem leafCode?_of_isObject (h : t.body.isObject = true) : leafCode? c.toConfig t = none := by
  unfold leafCode?
  cases hbody : t.body <;> simp_all [GraphQL.TypeBody.isObject]

theorem uniteTags_single (name : String) :
    Shape.uniteTags (.single name) (.single name) = some (.single name) := by
  simp [Shape.uniteTags, TypeTag.single, TypeTag.ofNames, Text.distinct, Text.sorted, Text.sortBy, Text.insertBy]

theorem fieldsNesting_le {e : String × Shape} (he : e ∈ fields) : e.2.nesting ≤ Shape.fieldsNesting fields := by
  induction fields with
  | nil => cases he
  | cons first rest ih =>
    obtain ⟨key, s⟩ := first
    rw [Shape.fieldsNesting]
    rcases List.mem_cons.1 he with rfl | he
    · exact le_max_left _ _
    · exact (ih he).trans (le_max_right _ _)

/-- Merging shapes that conform, with a nesting below `m`, does what it should. -/
structure MergesBelow (c : Sources) (R : String → Prop) (generated : String → Option Shape) (m : Nat)
    (f : Shape → Shape → Shape) : Prop where
  value : ∀ {names type nullable a b}, Conforms c R names type nullable a → Conforms c R names type nullable b →
    a.nesting < m → b.nesting < m → Conforms c R names type nullable (f a b) ∧ Joins generated a b (f a b)
  entry : ∀ {names t k a b}, EntryConforms c R names t k a → EntryConforms c R names t k b →
    a.nesting < m → b.nesting < m → EntryConforms c R names t k (f a b) ∧ Joins generated a b (f a b)

section Merge

variable {m : Nat} {below : Shape → Shape → Shape}

theorem entryHolds_join (h : Joins generated a b s) (hkey : isFragmentKey k = true → a.element = a ∧ b.element = b ∧ s.element = s)
    (path : List String) : EntryHolds generated k s path ↔ EntryHolds generated k a path ∨ EntryHolds generated k b path := by
  cases path with
  | nil => simp [EntryHolds]
  | cons j path =>
    simp only [EntryHolds]
    split
    · rename_i hk
      obtain ⟨ha, hb, hs⟩ := hkey hk
      have hj := h (j :: path)
      rwa [Shape.holds_cons, Shape.holds_cons, Shape.holds_cons, ha, hb, hs] at hj
    · rw [h path]
      tauto

/-- Among the fields of an object, references stand under the keys of fragments. -/
theorem EntryConforms.element_eq (h : EntryConforms c R names t k s) (hk : isFragmentKey k = true) : s.element = s := by
  cases h with
  | tag hkey | field hkey => exact absurd (hkey.symm.trans hk) Bool.false_ne_true
  | spread => rfl

/-- The fields of two objects of one type are merged. -/
theorem conforms_mergeFieldsWith (hbelow : MergesBelow c R generated m below) (h : FieldsConform c R names t fields)
    (h' : FieldsConform c R names t fields') (hm : ∀ e ∈ fields, e.2.nesting < m) (hm' : ∀ e ∈ fields', e.2.nesting < m) :
    FieldsConform c R names t (mergeFieldsWith below fields fields') ∧
      ∀ path, FieldsHold generated (mergeFieldsWith below fields fields') path ↔
        FieldsHold generated fields path ∨ FieldsHold generated fields' path := by
  have hboth : ∀ e ∈ fields, ∀ s, Assoc.get? fields' e.1 = some s → EntryConforms c R names t e.1 (below e.2 s) ∧
      ∀ path, EntryHolds generated e.1 (below e.2 s) path ↔
        EntryHolds generated e.1 e.2 path ∨ EntryHolds generated e.1 s path := by
    intro e he s hs
    have hs' := Assoc.mem_of_get? hs
    obtain ⟨hconforms, hjoins⟩ := hbelow.entry (h.entries e he) (h'.entries (e.1, s) hs') (hm e he) (hm' (e.1, s) hs')
    exact ⟨hconforms, entryHolds_join hjoins fun hk =>
      ⟨(h.entries e he).element_eq hk, (h'.entries (e.1, s) hs').element_eq hk, hconforms.element_eq hk⟩⟩
  refine ⟨⟨nodup_mergeFieldsWith h.nodup h'.nodup, fun e he => ?_⟩, fun path => ?_⟩
  · rcases List.mem_append.1 he with he | he
    · obtain ⟨e', he', rfl⟩ := List.mem_map.1 he
      dsimp only
      split
      · rename_i s hs
        exact (hboth e' he' s hs).1
      · exact h.entries e' he'
    · exact h'.entries e (List.mem_filter.1 he).1
  · refine (exists_mem_mergeFieldsWith (P := fun key s => EntryHolds generated key s path)).trans ?_
    constructor
    · rintro (⟨e, he, hpath⟩ | ⟨e, he, -, hpath⟩)
      · split at hpath
        · rename_i s hs
          exact (((hboth e he s hs).2 path).1 hpath).imp (fun h => ⟨e, he, h⟩) fun h => ⟨_, Assoc.mem_of_get? hs, h⟩
        · exact Or.inl ⟨e, he, hpath⟩
      · exact Or.inr ⟨e, he, hpath⟩
    · rintro (⟨e, he, hpath⟩ | ⟨e, he, hpath⟩)
      · refine Or.inl ⟨e, he, ?_⟩
        split
        · rename_i s hs
          exact ((hboth e he s hs).2 path).2 (Or.inl hpath)
        · exact hpath
      · cases hhas : Assoc.get? fields e.1 with
        | none => exact Or.inr ⟨e, he, by rw [Assoc.has, hhas]; rfl, hpath⟩
        | some s =>
          have hs := Assoc.mem_of_get? hhas
          have hget := Assoc.get?_of_mem h'.nodup he
          refine Or.inl ⟨(e.1, s), hs, ?_⟩
          simp only [hget]
          exact ((hboth (e.1, s) hs e.2 hget).2 path).2 (Or.inr hpath)

theorem holds_objects {typeName : String} {n n' n'' : Note} {both : Fields}
    (h : ∀ path, FieldsHold generated both path ↔ FieldsHold generated fields path ∨ FieldsHold generated fields' path) :
    Joins generated (.object typeName fields n) (.object typeName fields' n') (.object typeName both n'') := by
  intro path
  cases path with
  | nil => simp
  | cons k path => rw [Shape.holds_object, Shape.holds_object, Shape.holds_object, h]

theorem value_mergeWith (hbelow : MergesBelow c R generated m below) (ha : Conforms c R names type nullable a)
    (hb : Conforms c R names type nullable b) (hna : a.nesting < m + 1) (hnb : b.nesting < m + 1) :
    Conforms c R names type nullable (mergeWith below a b) ∧ Joins generated a b (mergeWith below a b) := by
  induction type generalizing nullable with
  | nonNull type ih =>
    cases ha with
    | nonNull ha =>
      cases hb with
      | nonNull hb =>
        obtain ⟨hconforms, hjoins⟩ := ih ha hb
        exact ⟨.nonNull hconforms, hjoins⟩
  | list type ih =>
    cases ha with
    | @list _ _ _ element n hn ha =>
      cases hb with
      | @list _ _ _ element' n' hn' hb =>
        rw [Shape.nesting] at hna hnb
        obtain ⟨hconforms, hjoins⟩ := hbelow.value ha hb (by omega) (by omega)
        have hnullable : (element.nullable || element'.nullable) = (below element element').nullable := by
          rw [ha.nullable_eq, hb.nullable_eq, hconforms.nullable_eq, Bool.or_self]
        simp only [mergeWith, hnullable]
        refine ⟨.list ?_ hconforms, fun path => ?_⟩
        · simp [Shape.keepNote, Shape.note, hn, hn']
        · rw [Shape.holds_array, Shape.holds_array, Shape.holds_array, hjoins]
  | named name =>
    cases ha with
    | leaf hn ht hcode =>
      cases hb with
      | leaf hn' ht' hcode' =>
        cases ht.symm.trans ht'
        cases hcode.symm.trans hcode'
        simp only [mergeWith, if_true]
        refine ⟨.leaf ?_ ht hcode, fun path => ?_⟩
        · simp [Shape.keepNote, Shape.note, hn, hn']
        · rw [Shape.holds_withNote]
          cases path with
          | nil => simp
          | cons k path => simp [Shape.not_holds_scalar]
      | object hn' ht' hobject =>
        cases ht.symm.trans ht'
        exact absurd (hcode.symm.trans (leafCode?_of_isObject hobject)) (Option.some_ne_none _)
    | @object _ _ _ t fields n hn ht hobject hnodup hentries =>
      cases hb with
      | leaf hn' ht' hcode =>
        cases ht.symm.trans ht'
        exact absurd (hcode.symm.trans (leafCode?_of_isObject hobject)) (Option.some_ne_none _)
      | @object _ _ _ t' fields' n' hn' ht' hobject' hnodup' hentries' =>
        cases ht.symm.trans ht'
        rw [Shape.nesting] at hna hnb
        obtain ⟨hconforms, hholds⟩ := conforms_mergeFieldsWith hbelow ⟨hnodup, hentries⟩ ⟨hnodup', hentries'⟩
          (fun e he => lt_of_le_of_lt (fieldsNesting_le he) (by omega)) fun e he => lt_of_le_of_lt (fieldsNesting_le he) (by omega)
        simp only [mergeWith, Shape.mergeObjects]
        exact ⟨.object (by simp [Shape.keepNote, hn, hn']) ht hobject hconforms.nodup hconforms.entries, holds_objects hholds⟩

theorem entry_mergeWith (hdistinct : c.DistinctNames) (hbelow : MergesBelow c R generated m below)
    (ha : EntryConforms c R names t k a) (hb : EntryConforms c R names t k b) (hna : a.nesting < m + 1)
    (hnb : b.nesting < m + 1) :
    EntryConforms c R names t k (mergeWith below a b) ∧ Joins generated a b (mergeWith below a b) := by
  cases ha with
  | tag hk hname hn =>
    cases hb with
    | tag _ _ hn' =>
      simp only [mergeWith, uniteTags_single]
      refine ⟨.tag hk hname (by simp [Shape.mergeNotes, hn, hn']), fun path => ?_⟩
      cases path with
      | nil => simp
      | cons j path => simp [Shape.not_holds_tag]
    | field _ hname' => exact absurd hname hname'
    | spread hk' =>
      rw [hk', isFragmentKey_fragmentKey] at hk
      cases hk
  | field hk hname hf ha =>
    cases hb with
    | tag _ hname' => exact absurd hname' hname
    | field _ _ hf' hb =>
      cases hf.symm.trans hf'
      obtain ⟨hconforms, hjoins⟩ := value_mergeWith hbelow ha hb hna hnb
      exact ⟨.field hk hname hf hconforms, hjoins⟩
    | spread hk' =>
      rw [hk', isFragmentKey_fragmentKey] at hk
      cases hk
  | @spread _ _ _ f n hk hR hf hcondition hnamed =>
    cases hb with
    | tag hk' | field hk' =>
      rw [hk, isFragmentKey_fragmentKey] at hk'
      cases hk'
    | @spread _ _ _ f' n' hk' hR' hf' =>
      have hname := hdistinct _ f _ f' hf hf' (fragmentKey_inj (hk.symm.trans hk'))
      rw [hname] at hf
      cases hf.symm.trans hf'
      simp only [mergeWith, if_true]
      refine ⟨.spread hk hR' hf' hcondition hnamed, fun path => ?_⟩
      rw [Shape.holds_withNote]
      cases path with
      | nil => simp
      | cons j path => rw [Shape.holds_ref, Shape.holds_ref, or_self]

end Merge

theorem mergesBelow_mergeAt (hdistinct : c.DistinctNames) (n : Nat) : MergesBelow c R generated (n + 1) (mergeAt n) := by
  have hstep : ∀ m below, MergesBelow c R generated m below → MergesBelow c R generated (m + 1) (mergeWith below) :=
    fun m below hbelow => ⟨value_mergeWith hbelow, entry_mergeWith hdistinct hbelow⟩
  induction n with
  | zero => exact hstep 0 _ ⟨fun _ _ h => absurd h (Nat.not_lt_zero _), fun _ _ h => absurd h (Nat.not_lt_zero _)⟩
  | succ n ih => exact hstep (n + 1) _ ih

theorem mergesBelow_merge (hdistinct : c.DistinctNames) (m : Nat) : MergesBelow c R generated m merge where
  value ha hb _ _ := (mergesBelow_mergeAt hdistinct _).value ha hb (Nat.lt_succ_of_le (le_max_left _ _))
    (Nat.lt_succ_of_le (le_max_right _ _))
  entry ha hb _ _ := (mergesBelow_mergeAt hdistinct _).entry ha hb (Nat.lt_succ_of_le (le_max_left _ _))
    (Nat.lt_succ_of_le (le_max_right _ _))

/-- What is merged under a key conforms, and holds what one of the two holds. -/
theorem conforms_merge (generated : String → Option Shape) (hdistinct : c.DistinctNames)
    (ha : EntryConforms c R names t k a) (hb : EntryConforms c R names t k b) :
    EntryConforms c R names t k (merge a b) ∧ Joins generated a b (merge a b) :=
  (mergesBelow_merge hdistinct (max a.nesting b.nesting + 1)).entry ha hb (Nat.lt_succ_of_le (le_max_left _ _))
    (Nat.lt_succ_of_le (le_max_right _ _))

/-- Merged fields conform, and hold what one of the two holds. -/
theorem conforms_mergeFields (generated : String → Option Shape) (hdistinct : c.DistinctNames) (h : FieldsConform c R names t fields)
    (h' : FieldsConform c R names t fields') :
    FieldsConform c R names t (mergeFields fields fields') ∧
      ∀ path, FieldsHold generated (mergeFields fields fields') path ↔
        FieldsHold generated fields path ∨ FieldsHold generated fields' path :=
  conforms_mergeFieldsWith (mergesBelow_merge hdistinct (max (Shape.fieldsNesting fields) (Shape.fieldsNesting fields') + 1))
    h h' (fun _ he => Nat.lt_succ_of_le ((fieldsNesting_le he).trans (le_max_left _ _)))
    fun _ he => Nat.lt_succ_of_le ((fieldsNesting_le he).trans (le_max_right _ _))

end ResponseTypes.Compile
