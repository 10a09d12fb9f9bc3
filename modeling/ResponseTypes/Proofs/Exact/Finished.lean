import ResponseTypes.Proofs.Exact.Composed
import ResponseTypes.Proofs.Exact.Flat

/-!
# Finished shapes

Finishing an object moves fields between its parts and leaves out what is in conflict, but no field gets lost and none
comes up (`matches_object`).  So a finished shape, with the finished shapes of fragments in their places, holds what the
shape held before with the shapes of fragments in their places (`holds_finished`).
-/

namespace ResponseTypes.Compile

set_option autoImplicit false

open GraphQL (Selection TypeDef TypeRef)
open Shape (EntryHolds FieldsHold HasField contributions conflicts keepRef?)

/-- A shape is what another one comes to when it is finished. -/
def Finishes (fieldsOf : String → Option Fields) (s s' : Shape) : Prop :=
  ∃ depth, (finishWithin depth s).answer fieldsOf = .ok s'

/-- A finished object has the fields of the one before: each is what a shape comes to that conforms and that the object held,
and what the object held is held by such a shape. -/
structure Matches (c : Sources) (R : String → Prop) (written generated : String → Option Shape)
    (fieldsOf : String → Option Fields) (names : List String → String) (t : TypeDef) (s s' : Shape) : Prop where
  composite : s'.IsComposite
  sound : ∀ k v, HasField generated s' k v → isFragmentKey k = false ∧ ∃ v₀, Finishes fieldsOf v₀ v ∧
    EntryConforms c R names t k v₀ ∧ ∀ path, v₀.Holds written path → s.Holds written (k :: path)
  complete : ∀ k path, s.Holds written (k :: path) → ∃ v₀ v, HasField generated s' k v ∧ Finishes fieldsOf v₀ v ∧
    EntryConforms c R names t k v₀ ∧ v₀.Holds written path

/-- The generated shape of a fragment matches the one that is written. -/
def Generates (c : Sources) (R : String → Prop) (written generated : String → Option Shape)
    (fieldsOf : String → Option Fields) (name : String) : Prop :=
  ∀ f names t, Assoc.get? c.fragments name = some f → c.schema.type? f.fragment.condition = some t →
    t.body.isObject = true → NamedBy c names t f.fragment.selections →
    ∃ s s', written name = some s ∧ generated name = some s' ∧ Matches c R written generated fieldsOf names t s s'

/-- What is known of a fragment that is made. -/
structure Exact (c : Sources) (R : String → Prop) (written generated : String → Option Shape)
    (fieldsOf : String → Option Fields) (name : String) : Prop where
  supplied : Supplied c R written name
  flattens : Flattens c R written fieldsOf name
  generates : Generates c R written generated fieldsOf name

variable {c : Sources} {R : String → Prop} {written generated : String → Option Shape} {fieldsOf : String → Option Fields}
  {names : List String → String} {t : TypeDef} {fields : Fields} {depth : Nat} {key k : String} {r : FragmentRef} {n : Note}
  {s s' : Shape}

/-! ## References -/

theorem mem_directFields {e : String × Shape} : e ∈ directFields fields ↔ e ∈ fields ∧ isFragmentKey e.1 = false := by
  rw [directFields, List.mem_filter, Bool.not_eq_true']

theorem mem_refsOf : (r, n) ∈ refsOf fields ↔ ∃ key, (key, .ref r n) ∈ fields ∧ isFragmentKey key = true := by
  rw [refsOf, List.mem_filterMap]
  constructor
  · rintro ⟨⟨key, s⟩, he, hs⟩
    cases s with
    | ref r' n' =>
      dsimp only at hs
      split at hs
      · rename_i hkey
        cases hs
        exact ⟨key, he, hkey⟩
      · cases hs
    | scalar | tag | object | array | union | inter => cases hs
  · rintro ⟨key, he, hkey⟩
    exact ⟨_, he, by simp [hkey]⟩

/-- The field map and the shapes of a fragment hold what a reference to it does. -/
structure RefHolds (c : Sources) (R : String → Prop) (written generated : String → Option Shape)
    (fieldsOf : String → Option Fields) (names : List String → String) (t : TypeDef) (key : String) (r : FragmentRef) (n : Note)
    (m : Fields) : Prop where
  omitted : r.omitted = []
  conforms : FieldsConform c R names t m
  own : ∀ e ∈ m, isFragmentKey e.1 = false
  fields : ∀ k path, FieldsHold written m (k :: path) ↔ EntryHolds written key (.ref r n) (k :: path)
  shapes : ∃ s s', generated r.fragment = some s' ∧ Matches c R written generated fieldsOf names t s s' ∧
    ∀ k path, s.Holds written (k :: path) ↔ EntryHolds written key (.ref r n) (k :: path)

theorem EntryConforms.refHolds (h : EntryConforms c R names t key (.ref r n)) (hkey : isFragmentKey key = true)
    (ht : Known c.toConfig t) (hobject : t.body.isObject = true)
    (hexact : Exact c R written generated fieldsOf r.fragment) {m : Fields} (hm : fieldsOf r.fragment = some m) :
    RefHolds c R written generated fieldsOf names t key r n m := by
  cases h with
  | field hk => exact absurd (hk.symm.trans hkey) Bool.false_ne_true
  | @spread _ _ _ f _ _ _ hf hcondition hnamed =>
    have htype : c.schema.type? f.fragment.condition = some t := (congrArg _ hcondition).trans ht
    obtain ⟨fs, hsome, hwrites⟩ := (hexact.supplied f hf).2 names t htype hobject hnamed
    obtain ⟨hconforms, hown, hholds⟩ := hexact.flattens f m names t hf hm htype hobject hnamed
    obtain ⟨_, s', hs, hs', hmatches⟩ := hexact.generates f names t hf htype hobject hnamed
    cases hs.symm.trans hsome
    exact ⟨rfl, hconforms, hown, fun k path => (hholds k path).trans (entryHolds_ref hkey hsome hwrites path).symm, fs, s', hs',
      hmatches, fun k path => (hwrites.holds _).trans (entryHolds_ref hkey hsome hwrites path).symm⟩

/-- Fields that conform hold what direct fields and references among them hold. -/
theorem fieldsHold_split (hfields : FieldsConform c R names t fields) {path : List String} :
    FieldsHold written fields (k :: path) ↔ FieldsHold written (directFields fields) (k :: path) ∨
      ∃ key r n, (key, .ref r n) ∈ fields ∧ isFragmentKey key = true ∧ EntryHolds written key (.ref r n) (k :: path) := by
  constructor
  · rintro ⟨⟨key, s⟩, he, hpath⟩
    cases hkey : isFragmentKey key with
    | false => exact Or.inl ⟨_, mem_directFields.2 ⟨he, hkey⟩, hpath⟩
    | true =>
      cases hfields.entries _ he with
      | tag hk | field hk => exact absurd (hk.symm.trans hkey) Bool.false_ne_true
      | spread => exact Or.inr ⟨key, _, _, he, hkey, hpath⟩
  · rintro (⟨e, he, hpath⟩ | ⟨key, r, n, he, -, hpath⟩)
    · exact ⟨e, (mem_directFields.1 he).1, hpath⟩
    · exact ⟨_, he, hpath⟩

/-! ## Objects -/

/-- A finished object without references matches the one before. -/
theorem matches_plain (hfields : FieldsConform c R names t fields) (hown : ∀ e ∈ fields, isFragmentKey e.1 = false)
    (h : (finishWithin depth (.object t.name fields n)).answer fieldsOf = .ok s') :
    Matches c R written generated fieldsOf names t (.object t.name fields n) s' := by
  obtain ⟨hall, ⟨fs, rfl⟩, hhas⟩ := hasField_object generated hown h
  refine ⟨trivial, fun k v hv => ?_, fun k path hpath => ?_⟩
  · obtain ⟨v₀, hmem, hfinish⟩ := (hhas k v).1 hv
    refine ⟨hown _ hmem, v₀, ⟨depth, hfinish⟩, hfields.entries _ hmem, fun path hpath => ?_⟩
    rw [Shape.holds_object, fieldsHold_iff_get? hfields.nodup hown]
    exact ⟨v₀, Assoc.get?_of_mem hfields.nodup hmem, hpath⟩
  · rw [Shape.holds_object, fieldsHold_iff_get? hfields.nodup hown] at hpath
    obtain ⟨v₀, hget, hpath⟩ := hpath
    have hmem := Assoc.mem_of_get? hget
    obtain ⟨v, hv⟩ := hall _ hmem
    exact ⟨v₀, v, (hhas k v).2 ⟨v₀, hmem, hv⟩, ⟨depth, hv⟩, hfields.entries _ hmem, hpath⟩

section Composed

variable {maps : Shape.FieldMaps}

/-- The field maps of the fragments that are referred to conform. -/
theorem refFields_conform
    (hrefs : ∀ key r n, (key, .ref r n) ∈ fields → isFragmentKey key = true →
      RefHolds c R written generated fieldsOf names t key r n (Shape.refFields maps r)) :
    ∀ r ∈ (refsOf fields).map Prod.fst, FieldsConform c R names t (Shape.refFields maps r) ∧
      ∀ e ∈ Shape.refFields maps r, isFragmentKey e.1 = false := by
  intro r hr
  obtain ⟨⟨r, n⟩, hmem, rfl⟩ := List.mem_map.1 hr
  obtain ⟨key, he, hkey⟩ := mem_refsOf.1 hmem
  exact ⟨(hrefs key r n he hkey).conforms, (hrefs key r n he hkey).own⟩

theorem directFields_conform (hfields : FieldsConform c R names t fields) : FieldsConform c R names t (directFields fields) :=
  ⟨Assoc.nodup_keys_filter hfields.nodup _, fun e he => hfields.entries e (mem_directFields.1 he).1⟩

/-- An object holds under a key what one of the contributions to the key holds. -/
theorem holds_object_iff (hfields : FieldsConform c R names t fields)
    (hrefs : ∀ key r n, (key, .ref r n) ∈ fields → isFragmentKey key = true →
      RefHolds c R written generated fieldsOf names t key r n (Shape.refFields maps r)) {path : List String} :
    (Shape.object t.name fields n).Holds written (k :: path) ↔
      ∃ v ∈ contributions (directFields fields) maps ((refsOf fields).map Prod.fst) k, v.Holds written path := by
  have hmaps := refFields_conform hrefs
  rw [Shape.holds_object, fieldsHold_split hfields, holds_contributions (directFields_conform hfields)
    (fun e he => (mem_directFields.1 he).2) (fun r hr => (hmaps r hr).1) fun r hr => (hmaps r hr).2]
  refine or_congr_right ⟨?_, ?_⟩
  · rintro ⟨key, r, n, he, hkey, hpath⟩
    exact ⟨r, List.mem_map_of_mem (mem_refsOf.2 ⟨key, he, hkey⟩), ((hrefs key r n he hkey).fields k path).2 hpath⟩
  · rintro ⟨r, hr, hpath⟩
    obtain ⟨⟨r, n⟩, hmem, rfl⟩ := List.mem_map.1 hr
    obtain ⟨key, he, hkey⟩ := mem_refsOf.1 hmem
    exact ⟨key, r, n, he, hkey, ((hrefs key r n he hkey).fields k path).1 hpath⟩

end Composed

/-- A finished object whose fields refer to fragments that are made matches the one before. -/
theorem matches_composed (hdistinct : c.DistinctNames) (hfields : FieldsConform c R names t fields) {maps : Shape.FieldMaps}
    (hrefs : ∀ key r n, (key, .ref r n) ∈ fields → isFragmentKey key = true →
      RefHolds c R written generated fieldsOf names t key r n (Shape.refFields maps r))
    {composed : Shape} (hcompose : Shape.compose t.name (directFields fields) (refsOf fields) maps = .ok composed)
    (h : (finishWithin depth composed).answer fieldsOf = .ok s') :
    Matches c R written generated fieldsOf names t (.object t.name fields n) (s'.withNote n) := by
  have hmaps := refFields_conform hrefs
  have hdirect := directFields_conform hfields
  have hown : ∀ e ∈ directFields fields, isFragmentKey e.1 = false := fun e he => (mem_directFields.1 he).2
  generalize hcs : conflicts (directFields fields) ((refsOf fields).map Prod.fst) maps = cs
  have hcsOwn : ∀ e ∈ cs, isFragmentKey e.1 = false := hcs ▸ isFragmentKey_conflicts hown fun r hr => (hmaps r hr).2
  have hconflict : ∀ e ∈ cs, EntryConforms c R names t e.1 e.2 ∧ ∀ path, e.2.Holds written path ↔
      (Shape.object t.name fields n).Holds written (e.1 :: path) := by
    intro e he
    rw [← hcs] at he
    obtain ⟨hconforms, hpath⟩ := conforms_conflict written hdistinct (conflict?_of_mem he) fun v hv =>
      conforms_contributions hdirect (fun r hr => (hmaps r hr).1) hv
    exact ⟨hconforms, fun path => (hpath path).trans (holds_object_iff hfields hrefs).symm⟩
  obtain ⟨hcsAll, hdirectAll, hparts⟩ := hasField_parts generated hcs hcsOwn hown hcompose h
  refine ⟨?_, fun k v hv => ?_, fun k path hpath => ?_⟩
  · exact (isComposite_composed (hcs ▸ hcsOwn) hown hcompose h).withNote n
  · rcases (hparts k v).1 ((Shape.hasField_withNote n).1 hv) with ⟨v₀, hmem, hfinish⟩ | ⟨v₀, hmem, -, hfinish⟩ | ⟨r, hr, u, hu, hv⟩
    · exact ⟨hcsOwn _ hmem, v₀, ⟨depth, hfinish⟩, (hconflict _ hmem).1, fun path => ((hconflict _ hmem).2 path).1⟩
    · refine ⟨hown _ hmem, v₀, ⟨depth, hfinish⟩, hdirect.entries _ hmem, fun path hpath => ?_⟩
      exact (holds_object_iff hfields hrefs).2 ⟨v₀, mem_contributions.2 (Or.inl (Assoc.get?_of_mem hdirect.nodup hmem)), hpath⟩
    · obtain ⟨key, he, hkey⟩ := mem_refsOf.1 hr
      rw [keepRef?_eq hu] at hv
      cases hv with
      | ref hs' _ hv =>
        obtain ⟨s, s'', hsome, hmatches, hholds⟩ := (hrefs key r.1 r.2 he hkey).shapes
        cases hs'.symm.trans hsome
        obtain ⟨hk, v₀, hfinish, hconforms, hpath⟩ := hmatches.sound k v hv
        refine ⟨hk, v₀, hfinish, hconforms, fun path hv₀ => ?_⟩
        rw [Shape.holds_object]
        exact ⟨_, he, (hholds k path).1 (hpath path hv₀)⟩
  · obtain ⟨v₀, hv₀, hv₀path⟩ := (holds_object_iff hfields hrefs).1 hpath
    by_cases hk : k ∈ Assoc.keys cs
    · obtain ⟨⟨k, v⟩, hmem, rfl⟩ := List.mem_map.1 hk
      obtain ⟨v', hv'⟩ := hcsAll _ hmem
      exact ⟨v, v', (Shape.hasField_withNote n).2 ((hparts k v').2 (Or.inl ⟨v, hmem, hv'⟩)), ⟨depth, hv'⟩, (hconflict _ hmem).1,
        ((hconflict _ hmem).2 path).2 hpath⟩
    · rcases mem_contributions.1 hv₀ with hv₀ | ⟨r, hr, hv₀⟩
      · have hmem := Assoc.mem_of_get? hv₀
        obtain ⟨v', hv'⟩ := hdirectAll _ hmem hk
        exact ⟨v₀, v', (Shape.hasField_withNote n).2 ((hparts k v').2 (Or.inr (Or.inl ⟨v₀, hmem, hk, hv'⟩))), ⟨depth, hv'⟩,
          hdirect.entries _ hmem, hv₀path⟩
      · obtain ⟨⟨r, m⟩, hr', rfl⟩ := List.mem_map.1 hr
        obtain ⟨key, he, hkey⟩ := mem_refsOf.1 hr'
        have hr := hrefs key r m he hkey
        obtain ⟨s, s'', hsome, hmatches, hholds⟩ := hr.shapes
        have hheld : s.Holds written (k :: path) :=
          (hholds k path).2 <| (hr.fields k path).1 <| (fieldsHold_iff_get? hr.conforms.nodup hr.own).2 ⟨v₀, hv₀, hv₀path⟩
        obtain ⟨w₀, w, hw, hfinish, hconforms, hw₀⟩ := hmatches.complete k path hheld
        have hkept := keepRef?_of_get? m (hcs ▸ nodup_conflicts) hv₀ hk
        refine ⟨w₀, w, (Shape.hasField_withNote n).2 ((hparts k w).2 (Or.inr (Or.inr ⟨(r, m), hr', _, hkept, ?_⟩))), hfinish, hconforms, hw₀⟩
        exact .ref hsome (fun hk' => hk (List.mem_filter.1 hk').1) hw

/-- A finished object whose fields refer to fragments that are made matches the one before. -/
theorem matches_object (hdistinct : c.DistinctNames) (ht : Known c.toConfig t) (hobject : t.body.isObject = true)
    (hfields : FieldsConform c R names t fields)
    (hexact : ∀ key r n, (key, .ref r n) ∈ fields → isFragmentKey key = true → Exact c R written generated fieldsOf r.fragment)
    (h : (finishWithin depth (.object t.name fields n)).answer fieldsOf = .ok s') :
    Matches c R written generated fieldsOf names t (.object t.name fields n) s' := by
  cases hany : fields.any (fun e => isFragmentKey e.1) with
  | false => exact matches_plain hfields (fun e he => Bool.eq_false_of_not_eq_true (List.any_eq_false.1 hany e he)) h
  | true =>
    rw [finishWithin_object, if_pos hany] at h
    cases depth with
    | zero => cases h
    | succ depth =>
      obtain ⟨composed, hcomposed, h⟩ := Query.answer_bind_ok h
      obtain ⟨u, hu, h⟩ := Query.answer_bind_ok h
      cases h
      obtain ⟨maps, hmaps, hcompose⟩ := compose_of_composeRefs hcomposed
      exact matches_composed hdistinct hfields (fun key r n he hkey => (hfields.entries _ he).refHolds hkey ht hobject
        (hexact key r n he hkey) (hmaps (r, n) (mem_refsOf.2 ⟨key, he, hkey⟩))) hcompose hu

/-! ## Fragments -/

/-- Shapes and fields that are kept of the fragments in `R` are those that are compiled. -/
structure Stocked (c : Sources) (R : String → Prop) (written generated : String → Option Shape)
    (fieldsOf : String → Option Fields) : Prop where
  wrote : Wrote c R written
  flat : ∀ name s m, R name → written name = some s → fieldsOf name = some m → (flatFields s).answer fieldsOf = .ok m
  finished : ∀ name s, R name → written name = some s → ∃ s', generated name = some s' ∧ Finishes fieldsOf s s'

/-- The shapes and the fields of fragments that are made are as they should be. -/
theorem Stocked.exact (h : Stocked c R written generated fieldsOf) (hc : c.Named) (hsimple : c.Simple) (name : String) (hR : R name) :
    Exact c R written generated fieldsOf name := by
  refine ⟨fragment_writes hc hsimple h.wrote name hR, fragment_flattens hc hsimple h.wrote h.flat name hR, ?_⟩
  induction name using hsimple.acyclic.induction with
  | hstep name ih =>
    intro f names t hf ht hobject hnamed
    have hknown : Known c.toConfig t := (congrArg _ (Schema.name_of_type? ht)).trans ht
    obtain ⟨s, hsome, hwrites⟩ := (fragment_writes hc hsimple h.wrote name hR f hf).2 names t ht hobject hnamed
    obtain ⟨s', hs', depth, hfinish⟩ := h.finished name s hR hsome
    refine ⟨s, s', hsome, hs', ?_⟩
    rw [hwrites.eq_object] at hfinish ⊢
    refine matches_object hsimple.distinct hknown hobject hwrites.conforms (fun key r n hmem _ => ?_) hfinish
    obtain ⟨hspreads, hmade⟩ := h.wrote.spreads hc hR hsome hmem
    exact ⟨fragment_writes hc hsimple h.wrote _ hmade, fragment_flattens hc hsimple h.wrote h.flat _ hmade, ih _ hspreads hmade⟩

/-! ## Values -/

variable {type : TypeRef} {nullable : Bool} {v₀ v : Shape} {path : List String}

/-- A finished shape that conforms to an object type matches the one before. -/
theorem matches_of_conforms (hdistinct : c.DistinctNames)
    (hexact : ∀ name, R name → Exact c R written generated fieldsOf name) (ht : Known c.toConfig t)
    (hobject : t.body.isObject = true) (hfields : FieldsConform c R names t fields)
    (h : Finishes fieldsOf (.object t.name fields n) v) :
    Matches c R written generated fieldsOf names t (.object t.name fields n) v := by
  obtain ⟨depth, h⟩ := h
  refine matches_object hdistinct ht hobject hfields (fun key r n hmem hkey => ?_) h
  cases hfields.entries _ hmem with
  | field hk => exact absurd (hk.symm.trans hkey) Bool.false_ne_true
  | spread _ hR => exact hexact _ hR

theorem finishes_scalar {code : String} (h : Finishes fieldsOf (.scalar code n) v) : v = .scalar code n := by
  obtain ⟨depth, h⟩ := h
  rw [finishWithin_scalar] at h
  cases h
  rfl

theorem finishes_tag {tag : TypeTag} (h : Finishes fieldsOf (.tag tag n) v) : v = .tag tag n := by
  obtain ⟨depth, h⟩ := h
  rw [finishWithin_tag] at h
  cases h
  rfl

theorem finishes_array {elementNullable : Bool} (h : Finishes fieldsOf (.array s elementNullable n) v) :
    ∃ element, Finishes fieldsOf s element ∧ v = .array element elementNullable n := by
  obtain ⟨depth, h⟩ := h
  rw [finishWithin_array] at h
  obtain ⟨element, helement, h⟩ := Query.answer_bind_ok h
  cases h
  exact ⟨element, ⟨depth, helement⟩, rfl⟩

theorem Finishes.note_eq {typeName : String} (h : Finishes fieldsOf (.object typeName fields n) v) : v.note = n := by
  obtain ⟨depth, h⟩ := h
  rw [finishWithin_object] at h
  split at h
  · cases depth with
    | zero => cases h
    | succ depth =>
      obtain ⟨composed, -, h⟩ := Query.answer_bind_ok h
      obtain ⟨u, -, h⟩ := Query.answer_bind_ok h
      cases h
      exact Shape.note_withNote n u
  · obtain ⟨fs, -, h⟩ := Query.answer_bind_ok h
    cases h
    rfl

/-- A shape suits values of a type: it has its lists, may be missing where the type says so, and is the leaf that the type
names or an object. -/
def Suits (c : Sources) : TypeRef → Bool → Shape → Prop
  | .nonNull type, _, s => Suits c type false s
  | .list type, nullable, s => ∃ element n, s = .array element element.nullable n ∧ n.nullable = nullable ∧ Suits c type true element
  | .named name, nullable, s => s.nullable = nullable ∧ ∃ t, c.schema.type? name = some t ∧
      ((∃ code n, leafCode? c.toConfig t = some code ∧ s = .scalar code n) ∨ (t.body.isObject = true ∧ s.IsComposite))

theorem Suits.nullable_eq {type : TypeRef} (h : Suits c type nullable s) : s.nullable = mayLack type nullable := by
  induction type generalizing nullable with
  | nonNull type ih => exact ih h
  | list type ih =>
    obtain ⟨element, n, rfl, hn, -⟩ := h
    exact hn
  | named name => exact h.1

/-- A shape suits a field of a type. -/
def SuitsField (c : Sources) (parent : TypeDef) (name : String) (s : Shape) : Prop :=
  if name = typenameKey then ∃ n, s = .tag (.single parent.name) n ∧ n.nullable = false
  else ∃ f, parent.field? name = some f ∧ Suits c f.type true s

section Values

variable (hdistinct : c.DistinctNames) (hexact : ∀ name, R name → Exact c R written generated fieldsOf name)
include hdistinct hexact

/-- A finished shape suits the type that the shape conforms to. -/
theorem suits_finished (h : Conforms c R names type nullable v₀) (hv : Finishes fieldsOf v₀ v) : Suits c type nullable v := by
  induction type generalizing nullable v₀ v with
  | nonNull type ih =>
    cases h with
    | nonNull h => exact ih h hv
  | list type ih =>
    cases h with
    | list hn h =>
      obtain ⟨element, helement, rfl⟩ := finishes_array hv
      have hsuits := ih h helement
      exact ⟨element, _, by rw [hsuits.nullable_eq, h.nullable_eq], hn, hsuits⟩
  | named name =>
    cases h with
    | leaf hn ht hcode =>
      cases finishes_scalar hv
      exact ⟨hn, _, ht, Or.inl ⟨_, _, hcode, rfl⟩⟩
    | object hn ht hobject hnodup hentries =>
      have hknown : Known c.toConfig _ := (congrArg _ (Schema.name_of_type? ht)).trans ht
      have hmatches := matches_of_conforms hdistinct hexact hknown hobject ⟨hnodup, hentries⟩ hv
      exact ⟨(congrArg Note.nullable hv.note_eq).trans hn, _, ht, Or.inr ⟨hobject, hmatches.composite⟩⟩

/-- A finished shape that conforms holds what the shape before held. -/
theorem holds_finished (h : Conforms c R names type nullable v₀) (hv : Finishes fieldsOf v₀ v) :
    v.Holds generated path ↔ v₀.Holds written path := by
  induction path generalizing names type nullable v₀ v with
  | nil => simp
  | cons k path ih =>
    have hentry : ∀ t u₀ u, isFragmentKey k = false → EntryConforms c R names t k u₀ → Finishes fieldsOf u₀ u →
        (u.Holds generated path ↔ u₀.Holds written path) := by
      intro t u₀ u hk hu₀ hu
      cases hu₀ with
      | tag =>
        cases finishes_tag hu
        cases path with
        | nil => simp
        | cons j path => simp [Shape.not_holds_tag]
      | field _ _ _ hu₀ => exact ih hu₀ hu
      | spread hkey =>
        rw [hkey, isFragmentKey_fragmentKey] at hk
        cases hk
    induction type generalizing nullable v₀ v with
    | nonNull type ihType =>
      cases h with
      | nonNull h => exact ihType h hv
    | list type ihType =>
      cases h with
      | list _ h =>
        obtain ⟨element, helement, rfl⟩ := finishes_array hv
        rw [Shape.holds_array, Shape.holds_array]
        exact ihType h helement
    | named name =>
      cases h with
      | leaf =>
        cases finishes_scalar hv
        simp [Shape.not_holds_scalar]
      | object _ ht hobject hnodup hentries =>
        have hknown : Known c.toConfig _ := (congrArg _ (Schema.name_of_type? ht)).trans ht
        have hmatches := matches_of_conforms hdistinct hexact hknown hobject ⟨hnodup, hentries⟩ hv
        rw [Shape.holds_cons, hmatches.composite.element_eq]
        constructor
        · rintro ⟨u, hu, hpath⟩
          obtain ⟨hk, u₀, hfinish, hconforms, hheld⟩ := hmatches.sound k u hu
          exact hheld path ((hentry _ u₀ u hk hconforms hfinish).1 hpath)
        · intro hpath
          obtain ⟨u₀, u, hu, hfinish, hconforms, hheld⟩ := hmatches.complete k path hpath
          exact ⟨u, hu, (hentry _ u₀ u (hmatches.sound k u hu).1 hconforms hfinish).2 hheld⟩

/-- What stands at a path of a finished shape suits the field that is selected there. -/
theorem suitsField_finished {sels : List Selection} {u : Shape} {parent : TypeDef} {last : GraphQL.FieldHead}
    (h : Conforms c R names type nullable v₀) (hv : Finishes fieldsOf v₀ v) (hu : v.At generated path u)
    (ht : c.schema.type? type.base = some t) (hnamed : NamedBy c names t sels) (hlast : FieldAt c t sels path parent last) :
    SuitsField c parent last.name u := by
  induction path generalizing names type nullable v₀ v t sels with
  | nil => cases hlast
  | cons k path ih =>
    induction type generalizing nullable v₀ v with
    | nonNull type ihType =>
      cases h with
      | nonNull h => exact ihType h hv hu ht
    | list type ihType =>
      cases h with
      | list _ h =>
        obtain ⟨element, helement, rfl⟩ := finishes_array hv
        exact ihType h helement hu ht
    | named name =>
      cases h with
      | leaf =>
        cases finishes_scalar hv
        obtain ⟨w, hw, -⟩ := hu
        cases hw
      | object _ ht' hobject hnodup hentries =>
        cases ht.symm.trans ht'
        have hknown : Known c.toConfig t := (congrArg _ (Schema.name_of_type? ht)).trans ht
        have hmatches := matches_of_conforms hdistinct hexact hknown hobject ⟨hnodup, hentries⟩ hv
        obtain ⟨w, hw, hpath⟩ := hu
        rw [hmatches.composite.element_eq] at hw
        obtain ⟨hk, w₀, hfinish, hconforms, -⟩ := hmatches.sound k w hw
        cases hlast with
        | here hcollects =>
          cases hpath
          rw [SuitsField, hnamed.name_eq hcollects]
          cases hconforms with
          | tag _ hname hn =>
            cases finishes_tag hfinish
            rw [if_pos hname]
            exact ⟨_, rfl, hn⟩
          | field _ hname hf hw₀ =>
            rw [if_neg hname]
            exact ⟨_, hf, suits_finished hdistinct hexact hw₀ hfinish⟩
          | spread hkey =>
            rw [hkey, isFragmentKey_fragmentKey] at hk
            cases hk
        | deeper hcollects hchild hlast =>
          have hdescend := hnamed.descend hcollects hchild
          rw [Sources.child?, hnamed.name_eq hcollects] at hchild
          cases hconforms with
          | tag _ hname => simp [hname] at hchild
          | field _ hname hf hw₀ =>
            rw [if_neg hname, hf] at hchild
            exact ih hw₀ hfinish hpath (Option.filter_eq_some_iff.1 hchild).1 hdescend hlast
          | spread hkey =>
            rw [hkey, isFragmentKey_fragmentKey] at hk
            cases hk

end Values

end ResponseTypes.Compile
