import ResponseTypes.Proofs.Exact.Expand
import ResponseTypes.Proofs.Shape.Branches
import ResponseTypes.Shape.Compose

/-!
# Regular shapes

Among the fields of an object a fragment key is to hold a reference to the fragment that it is the key of.  In a
`Shape.Regular` shape that is so at any depth.  Merging, simplifying and composing keep shapes regular; what is merged under
a fragment key stays a reference (`Shape.suits_merge`).
-/

namespace ResponseTypes.Shape

set_option autoImplicit false

/-- The shape is a reference to the fragment of a key. -/
def RefersAs (key : String) : Shape → Prop
  | ref r _ => key = fragmentKey r.artifact
  | _ => False

mutual

/-- Every fragment key in the shape holds a reference to its fragment. -/
def Regular : Shape → Prop
  | scalar _ _ | tag _ _ | ref _ _ => True
  | object _ fields _ => FieldsRegular fields
  | array element _ _ => Regular element
  | union branches _ => ListRegular branches
  | inter parts _ => ListRegular parts

/-- All of some shapes are regular. -/
def ListRegular : List Shape → Prop
  | [] => True
  | s :: rest => Regular s ∧ ListRegular rest

/-- Every fragment key in some fields holds a reference to its fragment. -/
def FieldsRegular : List (String × Shape) → Prop
  | [] => True
  | (key, s) :: rest => ((isFragmentKey key = true → RefersAs key s) ∧ Regular s) ∧ FieldsRegular rest

end

/-- A regular shape that may stand under a key: under a fragment key, a reference to the fragment. -/
def Suits (key : String) (s : Shape) : Prop :=
  (isFragmentKey key = true → RefersAs key s) ∧ Regular s

variable {key : String}

theorem listRegular_iff {shapes : List Shape} : ListRegular shapes ↔ ∀ s ∈ shapes, s.Regular := by
  induction shapes with
  | nil => simp [ListRegular]
  | cons s rest ih => simp [ListRegular, ih]

theorem fieldsRegular_iff {fields : Fields} : FieldsRegular fields ↔ ∀ e ∈ fields, Suits e.1 e.2 := by
  induction fields with
  | nil => simp [FieldsRegular]
  | cons e rest ih => simp [FieldsRegular, Suits, ih]

theorem exists_ref_of_refersAs {s : Shape} (h : s.RefersAs key) : ∃ r n, s = ref r n ∧ key = fragmentKey r.artifact := by
  cases s with
  | ref r n => exact ⟨r, n, rfl, h⟩
  | scalar | tag | object | array | union | inter => exact h.elim

/-- Under a key of the response every regular shape may stand. -/
theorem suits_of_own {s : Shape} (hkey : isFragmentKey key = false) (h : s.Regular) : Suits key s :=
  ⟨fun hkey' => by simp [hkey] at hkey', h⟩

theorem suits_ref (r : FragmentRef) (n : Note) : Suits (fragmentKey r.artifact) (ref r n) :=
  ⟨fun _ => rfl, trivial⟩

/-- A shape of another kind than references does not stand under a fragment key. -/
theorem Suits.own {s : Shape} (h : Suits key s) (hs : ¬s.RefersAs key) : isFragmentKey key = false :=
  Bool.eq_false_iff.2 fun hkey => hs (h.1 hkey)

@[simp] theorem regular_withNote (n : Note) (s : Shape) : (s.withNote n).Regular ↔ s.Regular := by
  cases s <;> simp [withNote, Regular]

@[simp] theorem regular_withNullable (nullable : Bool) (s : Shape) : (s.withNullable nullable).Regular ↔ s.Regular :=
  regular_withNote _ s

theorem suits_get? {fields : Fields} {s : Shape} (h : FieldsRegular fields) (hs : Assoc.get? fields key = some s) :
    Suits key s :=
  fieldsRegular_iff.1 h (key, s) (Assoc.mem_of_get? hs)

theorem fieldsRegular_insert {fields : Fields} {s : Shape} (h : FieldsRegular fields) (hs : Suits key s) :
    FieldsRegular (Assoc.insert fields key s) := by
  rw [fieldsRegular_iff] at h ⊢
  intro e he
  rcases Assoc.mem_insert he with rfl | he
  · exact hs
  · exact h e he

theorem fieldsRegular_filter {fields : Fields} (h : FieldsRegular fields) (p : String × Shape → Bool) :
    FieldsRegular (fields.filter p) :=
  fieldsRegular_iff.2 fun e he => fieldsRegular_iff.1 h e (List.mem_filter.1 he).1

theorem listRegular_append {shapes more : List Shape} (h : ListRegular shapes) (h' : ListRegular more) :
    ListRegular (shapes ++ more) :=
  listRegular_iff.2 fun s hs => (List.mem_append.1 hs).elim (listRegular_iff.1 h s) (listRegular_iff.1 h' s)

/-! ## Merging -/

theorem listRegular_appendParts {parts more : List Shape} (h : ListRegular parts) (h' : ListRegular more) :
    ListRegular (appendParts parts more) :=
  listRegular_iff.2 (forall_appendParts (listRegular_iff.1 h) (listRegular_iff.1 h'))

section Layer

variable {below : Shape → Shape → Shape} (hb : ∀ key a b, Suits key a → Suits key b → Suits key (below a b))

include hb

/-- What arrays hold stands under no key, so under any that is not a fragment's. -/
theorem regular_below {a b : Shape} (ha : a.Regular) (hb' : b.Regular) : (below a b).Regular :=
  (hb "" a b (suits_of_own rfl ha) (suits_of_own rfl hb')).2

theorem fieldsRegular_mergeFieldsWith {a b : Fields} (ha : FieldsRegular a) (hb' : FieldsRegular b) :
    FieldsRegular (mergeFieldsWith below a b) :=
  fieldsRegular_iff.2 (forall_mergeFieldsWith (fieldsRegular_iff.1 ha) (fieldsRegular_iff.1 hb') hb)

theorem regular_mergeObjects {a b : Shape} (ha : a.Regular) (hb' : b.Regular) : (mergeObjects below a b).Regular := by
  unfold mergeObjects
  split
  · exact fieldsRegular_mergeFieldsWith hb ha hb'
  · exact ha

theorem listRegular_unifyWith {shapes : List Shape} (h : ListRegular shapes) : ListRegular (unifyWith below shapes) :=
  listRegular_iff.2 (forall_unifyWith (fun _ _ => listRegular_iff.1) (fun _ _ => regular_mergeObjects hb)
    (listRegular_iff.1 h))

theorem regular_mergeMismatched {a b : Shape} (ha : a.Regular) (hb' : b.Regular) :
    (mergeMismatched below a b).Regular := by
  unfold mergeMismatched
  dsimp only
  split
  · exact fieldsRegular_mergeFieldsWith hb ha ⟨suits_ref _ _, trivial⟩
  · exact fieldsRegular_mergeFieldsWith hb ⟨suits_ref _ _, trivial⟩ hb'
  · exact listRegular_appendParts ha ⟨hb', trivial⟩
  · exact listRegular_appendParts ⟨ha, trivial⟩ hb'
  · exact ⟨ha, hb', trivial⟩
  · exact ⟨ha, hb', trivial⟩
  · exact listRegular_unifyWith hb ⟨ha, hb', trivial⟩

theorem regular_mergeWith {a b : Shape} (ha : a.Regular) (hb' : b.Regular) : (mergeWith below a b).Regular := by
  unfold mergeWith
  dsimp only
  split
  · split
    · exact (regular_withNote _ _).2 ha
    · exact listRegular_unifyWith hb ⟨(regular_withNullable _ _).2 ha, (regular_withNullable _ _).2 hb', trivial⟩
  · split
    · trivial
    · exact ⟨ha, hb', trivial⟩
  · exact regular_mergeObjects hb ha hb'
  · exact regular_below hb ha hb'
  · exact listRegular_unifyWith hb (listRegular_append ha hb')
  · exact listRegular_appendParts ha hb'
  · split
    · exact (regular_withNote _ _).2 ha
    · exact ⟨ha, hb', trivial⟩
  · exact regular_mergeMismatched hb ha hb'

/-- Two references to the fragment of one key merge into one. -/
theorem suits_mergeWith {a b : Shape} (ha : Suits key a) (hb' : Suits key b) : Suits key (mergeWith below a b) := by
  refine ⟨fun hkey => ?_, regular_mergeWith hb ha.2 hb'.2⟩
  obtain ⟨r, n, rfl, hr⟩ := exists_ref_of_refersAs (ha.1 hkey)
  obtain ⟨r', n', rfl, hr'⟩ := exists_ref_of_refersAs (hb'.1 hkey)
  have hartifact : r.artifact = r'.artifact := fragmentKey_inj (hr.symm.trans hr')
  rw [mergeWith, if_pos hartifact]
  exact hr

end Layer

theorem suits_mergeAt (n : Nat) : ∀ key a b, Suits key a → Suits key b → Suits key (mergeAt n a b) := by
  induction n with
  | zero => exact fun _ _ _ ha hb => suits_mergeWith (fun _ _ _ ha _ => ha) ha hb
  | succ n ih => exact fun _ _ _ ha hb => suits_mergeWith ih ha hb

theorem suits_merge {a b : Shape} (ha : Suits key a) (hb : Suits key b) : Suits key (merge a b) :=
  suits_mergeAt _ key a b ha hb

theorem suits_mergeInto {a : Option Shape} {b : Shape} (ha : ∀ s ∈ a, Suits key s) (hb : Suits key b) :
    Suits key (mergeInto a b) := by
  cases a with
  | none => exact hb
  | some a => exact suits_merge (ha a rfl) hb

theorem fieldsRegular_mergeFields {a b : Fields} (ha : FieldsRegular a) (hb : FieldsRegular b) :
    FieldsRegular (mergeFields a b) :=
  fieldsRegular_mergeFieldsWith (fun _ _ _ => suits_merge) ha hb

/-! ## Simplifying -/

theorem fieldsRegular_uniteFieldTags {others fields united : Fields} (h : FieldsRegular fields)
    (hu : uniteFieldTags others fields = some united) : FieldsRegular united :=
  fieldsRegular_iff.2 (forall_uniteFieldTags (fun _ _ _ _ _ _ ht _ _ => suits_of_own (ht.own id) trivial)
    (fieldsRegular_iff.1 h) hu)

theorem regular_combine {a b s : Shape} (ha : a.Regular) (hs : combine a b = some s) : s.Regular := by
  obtain ⟨_, fields, _, _, others, _, united, rfl, rfl, hunited, rfl⟩ := exists_of_combine hs
  exact fieldsRegular_uniteFieldTags ha hunited

theorem regular_unionOf {branches : List Shape} (n : Note) (h : ListRegular branches) : (unionOf branches n).Regular :=
  of_unionOf (fun _ _ _ ha _ => regular_combine ha) (fun s n => (regular_withNote n s).2) (fun _ _ => listRegular_iff.2) n
    (listRegular_iff.1 h)

mutual

theorem regular_simplify (s : Shape) (h : s.Regular) : (simplify s).Regular := by
  match s, h with
  | scalar _ _, h | tag _ _, h | ref _ _, h => exact h
  | object _ fields _, h => exact fieldsRegular_simplifyFields fields h
  | array element _ _, h => exact regular_simplify element h
  | inter parts _, h => exact listRegular_simplifyList parts h
  | union branches n, h => exact regular_unionOf n (listRegular_simplifyList branches h)

theorem listRegular_simplifyList (shapes : List Shape) (h : ListRegular shapes) : ListRegular (simplifyList shapes) := by
  match shapes, h with
  | [], _ => trivial
  | s :: rest, h => exact ⟨regular_simplify s h.1, listRegular_simplifyList rest h.2⟩

theorem fieldsRegular_simplifyFields (fields : List (String × Shape)) (h : FieldsRegular fields) :
    FieldsRegular (simplifyFields fields) := by
  match fields, h with
  | [], _ => trivial
  | (k, s) :: rest, h =>
    refine ⟨⟨fun hk => ?_, regular_simplify s h.1.2⟩, fieldsRegular_simplifyFields rest h.2⟩
    obtain ⟨r, n, rfl, hr⟩ := exists_ref_of_refersAs (h.1.1 hk)
    exact hr

end

/-! ## Composing -/

theorem suits_mergeAll {first : Shape} {rest : List Shape} (h : Suits key first) (hr : ∀ s ∈ rest, Suits key s) :
    Suits key (mergeAll first rest).1 := by
  unfold mergeAll
  generalize hacc : (first, false) = acc
  replace h : Suits key acc.1 := hacc ▸ h
  clear hacc
  induction rest generalizing acc with
  | nil => exact h
  | cons s rest ih =>
    obtain ⟨hs, hr⟩ := List.forall_mem_cons.1 hr
    exact ih hr _ (suits_merge h hs)

theorem suits_conflict? {shapes : List Shape} {s : Shape} (h : ∀ s ∈ shapes, Suits key s)
    (hs : conflict? shapes = some s) : Suits key s := by
  unfold conflict? at hs
  split at hs
  · split at hs
    · cases hs
    · dsimp only at hs
      split at hs
      · cases hs
        obtain ⟨hfirst, hrest⟩ := List.forall_mem_cons.1 h
        exact suits_mergeAll hfirst hrest
      · cases hs
  · cases hs

theorem fieldsRegular_refFields {maps : FieldMaps} (hmaps : ∀ e ∈ maps, FieldsRegular e.2) (r : FragmentRef) :
    FieldsRegular (refFields maps r) := by
  unfold refFields
  cases hr : Assoc.get? maps r.fragment with
  | none => trivial
  | some fields => exact hmaps _ (Assoc.mem_of_get? hr)

theorem fieldsRegular_conflicts {direct : Fields} {refs : List FragmentRef} {maps : FieldMaps}
    (hdirect : FieldsRegular direct) (hmaps : ∀ e ∈ maps, FieldsRegular e.2) :
    FieldsRegular (conflicts direct refs maps) := by
  rw [fieldsRegular_iff]
  intro e he
  obtain ⟨k, -, hk⟩ := List.mem_filterMap.1 he
  obtain ⟨s, hs, rfl⟩ := Option.map_eq_some_iff.1 hk
  refine suits_conflict? (fun t ht => ?_) hs
  rcases List.mem_append.1 ht with ht | ht
  · exact suits_get? hdirect (Option.mem_toList.1 ht)
  · obtain ⟨r, -, hr⟩ := List.mem_filterMap.1 ht
    exact suits_get? (fieldsRegular_refFields hmaps r) hr

theorem regular_objectOf? {typeName : String} {fields : Fields} (h : FieldsRegular fields) :
    ∀ s ∈ (objectOf? typeName fields).toList, s.Regular := by
  intro s hs
  unfold objectOf? at hs
  split at hs
  · cases hs
  · cases List.mem_singleton.1 hs
    exact h

theorem regular_keepRef? {maps : FieldMaps} {conflicts : Fields} {r : FragmentRef} {n : Note} {s : Shape}
    (hs : keepRef? maps conflicts r n = some s) : s.Regular := by
  unfold keepRef? at hs
  dsimp only at hs
  split at hs
  · cases hs
  · cases hs
    trivial

/-- What is composed of regular fields is regular. -/
theorem regular_compose {typeName : String} {direct : Fields} {refs : List (FragmentRef × Note)} {maps : FieldMaps}
    {s : Shape} (hdirect : FieldsRegular direct) (hmaps : ∀ e ∈ maps, FieldsRegular e.2)
    (hs : compose typeName direct refs maps = .ok s) : s.Regular := by
  unfold compose at hs
  split at hs
  · cases hs
  · have hparts : ListRegular ((objectOf? typeName (conflicts direct (refs.map Prod.fst) maps)).toList ++
        (objectOf? typeName (direct.filter
          (fun e => !Assoc.has (conflicts direct (refs.map Prod.fst) maps) e.1))).toList ++
        refs.filterMap (fun r => keepRef? maps (conflicts direct (refs.map Prod.fst) maps) r.1 r.2)) := by
      refine listRegular_append (listRegular_append ?_ ?_) ?_
      · exact listRegular_iff.2 (regular_objectOf? (fieldsRegular_conflicts hdirect hmaps))
      · exact listRegular_iff.2 (regular_objectOf? (fieldsRegular_filter hdirect _))
      · refine listRegular_iff.2 fun t ht => ?_
        obtain ⟨r, -, hr⟩ := List.mem_filterMap.1 ht
        exact regular_keepRef? hr
    cases hs
    split
    · trivial
    · rename_i t ht
      exact (ht ▸ hparts).1
    · exact hparts

end ResponseTypes.Shape
