import ResponseTypes.Proofs.Exact.Conform
import ResponseTypes.Proofs.Plan.Queries
import ResponseTypes.Shape.Compose

/-!
# Composed objects

What is in conflict under a key holds what one of the contributions to the key holds (`conforms_conflict`), a fragment that
is left out has nothing that is not in conflict (`keepRef?_of_get?`), and the fields of a finished composition are those of
its finished parts (`hasField_composed`).
-/

namespace ResponseTypes.Compile

set_option autoImplicit false

open GraphQL (TypeDef)
open Shape (FieldsHold FieldMaps HasField contributions conflict? conflicts keepRef? mergeAll objectOf?)

variable {c : Sources} {R : String → Prop} {generated : String → Option Shape} {names : List String → String} {t : TypeDef}
  {fieldsOf : String → Option Fields} {direct fields : Fields} {refs : List FragmentRef} {maps : FieldMaps} {k : String} {s : Shape}

/-! ## Contributions -/

theorem fieldsHold_iff_get? (hnodup : (Assoc.keys fields).Nodup) (hown : ∀ e ∈ fields, isFragmentKey e.1 = false)
    {path : List String} :
    FieldsHold generated fields (k :: path) ↔ ∃ s, Assoc.get? fields k = some s ∧ s.Holds generated path := by
  constructor
  · rintro ⟨e, he, hpath⟩
    rw [Shape.EntryHolds, if_neg (by simp [hown e he])] at hpath
    exact ⟨e.2, hpath.1 ▸ Assoc.get?_of_mem hnodup he, hpath.2⟩
  · rintro ⟨s, hs, hpath⟩
    have hmem := Assoc.mem_of_get? hs
    exact ⟨(k, s), hmem, by rw [Shape.EntryHolds, if_neg (by simp [hown _ hmem])]; exact ⟨rfl, hpath⟩⟩

theorem mem_contributions {v : Shape} :
    v ∈ contributions direct maps refs k ↔
      Assoc.get? direct k = some v ∨ ∃ r ∈ refs, Assoc.get? (Shape.refFields maps r) k = some v := by
  simp [contributions]

/-- What is selected under a key holds what direct fields and fragments hold there. -/
theorem holds_contributions (hdirect : FieldsConform c R names t direct) (hown : ∀ e ∈ direct, isFragmentKey e.1 = false)
    (hmaps : ∀ r ∈ refs, FieldsConform c R names t (Shape.refFields maps r))
    (hmapsOwn : ∀ r ∈ refs, ∀ e ∈ Shape.refFields maps r, isFragmentKey e.1 = false) {path : List String} :
    (∃ v ∈ contributions direct maps refs k, v.Holds generated path) ↔
      FieldsHold generated direct (k :: path) ∨ ∃ r ∈ refs, FieldsHold generated (Shape.refFields maps r) (k :: path) := by
  have hmap : ∀ r ∈ refs, (FieldsHold generated (Shape.refFields maps r) (k :: path) ↔ _) := fun r hr =>
    fieldsHold_iff_get? (hmaps r hr).nodup (hmapsOwn r hr)
  rw [fieldsHold_iff_get? hdirect.nodup hown]
  constructor
  · rintro ⟨v, hv, hpath⟩
    rcases mem_contributions.1 hv with hv | ⟨r, hr, hv⟩
    · exact Or.inl ⟨v, hv, hpath⟩
    · exact Or.inr ⟨r, hr, (hmap r hr).2 ⟨v, hv, hpath⟩⟩
  · rintro (⟨v, hv, hpath⟩ | ⟨r, hr, h⟩)
    · exact ⟨v, mem_contributions.2 (Or.inl hv), hpath⟩
    · obtain ⟨v, hv, hpath⟩ := (hmap r hr).1 h
      exact ⟨v, mem_contributions.2 (Or.inr ⟨r, hr, hv⟩), hpath⟩

theorem conforms_contributions (hdirect : FieldsConform c R names t direct)
    (hmaps : ∀ r ∈ refs, FieldsConform c R names t (Shape.refFields maps r)) {v : Shape}
    (hv : v ∈ contributions direct maps refs k) : EntryConforms c R names t k v := by
  rcases mem_contributions.1 hv with hv | ⟨r, hr, hv⟩
  · exact hdirect.entries _ (Assoc.mem_of_get? hv)
  · exact (hmaps r hr).entries _ (Assoc.mem_of_get? hv)

/-! ## Conflicts -/

theorem conforms_mergeAll (hdistinct : c.DistinctNames) {first : Shape} {rest : List Shape}
    (h : EntryConforms c R names t k first) (hrest : ∀ v ∈ rest, EntryConforms c R names t k v) :
    EntryConforms c R names t k (mergeAll first rest).1 ∧
      ∀ path, (mergeAll first rest).1.Holds generated path ↔ ∃ v ∈ first :: rest, v.Holds generated path := by
  unfold mergeAll
  generalize false = conflict
  induction rest generalizing first conflict with
  | nil => exact ⟨h, fun path => by simp⟩
  | cons next rest ih =>
    obtain ⟨hconforms, hjoins⟩ := conforms_merge generated hdistinct h (hrest next List.mem_cons_self)
    obtain ⟨hall, hholds⟩ := ih hconforms (fun v hv => hrest v (List.mem_cons_of_mem _ hv)) _
    refine ⟨hall, fun path => (hholds path).trans ?_⟩
    simp only [List.mem_cons, or_and_right, exists_or, exists_eq_left, hjoins path, or_assoc]

/-- What is merged under a key in conflict conforms, and holds what one of the contributions holds. -/
theorem conforms_conflict (generated : String → Option Shape) (hdistinct : c.DistinctNames) {shapes : List Shape} (hs : conflict? shapes = some s)
    (h : ∀ v ∈ shapes, EntryConforms c R names t k v) :
    EntryConforms c R names t k s ∧ ∀ path, s.Holds generated path ↔ ∃ v ∈ shapes, v.Holds generated path := by
  unfold conflict? at hs
  split at hs
  · rename_i first second rest
    split at hs
    · cases hs
    · dsimp only at hs
      split at hs
      · cases hs
        exact conforms_mergeAll hdistinct (h first List.mem_cons_self) fun v hv => h v (List.mem_cons_of_mem _ hv)
      · cases hs
  · cases hs

theorem conflict?_of_mem {e : String × Shape} (he : e ∈ conflicts direct refs maps) :
    conflict? (contributions direct maps refs e.1) = some e.2 := by
  obtain ⟨k, -, hk⟩ := List.mem_filterMap.1 he
  obtain ⟨s, hs, rfl⟩ := Option.map_eq_some_iff.1 hk
  exact hs

theorem isFragmentKey_conflicts (hdirect : ∀ e ∈ direct, isFragmentKey e.1 = false)
    (hmaps : ∀ r ∈ refs, ∀ e ∈ Shape.refFields maps r, isFragmentKey e.1 = false) :
    ∀ e ∈ conflicts direct refs maps, isFragmentKey e.1 = false := by
  intro e he
  have hs := conflict?_of_mem he
  cases hshapes : contributions direct maps refs e.1 with
  | nil => simp [hshapes, conflict?] at hs
  | cons v rest =>
    rcases mem_contributions.1 (hshapes ▸ List.mem_cons_self : v ∈ contributions direct maps refs e.1) with hv | ⟨r, hr, hv⟩
    · exact hdirect (e.1, v) (Assoc.mem_of_get? hv)
    · exact hmaps r hr (e.1, v) (Assoc.mem_of_get? hv)

theorem nodup_conflicts : (Assoc.keys (conflicts direct refs maps)).Nodup := by
  have hkeys : ∀ l : List String, (Assoc.keys (l.filterMap fun k =>
      (conflict? (contributions direct maps refs k)).map (k, ·))).Sublist l := by
    intro l
    induction l with
    | nil => exact List.Sublist.slnil
    | cons k l ih =>
      rw [List.filterMap_cons]
      cases conflict? (contributions direct maps refs k) with
      | none => exact ih.cons k
      | some s => exact ih.cons_cons k
  exact (Text.nodup_distinct _).sublist (hkeys _)

/-- A fragment that has something that is not in conflict is not left out. -/
theorem keepRef?_of_get? {cs : Fields} {r : FragmentRef} (n : Note) (hcs : (Assoc.keys cs).Nodup)
    {v : Shape} (hv : Assoc.get? (Shape.refFields maps r) k = some v) (hk : k ∉ Assoc.keys cs) :
    keepRef? maps cs r n =
      some (.ref { r with omitted := (Assoc.keys cs).filter (Assoc.has (Shape.refFields maps r)) } n) := by
  unfold keepRef?
  refine if_neg fun hall => ?_
  rw [Bool.and_eq_true, beq_iff_eq] at hall
  have hsub : (Assoc.keys cs).filter (Assoc.has (Shape.refFields maps r)) ⊆ Assoc.keys (Shape.refFields maps r) := by
    intro k' hk'
    obtain ⟨v', hv'⟩ := Option.isSome_iff_exists.1 (List.mem_filter.1 hk').2
    exact Assoc.mem_keys_of_get? hv'
  have hperm := (List.subperm_of_subset (hcs.filter _) hsub).perm_of_length_le (by rw [Assoc.keys, List.length_map]; exact hall.2.ge)
  exact hk (List.mem_filter.1 (hperm.mem_iff.2 (Assoc.mem_keys_of_get? hv))).1

/-- What is kept of a fragment leaves out what is in conflict. -/
theorem keepRef?_eq {cs : Fields} {r : FragmentRef} {n : Note} (h : keepRef? maps cs r n = some s) :
    s = .ref { r with omitted := (Assoc.keys cs).filter (Assoc.has (Shape.refFields maps r)) } n := by
  unfold keepRef? at h
  dsimp only at h
  split at h
  · cases h
  · exact (Option.some.inj h).symm

/-! ## Finishing -/

variable {depth : Nat} {composed : Shape}

theorem answer_finishFields {fs : Fields} (h : (finishFields depth fields).answer fieldsOf = .ok fs) :
    (∀ e ∈ fields, ∃ v, (finishWithin depth e.2).answer fieldsOf = .ok v) ∧
      ∀ k v, (k, v) ∈ fs ↔ ∃ v₀, (k, v₀) ∈ fields ∧ (finishWithin depth v₀).answer fieldsOf = .ok v := by
  induction fields generalizing fs with
  | nil =>
    rw [finishFields_nil] at h
    cases h
    simp
  | cons e rest ih =>
    obtain ⟨key, s⟩ := e
    rw [finishFields_cons] at h
    obtain ⟨s', hs', h⟩ := Query.answer_bind_ok h
    obtain ⟨fs', hfs', h⟩ := Query.answer_bind_ok h
    cases h
    obtain ⟨hall, hmem⟩ := ih hfs'
    refine ⟨List.forall_mem_cons.2 ⟨⟨s', hs'⟩, hall⟩, fun k v => ?_⟩
    simp only [List.mem_cons, hmem, or_and_right, exists_or, Prod.mk.injEq, and_assoc, exists_and_left, exists_eq_left, hs',
      Except.ok.injEq, eq_comm (a := v)]

theorem answer_finishList {shapes l : List Shape} (h : (finishList depth shapes).answer fieldsOf = .ok l) :
    (∀ s ∈ shapes, ∃ v, (finishWithin depth s).answer fieldsOf = .ok v) ∧
      ∀ v, v ∈ l ↔ ∃ s ∈ shapes, (finishWithin depth s).answer fieldsOf = .ok v := by
  induction shapes generalizing l with
  | nil =>
    rw [finishList_nil] at h
    cases h
    simp
  | cons s rest ih =>
    rw [finishList_cons] at h
    obtain ⟨s', hs', h⟩ := Query.answer_bind_ok h
    obtain ⟨l', hl', h⟩ := Query.answer_bind_ok h
    cases h
    obtain ⟨hall, hmem⟩ := ih hl'
    refine ⟨List.forall_mem_cons.2 ⟨⟨s', hs'⟩, hall⟩, fun v => ?_⟩
    simp only [List.mem_cons, hmem, or_and_right, exists_or, exists_eq_left, hs', Except.ok.injEq, eq_comm (a := v)]

/-- An object without references is finished by finishing its fields. -/
theorem answer_finish_object (hown : ∀ e ∈ fields, isFragmentKey e.1 = false) {typeName : String} {n : Note}
    (h : (finishWithin depth (.object typeName fields n)).answer fieldsOf = .ok s) :
    ∃ fs, (finishFields depth fields).answer fieldsOf = .ok fs ∧ s = .object typeName fs n := by
  have hany : fields.any (fun e => isFragmentKey e.1) = false := List.any_eq_false.2 fun e he => by simp [hown e he]
  rw [finishWithin_object, if_neg (by simp [hany])] at h
  obtain ⟨fs, hfs, h⟩ := Query.answer_bind_ok h
  cases h
  exact ⟨fs, hfs, rfl⟩

/-- The fields of a finished object without references are its finished fields. -/
theorem hasField_object (generated : String → Option Shape) (hown : ∀ e ∈ fields, isFragmentKey e.1 = false) {typeName : String} {n : Note}
    (h : (finishWithin depth (.object typeName fields n)).answer fieldsOf = .ok s) :
    (∀ e ∈ fields, ∃ v, (finishWithin depth e.2).answer fieldsOf = .ok v) ∧ (∃ fs, s = .object typeName fs n) ∧
      ∀ k v, HasField generated s k v ↔ ∃ v₀, (k, v₀) ∈ fields ∧ (finishWithin depth v₀).answer fieldsOf = .ok v := by
  obtain ⟨fs, hfs, rfl⟩ := answer_finish_object hown h
  obtain ⟨hall, hmem⟩ := answer_finishFields hfs
  have hkey : ∀ k v, (k, v) ∈ fs → isFragmentKey k = false := by
    intro k v hv
    obtain ⟨v₀, hv₀, -⟩ := (hmem k v).1 hv
    exact hown _ hv₀
  refine ⟨hall, ⟨fs, rfl⟩, fun k v => ?_⟩
  rw [← hmem]
  constructor
  · intro hv
    cases hv with
    | own hv => exact hv
    | brought hv hkey' => exact absurd ((hkey _ _ hv).symm.trans hkey') Bool.false_ne_true
  · exact fun hv => .own hv (hkey k v hv)

/-! ## Composing -/

/-- The parts of a composed object. -/
def composedParts (typeName : String) (direct : Fields) (refs : List (FragmentRef × Note)) (maps : FieldMaps) : List Shape :=
  let cs := conflicts direct (refs.map Prod.fst) maps
  (objectOf? typeName cs).toList ++ (objectOf? typeName (direct.filter (fun e => !Assoc.has cs e.1))).toList ++
    refs.filterMap (fun r => keepRef? maps cs r.1 r.2)

theorem compose_eq {typeName : String} {refs : List (FragmentRef × Note)}
    (h : Shape.compose typeName direct refs maps = .ok s) :
    (composedParts typeName direct refs maps = [] ∧ s = .object typeName [] {}) ∨
      composedParts typeName direct refs maps = [s] ∨ s = .inter (composedParts typeName direct refs maps) {} := by
  unfold Shape.compose at h
  split at h
  · cases h
  · have h := Except.ok.inj h
    split at h
    · rename_i hparts
      exact Or.inl ⟨hparts, h.symm⟩
    · rename_i hparts
      exact Or.inr (Or.inl (h ▸ hparts))
    · exact Or.inr (Or.inr h.symm)

/-- The fields of a finished composition are those of its finished parts. -/
theorem hasField_composed (generated : String → Option Shape) {typeName : String} {refs : List (FragmentRef × Note)}
    (hcomposed : Shape.compose typeName direct refs maps = .ok composed)
    (h : (finishWithin depth composed).answer fieldsOf = .ok s) :
    (∀ p ∈ composedParts typeName direct refs maps, ∃ v, (finishWithin depth p).answer fieldsOf = .ok v) ∧
      ∀ k v, HasField generated s k v ↔ ∃ p ∈ composedParts typeName direct refs maps, ∃ u,
        (finishWithin depth p).answer fieldsOf = .ok u ∧ HasField generated u k v := by
  rcases compose_eq hcomposed with ⟨hparts, rfl⟩ | hparts | rfl
  · obtain ⟨-, -, hfields⟩ := hasField_object generated (by simp) h
    simp [hparts, hfields]
  · simp [hparts, h]
  · rw [finishWithin_inter] at h
    obtain ⟨l, hl, h⟩ := Query.answer_bind_ok h
    cases h
    obtain ⟨hall, hmem⟩ := answer_finishList hl
    refine ⟨hall, fun k v => ⟨fun hv => ?_, ?_⟩⟩
    · cases hv with
      | part hu hv =>
        obtain ⟨p, hp, hu⟩ := (hmem _).1 hu
        exact ⟨p, hp, _, hu, hv⟩
    · rintro ⟨p, hp, u, hu, hv⟩
      exact .part ((hmem u).2 ⟨p, hp, hu⟩) hv

theorem hasField_objectOf? (generated : String → Option Shape) (hown : ∀ e ∈ fields, isFragmentKey e.1 = false) {typeName : String}
    (h : ∀ p ∈ (objectOf? typeName fields).toList, ∃ v, (finishWithin depth p).answer fieldsOf = .ok v) :
    (∀ e ∈ fields, ∃ v, (finishWithin depth e.2).answer fieldsOf = .ok v) ∧
      ∀ k v, (∃ p ∈ (objectOf? typeName fields).toList, ∃ u, (finishWithin depth p).answer fieldsOf = .ok u ∧ HasField generated u k v) ↔
        ∃ v₀, (k, v₀) ∈ fields ∧ (finishWithin depth v₀).answer fieldsOf = .ok v := by
  unfold objectOf? at *
  by_cases hempty : fields.isEmpty = true
  · simp [List.isEmpty_iff.1 hempty]
  · rw [if_neg hempty] at h ⊢
    obtain ⟨u, hu⟩ := h _ (List.mem_singleton_self _)
    obtain ⟨hall, -, hfields⟩ := hasField_object generated hown hu
    exact ⟨hall, fun k v => by simp [hu, hfields]⟩

/-- A field of a finished composition is in conflict, is a direct one that is not, or comes from a fragment that is kept. -/
theorem hasField_parts (generated : String → Option Shape) {typeName : String} {refs : List (FragmentRef × Note)} {cs : Fields}
    (hcs : conflicts direct (refs.map Prod.fst) maps = cs) (hcsOwn : ∀ e ∈ cs, isFragmentKey e.1 = false)
    (hown : ∀ e ∈ direct, isFragmentKey e.1 = false) (hcomposed : Shape.compose typeName direct refs maps = .ok composed)
    (h : (finishWithin depth composed).answer fieldsOf = .ok s) :
    (∀ e ∈ cs, ∃ v, (finishWithin depth e.2).answer fieldsOf = .ok v) ∧
      (∀ e ∈ direct, e.1 ∉ Assoc.keys cs → ∃ v, (finishWithin depth e.2).answer fieldsOf = .ok v) ∧
      ∀ k v, HasField generated s k v ↔ (∃ v₀, (k, v₀) ∈ cs ∧ (finishWithin depth v₀).answer fieldsOf = .ok v) ∨
        (∃ v₀, (k, v₀) ∈ direct ∧ k ∉ Assoc.keys cs ∧ (finishWithin depth v₀).answer fieldsOf = .ok v) ∨
        ∃ r ∈ refs, ∃ u, keepRef? maps cs r.1 r.2 = some u ∧ HasField generated u k v := by
  obtain ⟨hall, hfields⟩ := hasField_composed generated hcomposed h
  have hparts : composedParts typeName direct refs maps = (objectOf? typeName cs).toList ++
      (objectOf? typeName (direct.filter fun e => !Assoc.has cs e.1)).toList ++
        refs.filterMap fun r => keepRef? maps cs r.1 r.2 := by
    rw [← hcs]
    rfl
  have hrest : ∀ e, e ∈ direct.filter (fun e => !Assoc.has cs e.1) ↔ e ∈ direct ∧ e.1 ∉ Assoc.keys cs := by
    intro e
    rw [List.mem_filter, ← Assoc.get?_eq_none, Assoc.has, Bool.not_eq_true', Option.isSome_eq_false_iff, Option.isNone_iff_eq_none]
  rw [hparts] at hall hfields
  obtain ⟨hcsAll, hcsFields⟩ := hasField_objectOf? generated hcsOwn
    fun p hp => hall p (List.mem_append_left _ (List.mem_append_left _ hp))
  obtain ⟨hrestAll, hrestFields⟩ := hasField_objectOf? generated (fun e he => hown e ((hrest e).1 he).1)
    fun p hp => hall p (List.mem_append_left _ (List.mem_append_right _ hp))
  refine ⟨hcsAll, fun e he hk => hrestAll e ((hrest e).2 ⟨he, hk⟩), fun k v => (hfields k v).trans ?_⟩
  have hkept : (∃ p ∈ refs.filterMap fun r => keepRef? maps cs r.1 r.2, ∃ u, (finishWithin depth p).answer fieldsOf = .ok u ∧
      HasField generated u k v) ↔ ∃ r ∈ refs, ∃ u, keepRef? maps cs r.1 r.2 = some u ∧ HasField generated u k v := by
    constructor
    · rintro ⟨p, hp, u, hu, hv⟩
      obtain ⟨r, hr, hp⟩ := List.mem_filterMap.1 hp
      rw [keepRef?_eq hp, finishWithin_ref] at hu
      cases hu
      exact ⟨r, hr, _, (keepRef?_eq hp) ▸ hp, hv⟩
    · rintro ⟨r, hr, u, hu, hv⟩
      refine ⟨u, List.mem_filterMap.2 ⟨r, hr, hu⟩, u, ?_, hv⟩
      rw [keepRef?_eq hu, finishWithin_ref]
      rfl
  simp only [List.mem_append, or_and_right, exists_or, or_assoc]
  refine or_congr (hcsFields k v) (or_congr ((hrestFields k v).trans ?_) hkept)
  simp only [hrest, and_assoc]

/-- A finished composition is of objects. -/
theorem isComposite_composed {typeName : String} {refs : List (FragmentRef × Note)}
    (hcs : ∀ e ∈ conflicts direct (refs.map Prod.fst) maps, isFragmentKey e.1 = false)
    (hown : ∀ e ∈ direct, isFragmentKey e.1 = false) (hcomposed : Shape.compose typeName direct refs maps = .ok composed)
    (h : (finishWithin depth composed).answer fieldsOf = .ok s) : s.IsComposite := by
  have hobject : ∀ fs : Fields, (∀ e ∈ fs, isFragmentKey e.1 = false) →
      (finishWithin depth (.object typeName fs {})).answer fieldsOf = .ok s → s.IsComposite := by
    intro fs hfs h
    obtain ⟨-, ⟨fs', rfl⟩, -⟩ := hasField_object (fun _ => none) hfs h
    trivial
  rcases compose_eq hcomposed with ⟨-, rfl⟩ | hparts | rfl
  · exact hobject [] (by simp) h
  · have hmem : composed ∈ composedParts typeName direct refs maps := hparts ▸ List.mem_singleton_self _
    have hpart : ∀ fs : Fields, composed ∈ (objectOf? typeName fs).toList → composed = .object typeName fs {} := by
      intro fs hfs
      unfold objectOf? at hfs
      split at hfs <;> simp_all
    rcases List.mem_append.1 hmem with hmem | hmem
    · rcases List.mem_append.1 hmem with hmem | hmem
      · exact hobject _ hcs (hpart _ hmem ▸ h)
      · exact hobject _ (fun e he => hown e (List.mem_filter.1 he).1) (hpart _ hmem ▸ h)
    · obtain ⟨r, -, hr⟩ := List.mem_filterMap.1 hmem
      rw [keepRef?_eq hr, finishWithin_ref] at h
      cases h
      trivial
  · rw [finishWithin_inter] at h
    obtain ⟨l, -, h⟩ := Query.answer_bind_ok h
    cases h
    trivial

theorem refsOf_cons_ref {key : String} {r : FragmentRef} {n : Note} {rest : Fields} (h : isFragmentKey key = true) :
    refsOf ((key, .ref r n) :: rest) = (r, n) :: refsOf rest := by
  simp [refsOf, h]

theorem refsOf_cons_of_not {key : String} {s : Shape} {rest : Fields} (h : ¬isFragmentKey key = true) :
    refsOf ((key, s) :: rest) = refsOf rest := by
  cases s <;> simp [refsOf, h]

/-- The field maps that are asked for are those of the fragments. -/
theorem answer_fieldMapsOf {fields : List (String × Shape)} {maps final : FieldMaps}
    (h : (fieldMapsOf maps fields).answer fieldsOf = .ok final)
    (hmaps : ∀ name m, Assoc.get? maps name = some m → fieldsOf name = some m) :
    (∀ name m, Assoc.get? final name = some m → fieldsOf name = some m) ∧
      ∀ name, name ∈ Assoc.keys maps ∨ name ∈ (refsOf fields).map (fun r => r.1.fragment) → name ∈ Assoc.keys final := by
  induction fields generalizing maps with
  | nil =>
    cases h
    exact ⟨hmaps, fun name hname => hname.resolve_right List.not_mem_nil⟩
  | cons e rest ih =>
    obtain ⟨key, s⟩ := e
    unfold fieldMapsOf at h
    by_cases hkey : isFragmentKey key = true
    · rw [if_pos hkey] at h
      split at h
      · rename_i r n
        have hrefs := @refsOf_cons_ref key r n rest hkey
        rw [Query.answer] at h
        cases hfound : fieldsOf r.fragment with
        | none => simp [hfound] at h
        | some m =>
          rw [hfound] at h
          obtain ⟨hfinal, hkeys⟩ := ih h fun name m' hm' => by
            rw [Assoc.get?_insert] at hm'
            split at hm'
            · rename_i hname
              rw [← hname, hfound, hm']
            · exact hmaps name m' hm'
          refine ⟨hfinal, fun name hname => hkeys name ?_⟩
          rw [Assoc.keys_insert]
          rw [hrefs] at hname
          rcases hname with hname | hname
          · exact Or.inl (by split <;> simp [hname])
          · rcases List.mem_cons.1 hname with rfl | hname
            · exact Or.inl (by split <;> simp [*])
            · exact Or.inr hname
      · cases h
    · rw [if_neg hkey] at h
      rw [refsOf_cons_of_not hkey]
      exact ih h hmaps

/-- Composing the references among fields takes the fields of the fragments that they are to. -/
theorem compose_of_composeRefs {typeName : String} (h : (composeRefs typeName fields).answer fieldsOf = .ok composed) :
    ∃ maps, (∀ r ∈ refsOf fields, fieldsOf r.1.fragment = some (Shape.refFields maps r.1)) ∧
      Shape.compose typeName (directFields fields) (refsOf fields) maps = .ok composed := by
  unfold composeRefs at h
  obtain ⟨maps, hmaps, h⟩ := Query.answer_bind_ok h
  obtain ⟨hfound, hkeys⟩ := answer_fieldMapsOf hmaps (by simp)
  refine ⟨maps, fun r hr => ?_, ?_⟩
  · have hkey := hkeys r.1.fragment (Or.inr (List.mem_map_of_mem hr))
    obtain ⟨m, hm⟩ := Option.ne_none_iff_exists'.1 (mt Assoc.get?_eq_none.1 (not_not_intro hkey))
    rw [hfound _ m hm, Shape.refFields, hm]
    rfl
  · cases hcompose : Shape.compose typeName (directFields fields) (refsOf fields) maps with
    | error name =>
      rw [hcompose] at h
      cases h
    | ok s =>
      rw [hcompose] at h
      cases h
      rfl

end ResponseTypes.Compile
