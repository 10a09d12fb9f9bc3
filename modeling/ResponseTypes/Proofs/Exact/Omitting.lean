import ResponseTypes.Proofs.Exact.Finished
import ResponseTypes.Proofs.Exact.Partition
import ResponseTypes.Proofs.Plan.Depths
import ResponseTypes.Proofs.Shape.Citing

/-!
# What references omit

`composed R` : no fragment stands among the fields of an object, at any depth, and all references are in `R`.  If references
that omit some, but not all, of what their fragments have are in `R` with those that do not (`Composable`), then finishing a
shape whose references are in `R` asks for such fragments alone and gives a composed shape (`finishWithin_composed`).  What a
fragment has is flattened before (`flatFields_flattened`).
-/

namespace ResponseTypes

set_option autoImplicit false

/-- A reference leaves out some of the fields, each once, and not all that there are. -/
structure FragmentRef.OmitsFrom (r : FragmentRef) (fields : Fields) : Prop where
  distinct : r.omitted.Nodup
  known : ∀ k ∈ r.omitted, k ∈ Assoc.keys fields
  proper : fields ≠ [] → ∃ k ∈ Assoc.keys fields, k ∉ r.omitted

/-- What leaves out nothing. -/
theorem FragmentRef.omitsFrom_of_nil {r : FragmentRef} (h : r.omitted = []) (fields : Fields) : r.OmitsFrom fields where
  distinct := h ▸ List.nodup_nil
  known k hk := absurd (h ▸ hk) List.not_mem_nil
  proper hne := by
    obtain ⟨e, rest, rfl⟩ := List.exists_cons_of_ne_nil hne
    exact ⟨e.1, List.mem_cons_self, by rw [h]; exact List.not_mem_nil⟩

namespace Compile

open Query (within_bind within_pure)
open Shape (Cites FieldsCite cites_object cites_union cites_inter conflicts keepRef?)

/-- No fragment is among the fields of objects, and references are in `R`. -/
def composed (R : FragmentRef → Prop) : Shape.Form where
  ref := R
  fields := Own

variable {R R' : FragmentRef → Prop} {fieldsOf : String → Option Fields} {fields before : Fields} {s s' : Shape} {k : String}

theorem composed_mono (h : s.Formed (composed R)) (hR : ∀ r, R r → R' r) : s.Formed (composed R') :=
  Shape.Formed.mono { ref := hR } h

/-- Fields as fragments have them: no fragment is among them, no key stands twice, and references are in `R`. -/
structure Flattened (R : FragmentRef → Prop) (fields : Fields) : Prop where
  cites : FieldsCite R fields
  own : Own fields
  distinct : (Assoc.keys fields).Nodup

theorem flattened_nil : Flattened R [] :=
  ⟨List.forall_mem_nil _, List.forall_mem_nil _, List.nodup_nil⟩

theorem flattened_singleton (hs : s.Cites R) (hk : isFragmentKey k = false) : Flattened R [(k, s)] :=
  ⟨List.forall_mem_singleton.2 hs, List.forall_mem_singleton.2 hk, List.nodup_singleton _⟩

theorem Flattened.merge (h : Flattened R before) (h' : Flattened R fields) :
    Flattened R (Shape.mergeFields before fields) where
  cites := Shape.fieldsCite_mergeFields h.cites h'.cites
  own := own_mergeFields h.own h'.own
  distinct := Shape.nodup_mergeFieldsWith h.distinct h'.distinct

/-- The fragments that are referred to have flattened fields. -/
def AllFlattened (R : FragmentRef → Prop) (fieldsOf : String → Option Fields) : Prop :=
  ∀ r fields, R r → fieldsOf r.fragment = some fields → Flattened R fields

/-- The fragments that are referred to have flattened fields, and a reference may omit some of them. -/
structure Composable (R : FragmentRef → Prop) (fieldsOf : String → Option Fields) : Prop where
  flattened : AllFlattened R fieldsOf
  omits : ∀ (r : FragmentRef) fields omitted, R r → fieldsOf r.fragment = some fields →
    ({ r with omitted } : FragmentRef).OmitsFrom fields → R { r with omitted }

/-- The fragment is referred to. -/
def Referred (R : FragmentRef → Prop) (name : String) : Prop :=
  ∃ r, R r ∧ r.fragment = name

/-! ## Flattening -/

mutual

/-- The fields of a shape are flattened. -/
theorem flatFields_flattened (hR : AllFlattened R fieldsOf) (s : Shape) (h : s.Cites R) :
    (flatFields s).Within (Referred R) fieldsOf (Flattened R) := by
  match s with
  | .scalar _ _ | .tag _ _ | .array _ _ _ => exact within_pure flattened_nil
  | .object _ fields _ => exact flatOwnFields_flattened hR [] fields flattened_nil (cites_object.1 h)
  | .ref r _ => exact ⟨⟨r, h, rfl⟩, fun fields hfields => hR r fields h hfields⟩
  | .union branches _ => exact flatFieldsOfAll_flattened hR [] branches flattened_nil (cites_union.1 h)
  | .inter parts _ => exact flatFieldsOfAll_flattened hR [] parts flattened_nil (cites_inter.1 h)

theorem flatOwnFields_flattened (hR : AllFlattened R fieldsOf) (before : Fields) (fields : List (String × Shape))
    (hb : Flattened R before) (h : FieldsCite R fields) :
    (flatOwnFields before fields).Within (Referred R) fieldsOf (Flattened R) := by
  match fields with
  | [] => exact hb
  | (key, s) :: rest =>
    obtain ⟨hs, hrest⟩ := List.forall_mem_cons.1 h
    rw [flatOwnFields]
    split
    · exact within_bind (flatFields_flattened hR s hs) fun more hmore => flatOwnFields_flattened hR _ rest (hb.merge hmore) hrest
    · rename_i hkey
      exact within_bind (q := pure [(key, s)]) (within_pure (flattened_singleton hs (Bool.eq_false_iff.2 hkey)))
        fun more hmore => flatOwnFields_flattened hR _ rest (hb.merge hmore) hrest

theorem flatFieldsOfAll_flattened (hR : AllFlattened R fieldsOf) (before : Fields) (shapes : List Shape) (hb : Flattened R before)
    (h : ∀ s ∈ shapes, s.Cites R) : (flatFieldsOfAll before shapes).Within (Referred R) fieldsOf (Flattened R) := by
  match shapes with
  | [] => exact hb
  | s :: rest =>
    obtain ⟨hs, hrest⟩ := List.forall_mem_cons.1 h
    exact within_bind (flatFields_flattened hR s hs) fun more hmore => flatFieldsOfAll_flattened hR _ rest (hb.merge hmore) hrest

end

/-! ## Composing -/

section Composing

variable {direct : Fields} {refs : List (FragmentRef × Note)} {maps : Shape.FieldMaps} {typeName : String}

theorem cites_mergedShape? {shapes : List Shape} (h : ∀ s ∈ shapes, s.Cites R) (hs : mergedShape? shapes = some s) :
    s.Cites R := by
  cases shapes with
  | nil => cases hs
  | cons first rest =>
    obtain ⟨hfirst, hrest⟩ := List.forall_mem_cons.1 h
    cases hs
    exact List.foldlRecOn (motive := Cites R) rest _ hfirst fun s hs next hnext => Shape.cites_merge hs (hrest next hnext)

/-- What is in conflict refers to what the fields do that are in conflict. -/
theorem fieldsCite_conflicts {names : List FragmentRef} (hdirect : FieldsCite R direct)
    (hmaps : ∀ r ∈ names, FieldsCite R (Shape.refFields maps r)) : FieldsCite R (conflicts direct names maps) := by
  intro e he
  obtain ⟨-, -, hmerged⟩ := conflict?_eq_some.1 (conflict?_of_mem he)
  refine cites_mergedShape? (fun v hv => ?_) hmerged
  rcases mem_contributions.1 hv with hv | ⟨r, hr, hv⟩
  · exact Shape.cites_get? hdirect hv
  · exact Shape.cites_get? (hmaps r hr) hv

/-- A reference that is kept omits what is in conflict, which is not all that its fragment has. -/
theorem omitsFrom_keepRef? {cs : Fields} {r : FragmentRef} {n : Note} (hcs : (Assoc.keys cs).Nodup)
    (hr : (Assoc.keys (Shape.refFields maps r)).Nodup) (hs : keepRef? maps cs r n = some s) :
    s = .ref { r with omitted := omittedOf cs maps r } n ∧
      ({ r with omitted := omittedOf cs maps r } : FragmentRef).OmitsFrom (Shape.refFields maps r) := by
  rw [keepRef?_eq_ite n hcs hr] at hs
  split at hs
  · cases hs
  · rename_i hleft
    refine ⟨(Option.some.inj hs).symm, hcs.filter _, fun k hk => (mem_omittedOf.1 hk).2, fun hne => ?_⟩
    by_contra hall
    exact hleft ⟨hne, fun k hk => (mem_omittedOf.1 (not_not.1 fun hk' => hall ⟨k, hk, hk'⟩)).1⟩

/-- A composition refers to what its fields and its fragments do. -/
theorem cites_compose (hdirect : FieldsCite R direct) (hmaps : ∀ r ∈ refs, FieldsCite R (Shape.refFields maps r.1))
    (hkept : ∀ r ∈ refs, ∀ s, keepRef? maps (conflicts direct (refs.map Prod.fst) maps) r.1 r.2 = some s → s.Cites R)
    (h : Shape.compose typeName direct refs maps = .ok s) : s.Cites R := by
  have hconflicts : FieldsCite R (conflicts direct (refs.map Prod.fst) maps) :=
    fieldsCite_conflicts hdirect (List.forall_mem_map.2 hmaps)
  have hobject : ∀ fields : Fields, FieldsCite R fields → ∀ t ∈ (Shape.objectOf? typeName fields).toList, t.Cites R := by
    intro fields hfields t ht
    rw [Option.mem_toList, Shape.objectOf?] at ht
    split at ht
    · cases ht
    · cases ht
      exact cites_object.2 hfields
  have hparts : ∀ t ∈ composedParts typeName direct refs maps, t.Cites R := by
    have hremaining : ∀ p : String × Shape → Bool, FieldsCite R (direct.filter p) :=
      fun p e he => hdirect e (List.mem_filter.1 he).1
    refine List.forall_mem_append.2 ⟨?_, fun t ht => ?_⟩
    · exact List.forall_mem_append.2 ⟨hobject _ hconflicts, hobject _ (hremaining _)⟩
    · obtain ⟨r, hr, ht⟩ := List.mem_filterMap.1 ht
      exact hkept r hr t ht
  rcases compose_eq h with ⟨-, rfl⟩ | heq | rfl
  · exact cites_object.2 (List.forall_mem_nil _)
  · exact hparts s (heq ▸ List.mem_singleton_self s)
  · exact cites_inter.2 hparts

theorem fieldMapsOf_referred {fields : List (String × Shape)} (h : FieldsCite R fields) (maps : Shape.FieldMaps) :
    (fieldMapsOf maps fields).Within (Referred R) fieldsOf fun _ => True := by
  induction fields generalizing maps with
  | nil => trivial
  | cons e rest ih =>
    obtain ⟨key, s⟩ := e
    obtain ⟨hs, hrest⟩ := List.forall_mem_cons.1 h
    unfold fieldMapsOf
    split
    · split
      · rename_i r n
        exact ⟨⟨r, hs, rfl⟩, fun _ _ => ih hrest _⟩
      · trivial
    · exact ih hrest maps

theorem composeRefs_cites (hR : Composable R fieldsOf) (typeName : String) (h : FieldsCite R fields) :
    (composeRefs typeName fields).Within (Referred R) fieldsOf (Cites R) := by
  refine Query.within_of_answer (within_bind (fieldMapsOf_referred h []) fun maps _ => ?_) fun s hs => ?_
  · split <;> trivial
  · obtain ⟨maps, hmaps, hcompose⟩ := compose_of_composeRefs hs
    have hrefs : ∀ r ∈ refsOf fields, R r.1 := by
      intro r hr
      obtain ⟨key, he, -⟩ := mem_refsOf.1 hr
      exact h _ he
    have hflat : ∀ r ∈ refsOf fields, Flattened R (Shape.refFields maps r.1) :=
      fun r hr => hR.flattened r.1 _ (hrefs r hr) (hmaps r hr)
    have hdirect : FieldsCite R (directFields fields) := fun e he => h e (mem_directFields.1 he).1
    refine cites_compose hdirect (fun r hr => (hflat r hr).cites) (fun r hr s hs => ?_) hcompose
    obtain ⟨rfl, homits⟩ := omitsFrom_keepRef? nodup_conflicts (hflat r hr).distinct hs
    exact hR.omits r.1 _ _ (hrefs r hr) (hmaps r hr) homits

end Composing

/-! ## Finishing -/

mutual

/-- A finished shape is composed. -/
theorem finishWithin_composed (hR : Composable R fieldsOf) (depth : Nat) (s : Shape) (h : s.Cites R) :
    (finishWithin depth s).Within (Referred R) fieldsOf (Shape.Formed (composed R)) := by
  match s with
  | .scalar _ _ | .tag _ _ =>
    exact within_pure trivial
  | .ref _ _ =>
    rw [finishWithin_ref]
    exact within_pure h
  | .array element _ _ =>
    rw [finishWithin_array]
    exact within_bind (finishWithin_composed hR depth element h) fun s hs => within_pure hs
  | .union branches _ =>
    rw [finishWithin_union]
    exact within_bind (finishList_composed hR depth branches (cites_union.1 h)) fun l hl =>
      within_pure (Shape.formed_union.2 ⟨trivial, hl⟩)
  | .inter parts _ =>
    rw [finishWithin_inter]
    exact within_bind (finishList_composed hR depth parts (cites_inter.1 h)) fun l hl =>
      within_pure (Shape.formed_inter.2 ⟨trivial, hl⟩)
  | .object typeName fields n =>
    rw [finishWithin_object]
    split
    · match depth with
      | 0 => trivial
      | depth + 1 =>
        refine within_bind (composeRefs_cites hR typeName (cites_object.1 h)) fun composed hcomposed => ?_
        refine within_bind (finishWithin_composed hR depth composed hcomposed) fun s hs => ?_
        exact within_pure ((Shape.formed_withNote n).2 hs)
    · rename_i hkeys
      have hown : Own fields := fun e he => Bool.eq_false_iff.2 fun hkey => hkeys (List.any_eq_true.2 ⟨e, he, hkey⟩)
      exact within_bind (finishFields_composed hR depth fields hown (cites_object.1 h)) fun fs hfs =>
        within_pure (Shape.formed_object.2 hfs)
termination_by (depth, sizeOf s)

theorem finishList_composed (hR : Composable R fieldsOf) (depth : Nat) (shapes : List Shape) (h : ∀ s ∈ shapes, s.Cites R) :
    (finishList depth shapes).Within (Referred R) fieldsOf fun l : List Shape => ∀ s ∈ l, s.Formed (composed R) := by
  match shapes with
  | [] =>
    rw [finishList_nil]
    exact within_pure (List.forall_mem_nil _)
  | s :: rest =>
    obtain ⟨hs, hrest⟩ := List.forall_mem_cons.1 h
    rw [finishList_cons]
    refine within_bind (finishWithin_composed hR depth s hs) fun s' hs' => ?_
    exact within_bind (finishList_composed hR depth rest hrest) fun l hl => within_pure (List.forall_mem_cons.2 ⟨hs', hl⟩)
termination_by (depth, sizeOf shapes)

theorem finishFields_composed (hR : Composable R fieldsOf) (depth : Nat) (fields : List (String × Shape)) (hown : Own fields)
    (h : FieldsCite R fields) :
    (finishFields depth fields).Within (Referred R) fieldsOf fun fs : Fields =>
      Own fs ∧ ∀ e ∈ fs, e.2.Formed (composed R) := by
  match fields with
  | [] =>
    rw [finishFields_nil]
    exact within_pure ⟨List.forall_mem_nil _, List.forall_mem_nil _⟩
  | (key, s) :: rest =>
    obtain ⟨hkey, hrestOwn⟩ := List.forall_mem_cons.1 hown
    obtain ⟨hs, hrest⟩ := List.forall_mem_cons.1 h
    rw [finishFields_cons]
    refine within_bind (finishWithin_composed hR depth s hs) fun s' hs' => ?_
    exact within_bind (finishFields_composed hR depth rest hrestOwn hrest) fun fs hfs =>
      within_pure ⟨List.forall_mem_cons.2 ⟨hkey, hfs.1⟩, List.forall_mem_cons.2 ⟨hs', hfs.2⟩⟩
termination_by (depth, sizeOf fields)

end

/-! ## Notes -/

/-- Whatever it is answered, and whatever it lacks. -/
def Query.Terms.any : Query.Terms :=
  ⟨fun _ _ => True, fun _ => True⟩

theorem Query.ensures_any {α : Type} (q : Query α) : q.Ensures .any fun _ => True := by
  induction q with
  | done a => trivial
  | lack e => trivial
  | fields fragment next ih => exact fun answer _ => ih answer

/-- A finished shape has the note of the one before. -/
theorem finishWithin_note (depth : Nat) (s : Shape) : (finishWithin depth s).Ensures .any fun s' => s'.note = s.note := by
  cases s with
  | scalar code n | tag t n | ref r n => exact Query.ensures_pure rfl
  | array element elementNullable n | union branches n | inter parts n =>
    exact Query.ensures_bind (Query.ensures_any _) fun _ _ => Query.ensures_pure rfl
  | object typeName fields n =>
    rw [finishWithin_object]
    split
    · cases depth with
      | zero => trivial
      | succ depth =>
        refine Query.ensures_bind (Query.ensures_any _) fun composed _ => ?_
        exact Query.ensures_bind (Query.ensures_any _) fun s _ => Query.ensures_pure (Shape.note_withNote n s)
    · exact Query.ensures_bind (Query.ensures_any _) fun _ _ => Query.ensures_pure rfl

end Compile

end ResponseTypes
