import ResponseTypes.Proofs.Shape.Forms
import ResponseTypes.Proofs.Shape.Keys

/-!
# Paths through shapes

A path of response keys leads through the fields of objects, looking through arrays, branches and parts; a reference to a
fragment is a step of its own, named by its fragment key, wherever it stands.  Merging two shapes makes no path and no scalar
at the end of one, and loses none (`leads_merge`).  Where two branches or parts are taken for one because they have one key,
the same paths lead through both (`leads_of_key`).
-/

namespace ResponseTypes.Shape

set_option autoImplicit false

mutual

/-- A path leads through a shape to something, or, with the code of a scalar, to a scalar of that code. -/
def Leads (code : Option String) : Shape → List String → Prop
  | scalar code' _, path => path = [] ∧ (code = none ∨ code = some code')
  | tag _ _, path => path = [] ∧ code = none
  | object _ fields _, path => (path = [] ∧ code = none) ∨ FieldsLead code fields path
  | array element _ _, path => Leads code element path
  | union branches _, path => (path = [] ∧ code = none) ∨ ListLeads code branches path
  | inter parts _, path => (path = [] ∧ code = none) ∨ ListLeads code parts path
  | ref r _, path => (path = [] ∨ path = [fragmentKey r.artifact]) ∧ code = none

/-- A path leads through one of some shapes. -/
def ListLeads (code : Option String) : List Shape → List String → Prop
  | [], _ => False
  | s :: rest, path => Leads code s path ∨ ListLeads code rest path

/-- A path leads through a field.  A reference that stands under its own key is the one step. -/
def FieldsLead (code : Option String) : List (String × Shape) → List String → Prop
  | [], _ => False
  | (key, s) :: rest, path =>
    (∃ path', path = key :: path' ∧ Leads code s path' ∧ (RefersAs key s → path' = [])) ∨ FieldsLead code rest path

end

/-- A path leads through a shape under a key. -/
def EntryLeads (code : Option String) (path : List String) (key : String) (s : Shape) : Prop :=
  ∃ path', path = key :: path' ∧ Leads code s path' ∧ (RefersAs key s → path' = [])

variable {code : Option String} {path : List String} {a b s : Shape}

theorem listLeads_iff {shapes : List Shape} : ListLeads code shapes path ↔ ∃ s ∈ shapes, s.Leads code path := by
  induction shapes with
  | nil => simp [ListLeads]
  | cons s rest ih => simp [ListLeads, ih]

theorem fieldsLead_iff {fields : Fields} : FieldsLead code fields path ↔ ∃ e ∈ fields, EntryLeads code path e.1 e.2 := by
  induction fields with
  | nil => simp [FieldsLead]
  | cons e rest ih => simp [FieldsLead, ih, EntryLeads]

theorem listLeads_append {shapes more : List Shape} :
    ListLeads code (shapes ++ more) path ↔ ListLeads code shapes path ∨ ListLeads code more path := by
  simp [listLeads_iff, or_and_right, exists_or]

theorem listLeads_singleton : ListLeads code [s] path ↔ s.Leads code path := by
  simp [listLeads_iff]

@[simp] theorem leads_withNote (n : Note) : (s.withNote n).Leads code path ↔ s.Leads code path := by
  cases s <;> simp [withNote, Leads]

/-- The empty path leads to the shape itself. -/
theorem leads_nil (s : Shape) (h : path = [] ∧ code = none) : s.Leads code path := by
  induction s using induction with
  | scalar => exact ⟨h.1, Or.inl h.2⟩
  | tag => exact h
  | array _ _ _ ih => exact ih
  | object | union | inter => exact Or.inl h
  | ref => exact ⟨Or.inl h.1, h.2⟩

theorem leads_iff_nil_or (s : Shape) : s.Leads code path ↔ (path = [] ∧ code = none) ∨ s.Leads code path :=
  ⟨Or.inr, fun h => h.elim (leads_nil s) id⟩

/-! ## Shapes with one key -/

theorem refersAs_of_key {key' : String} (h : key false a = key false b) (hb : RefersAs key' b) : RefersAs key' a := by
  obtain ⟨r, n, rfl, hr⟩ := exists_ref_of_refersAs hb
  cases a with
  | ref r' n' =>
    simp only [key, ShapeKey.seq.injEq, List.cons.injEq, ShapeKey.text.injEq, true_and] at h
    exact hr.trans (congrArg fragmentKey h.1.symm)
  | scalar | tag | object | array | union | inter => simp [key] at h

/-- Shapes whose keys are among those of others have no paths but those of the others, if equal keys mean that. -/
theorem listLeads_of_key {l l' : List Shape}
    (hkey : ∀ s ∈ l, ∀ {t path}, key false s = key false t → s.Leads code path → t.Leads code path)
    (hsubset : l.map (key false) ⊆ l'.map (key false)) (h : ListLeads code l path) : ListLeads code l' path := by
  obtain ⟨s, hs, hpath⟩ := listLeads_iff.1 h
  obtain ⟨t, ht, htkey⟩ := List.mem_map.1 (hsubset (List.mem_map_of_mem hs))
  exact listLeads_iff.2 ⟨t, ht, hkey s hs htkey.symm hpath⟩

/-- The same paths lead through shapes with one key. -/
theorem leads_of_key (h : key false a = key false b) (ha : a.Leads code path) : b.Leads code path := by
  induction a using induction generalizing b path with
  | scalar code' n =>
    cases b with
    | scalar => simp_all [key, Leads]
    | tag | object | array | union | inter | ref => simp [key] at h
  | tag t n =>
    cases b with
    | tag => exact ha
    | scalar | object | array | union | inter | ref => simp [key] at h
  | object typeName fields n ih =>
    cases b with
    | object typeName' fields' n' =>
      refine ha.imp id fun hfields => ?_
      obtain ⟨e, he, path', rfl, hpath, hrefers⟩ := fieldsLead_iff.1 hfields
      obtain ⟨e', he', heq⟩ := List.mem_map.1 ((perm_of_key_object h).subset (List.mem_map_of_mem he))
      obtain ⟨hfst, hkey⟩ := Prod.mk.inj heq
      refine fieldsLead_iff.2 ⟨e', he', path', by rw [hfst], ih e he hkey.symm hpath, fun hr => ?_⟩
      exact hrefers (refersAs_of_key hkey.symm (hfst ▸ hr))
    | scalar | tag | array | union | inter | ref => simp [key] at h
  | array element elementNullable n ih =>
    cases b with
    | array element' elementNullable' n' =>
      simp only [key, ShapeKey.seq.injEq, List.cons.injEq, true_and] at h
      have helement : element'.Leads code path := ih h.1 ha
      exact helement
    | scalar | tag | object | union | inter | ref => simp [key] at h
  | union branches n ih =>
    cases b with
    | union branches' n' => exact ha.imp id (listLeads_of_key (fun s hs _ _ => ih s hs) (perm_of_key_union h).subset)
    | scalar | tag | object | array | inter | ref => simp [key] at h
  | inter parts n ih =>
    cases b with
    | inter parts' n' => exact ha.imp id (listLeads_of_key (fun s hs _ _ => ih s hs) fun _ hs => map_eq_of_key_inter h ▸ hs)
    | scalar | tag | object | array | union | ref => simp [key] at h
  | ref r n =>
    cases b with
    | ref => simp_all [key, Leads]
    | scalar | tag | object | array | union | inter => simp [key] at h

/-! ## Branches and parts -/

mutual

/-- A path leads through one of the branches of a shape, if it is not empty. -/
theorem leads_flatBranches (s : Shape) :
    s.Leads code path ↔ (path = [] ∧ code = none) ∨ ListLeads code (flatBranches s) path := by
  match s with
  | union branches _ => exact leads_flatList branches
  | scalar _ _ | tag _ _ | object _ _ _ | array _ _ _ | inter _ _ | ref _ _ =>
    exact (leads_iff_nil_or _).trans (or_congr_right listLeads_singleton.symm)

theorem leads_flatList (shapes : List Shape) : (path = [] ∧ code = none) ∨ ListLeads code shapes path ↔
    (path = [] ∧ code = none) ∨ ListLeads code (flatList shapes) path := by
  match shapes with
  | [] => exact Iff.rfl
  | s :: rest =>
    rw [flatList, listLeads_append, ListLeads, or_or_distrib_left, ← leads_iff_nil_or, leads_flatBranches s,
      leads_flatList rest, ← or_or_distrib_left]

end

theorem leads_branchesBeside :
    a.Leads code path ↔ (path = [] ∧ code = none) ∨ ListLeads code (branchesBeside a b) path := by
  unfold branchesBeside
  split
  · exact (leads_iff_nil_or _).trans (or_congr_right (listLeads_singleton.trans (leads_withNote _)).symm)
  · exact leads_flatBranches a

theorem leads_parts : a.Leads code path ↔ (path = [] ∧ code = none) ∨ ListLeads code a.parts path := by
  cases a with
  | inter parts n => exact Iff.rfl
  | scalar | tag | object | array | union | ref =>
    exact (leads_iff_nil_or _).trans (or_congr_right listLeads_singleton.symm)

/-- A path leads through the parts that are put together if it leads through one of them. -/
theorem listLeads_appendParts {parts more : List Shape} :
    ListLeads code (appendParts parts more) path ↔ ListLeads code parts path ∨ ListLeads code more path := by
  unfold appendParts
  induction more generalizing parts with
  | nil => exact (or_iff_left id).symm
  | cons s rest ih =>
    have hs : ListLeads code (if s.occursIn parts then parts else parts ++ [s]) path ↔
        ListLeads code parts path ∨ s.Leads code path := by
      split
      · rename_i hoccurs
        obtain ⟨t, ht, hkey⟩ := List.mem_map.1 (occursIn_iff.1 hoccurs)
        exact ⟨Or.inl, fun h => h.elim id fun h => listLeads_iff.2 ⟨t, ht, leads_of_key hkey.symm h⟩⟩
      · rw [listLeads_append, listLeads_singleton]
    rw [List.foldl_cons, ih, hs, ListLeads, or_assoc]

/-! ## Merging -/

/-- A reference is led through like an object that has it under its own key. -/
theorem leads_ref {r : FragmentRef} {n : Note} : (ref r n).Leads code path ↔
    (path = [] ∧ code = none) ∨ FieldsLead code [(fragmentKey r.artifact, ref r n)] path := by
  simp only [Leads, FieldsLead, RefersAs, forall_const, or_false]
  constructor
  · rintro ⟨rfl | rfl, hcode⟩
    · exact Or.inl ⟨rfl, hcode⟩
    · exact Or.inr ⟨[], rfl, ⟨Or.inl rfl, hcode⟩, rfl⟩
  · rintro (⟨rfl, hcode⟩ | ⟨path', rfl, ⟨-, hcode⟩, rfl⟩)
    · exact ⟨Or.inl rfl, hcode⟩
    · exact ⟨Or.inr rfl, hcode⟩

section Layer

/-! What holds of merging what is nested less deep than `k` goes over to shapes that are nested no deeper than `k`. -/

variable {k : Nat} (hjoins : ∀ a b, a.Formed mapped → b.Formed mapped → a.nesting < k → b.nesting < k →
  ∀ path, (merge a b).Leads code path ↔ a.Leads code path ∨ b.Leads code path)

include hjoins

/-- The paths through what is merged under one key. -/
theorem entryLeads_merge {key : String} (ha : a.Formed mapped ∧ a.nesting < k) (hb : b.Formed mapped ∧ b.nesting < k)
    (ha' : isFragmentKey key = true → RefersAs key a) (hb' : isFragmentKey key = true → RefersAs key b) :
    EntryLeads code path key (merge a b) ↔ EntryLeads code path key a ∨ EntryLeads code path key b := by
  have hown : ∀ {s : Shape}, (isFragmentKey key = true → RefersAs key s) → (RefersAs key s ↔ isFragmentKey key = true) := by
    refine fun h => ⟨fun hs => ?_, h⟩
    obtain ⟨r, n, -, hr⟩ := exists_ref_of_refersAs hs
    exact hr ▸ isFragmentKey_fragmentKey _
  have hmerge : isFragmentKey key = true → RefersAs key (merge a b) :=
    fun hkey => keepsRefs_merge key a b (ha' hkey) (hb' hkey)
  simp only [EntryLeads, hown ha', hown hb', hown hmerge, hjoins a b ha.1 hb.1 ha.2 hb.2]
  constructor
  · rintro ⟨path', hpath, h | h, hnil⟩
    · exact Or.inl ⟨path', hpath, h, hnil⟩
    · exact Or.inr ⟨path', hpath, h, hnil⟩
  · rintro (⟨path', hpath, h, hnil⟩ | ⟨path', hpath, h, hnil⟩)
    · exact ⟨path', hpath, Or.inl h, hnil⟩
    · exact ⟨path', hpath, Or.inr h, hnil⟩

theorem fieldsLead_merge {fields fields' : Fields} (h : mapped.fields fields ∧ ∀ e ∈ fields, e.2.Formed mapped)
    (h' : mapped.fields fields' ∧ ∀ e ∈ fields', e.2.Formed mapped) (hk : ∀ e ∈ fields, e.2.nesting < k)
    (hk' : ∀ e ∈ fields', e.2.nesting < k) : FieldsLead code (mergeFieldsWith merge fields fields') path ↔
      FieldsLead code fields path ∨ FieldsLead code fields' path := by
  have hboth : ∀ e ∈ fields, ∀ s, (e.1, s) ∈ fields' → (EntryLeads code path e.1 (merge e.2 s) ↔
      EntryLeads code path e.1 e.2 ∨ EntryLeads code path e.1 s) := fun e he s hs =>
    entryLeads_merge hjoins ⟨h.2 e he, hk e he⟩ ⟨h'.2 _ hs, hk' _ hs⟩ (h.1.2 e he) (h'.1.2 _ hs)
  rw [fieldsLead_iff, fieldsLead_iff, fieldsLead_iff]
  refine (exists_mem_mergeFieldsWith (P := fun key s => EntryLeads code path key s)).trans ?_
  constructor
  · rintro (⟨e, he, hpath⟩ | ⟨e, he, -, hpath⟩)
    · split at hpath
      · rename_i s hs
        exact ((hboth e he s (Assoc.mem_of_get? hs)).1 hpath).imp (fun hpath => ⟨e, he, hpath⟩)
          fun hpath => ⟨_, Assoc.mem_of_get? hs, hpath⟩
      · exact Or.inl ⟨e, he, hpath⟩
    · exact Or.inr ⟨e, he, hpath⟩
  · rintro (⟨e, he, hpath⟩ | ⟨e, he, hpath⟩)
    · refine Or.inl ⟨e, he, ?_⟩
      split
      · rename_i s hs
        exact (hboth e he s (Assoc.mem_of_get? hs)).2 (Or.inl hpath)
      · exact hpath
    · cases hget : Assoc.get? fields e.1 with
      | none => exact Or.inr ⟨e, he, by rw [Assoc.has, hget]; rfl, hpath⟩
      | some s =>
        have hs := Assoc.mem_of_get? hget
        refine Or.inl ⟨(e.1, s), hs, ?_⟩
        simp only [Assoc.get?_of_mem h'.1.1 he]
        exact (hboth _ hs e.2 he).2 (Or.inr hpath)

theorem leads_mergeObjects (ha : a.Formed mapped ∧ a.nesting ≤ k) (hb : b.Formed mapped ∧ b.nesting ≤ k)
    (hlabel : label a = label b) : (mergeObjects merge a b).Leads code path ↔ a.Leads code path ∨ b.Leads code path := by
  by_cases hobject : ∃ typeName, label b = .object typeName
  · obtain ⟨typeName, hobject⟩ := hobject
    obtain ⟨fields, n, rfl⟩ := exists_object_of_label (hlabel.trans hobject)
    obtain ⟨fields', n', rfl⟩ := exists_object_of_label hobject
    rw [mergeObjects, Leads, Leads, Leads, fieldsLead_merge hjoins (formed_object.1 ha.1) (formed_object.1 hb.1)
      (nesting_object_le.1 ha.2).2 (nesting_object_le.1 hb.2).2]
    exact or_or_distrib_left
  · have hother : ∀ typeName, label b ≠ .object typeName := fun typeName h => hobject ⟨typeName, h⟩
    rw [mergeObjects_eq_left hother]
    exact ⟨Or.inl, fun h => h.elim id (leads_of_key (key_eq_of_label hlabel hother).symm)⟩

/-- A path leads through the branches after some are added if it leads through one of them or of the added ones. -/
theorem listLeads_addBranches {acc l : List Shape} (hacc : ∀ t ∈ acc, t.Formed mapped ∧ t.nesting ≤ k)
    (hl : ∀ t ∈ l, t.Formed mapped ∧ t.nesting ≤ k) :
    ListLeads code (addBranches merge acc l) path ↔ ListLeads code acc path ∨ ListLeads code l path := by
  induction l generalizing acc with
  | nil => exact (or_iff_left id).symm
  | cons s rest ih =>
    obtain ⟨hs, hrest⟩ := List.forall_mem_cons.1 hl
    have hnext : ∀ t ∈ addBranches merge acc [s], t.Formed mapped ∧ t.nesting ≤ k :=
      forall_addBranches (fun a b ha hb => ⟨formed_mergeObjects mergeable_mapped keepsRefs_merge
        (formed_merge mergeable_mapped) a b ha.1 hb.1, nesting_mergeObjects nesting_merge ha.2 hb.2⟩) hacc
        (List.forall_mem_singleton.2 hs)
    have hstep : ListLeads code (addBranch merge acc s) path ↔ ListLeads code acc path ∨ s.Leads code path := by
      rcases addBranch_cases merge acc s with ⟨-, hadd⟩ | ⟨pre, first, post, rfl, hlabel, -, hadd⟩
      · rw [hadd, listLeads_append, listLeads_singleton]
      · rw [hadd, listLeads_append, listLeads_append, ListLeads, ListLeads,
          leads_mergeObjects hjoins (hacc first (by simp)) hs hlabel]
        tauto
    rw [ListLeads, ← or_assoc, ← hstep]
    exact ih hnext hrest

theorem leads_mergeWith (ha : a.Formed mapped ∧ a.nesting ≤ k) (hb : b.Formed mapped ∧ b.nesting ≤ k) :
    (mergeWith merge a b).Leads code path ↔ a.Leads code path ∨ b.Leads code path := by
  have href : ∀ (r : FragmentRef) (n : Note), mapped.fields [(fragmentKey r.artifact, ref r n)] ∧
      ∀ e ∈ [(fragmentKey r.artifact, ref r n)], e.2.Formed mapped :=
    fun _ _ => ⟨mergeable_mapped.ref trivial, List.forall_mem_singleton.2 trivial⟩
  cases meeting a b with
  | scalars => simp [mergeWith, Leads]
  | tags h => simp [mergeWith, h, Leads]
  | objects =>
    rw [mergeWith, mergeObjects, Leads, Leads, Leads, fieldsLead_merge hjoins (formed_object.1 ha.1) (formed_object.1 hb.1)
      (nesting_object_le.1 ha.2).2 (nesting_object_le.1 hb.2).2]
    exact or_or_distrib_left
  | @arrays element element' => exact hjoins element element' ha.1 hb.1 ha.2 hb.2 path
  | refs h =>
    rw [mergeWith, if_pos h, leads_withNote, Leads, Leads, h]
    exact or_self_iff.symm
  | objectRef =>
    have hk := nesting_object_le.1 ha.2
    rw [mergeWith_objectRef, Leads, Leads, leads_ref,
      fieldsLead_merge hjoins (formed_object.1 ha.1) (href _ _) hk.2 (List.forall_mem_singleton.2 hk.1)]
    exact or_or_distrib_left
  | refObject =>
    have hk := nesting_object_le.1 hb.2
    rw [mergeWith_refObject, Leads, Leads, leads_ref,
      fieldsLead_merge hjoins (href _ _) (formed_object.1 hb.1) (List.forall_mem_singleton.2 hk.1) hk.2]
    exact or_or_distrib_left
  | union h =>
    obtain ⟨n, hn⟩ := mergeWith_unites h
    have hbranches : ∀ {a b : Shape}, a.Formed mapped ∧ a.nesting ≤ k →
        ∀ t ∈ branchesBeside a b, t.Formed mapped ∧ t.nesting ≤ k :=
      fun ha t ht => ⟨(formed_branchesBeside ha.1 t ht).2, nesting_branchesBeside ha.2 t ht⟩
    rw [hn, Leads, listLeads_addBranches hjoins (List.forall_mem_nil _)
      (List.forall_mem_append.2 ⟨hbranches ha, hbranches hb⟩), listLeads_append, ListLeads, false_or,
      leads_branchesBeside (a := a) (b := b), leads_branchesBeside (a := b) (b := a)]
    exact or_or_distrib_left
  | inter h =>
    obtain ⟨n, hn⟩ := mergeWith_crosses h
    rw [hn, Leads, listLeads_appendParts, leads_parts (a := a), leads_parts (a := b)]
    exact or_or_distrib_left

end Layer

/-- A path leads through what is merged if it leads through one of the two. -/
theorem leads_merge (code : Option String) (a b : Shape) : a.Formed mapped → b.Formed mapped →
    ∀ path, (merge a b).Leads code path ↔ a.Leads code path ∨ b.Leads code path := by
  induction a, b using induction_nesting with
  | h k a b ha hb ih =>
    intro hmapped hmapped' path
    rw [merge_eq]
    exact leads_mergeWith (fun x y hx hy hx' hy' => ih x y hx' hy' hx hy) ⟨hmapped, ha⟩ ⟨hmapped', hb⟩

/-- A path leads to something in the shape. -/
def Reaches (s : Shape) (path : List String) : Prop :=
  s.Leads none path

/-- A path leads to a scalar of the code. -/
def Yields (s : Shape) (path : List String) (code : String) : Prop :=
  s.Leads (some code) path

/-- What is merged may be missing if both may, has the paths of both, and at each path the scalars of both. -/
theorem merge_conserves (a b : Shape) (ha : a.Formed mapped) (hb : b.Formed mapped) :
    ((merge a b).nullable = true ↔ a.nullable = true ∧ b.nullable = true) ∧
      (∀ path, (merge a b).Reaches path ↔ a.Reaches path ∨ b.Reaches path) ∧
      ∀ path code, (merge a b).Yields path code ↔ a.Yields path code ∨ b.Yields path code :=
  ⟨by rw [nullable_merge, Bool.and_eq_true], leads_merge none a b ha hb, fun path code => leads_merge (some code) a b ha hb path⟩

/-- A user by name. -/
def namedUser : Shape :=
  object "User" [("name", scalar "string" {})] {}

/-- A reference that is merged into an object is a step of its own beside the fields. -/
theorem merge_conserves_namedUser :
    (merge namedUser (ref ⟨"Mail", "Mail", "User", "User", []⟩ {})).Reaches ["...Mail"] ∧
      (merge namedUser (ref ⟨"Mail", "Mail", "User", "User", []⟩ {})).Yields ["name"] "string" := by
  have huser : namedUser.Formed mapped :=
    formed_object.2 ⟨⟨List.nodup_singleton _, List.forall_mem_singleton.2 nofun⟩, List.forall_mem_singleton.2 trivial⟩
  obtain ⟨-, hreaches, hyields⟩ := merge_conserves namedUser (ref ⟨"Mail", "Mail", "User", "User", []⟩ {}) huser trivial
  refine ⟨(hreaches _).2 (Or.inr ⟨Or.inr (by simp [fragmentKey]), rfl⟩), (hyields _ _).2 (Or.inl (Or.inr (Or.inl ?_)))⟩
  exact ⟨[], rfl, ⟨rfl, Or.inr rfl⟩, nofun⟩

end ResponseTypes.Shape
