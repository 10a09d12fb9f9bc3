import ResponseTypes.Proofs.Shape.Normal

/-!
# Whether elements may be missing

An array says whether its elements may be missing, and its element says it too.  `Elements R` : in every array of a shape
the two are in the relation `R`.

Simplifying keeps whatever relation they are in (`elements_simplify`).  Merging does not keep that they agree
(`merged_elements_disagree`): what is merged may only be missing if both sides say so, but an array says so of its elements
if one side does.  What merging keeps is that an array says it if its element does (`elements_merge`).
-/

namespace ResponseTypes.Shape

set_option autoImplicit false

mutual

/-- In every array of the shape, what it says of its elements and what its element says are in the relation. -/
def Elements (R : Bool → Bool → Prop) : Shape → Prop
  | scalar _ _ | tag _ _ | ref _ _ => True
  | object _ fields _ => FieldsElements R fields
  | array element elementNullable _ => R elementNullable element.nullable ∧ Elements R element
  | union branches _ => ListElements R branches
  | inter parts _ => ListElements R parts

/-- All of some shapes are so. -/
def ListElements (R : Bool → Bool → Prop) : List Shape → Prop
  | [] => True
  | s :: rest => Elements R s ∧ ListElements R rest

/-- The shapes in some fields are so. -/
def FieldsElements (R : Bool → Bool → Prop) : List (String × Shape) → Prop
  | [] => True
  | (_, s) :: rest => Elements R s ∧ FieldsElements R rest

end

/-- An array says that its elements may be missing if its element says so. -/
def Covers (marked missing : Bool) : Prop :=
  missing = true → marked = true

variable {R : Bool → Bool → Prop} {below : Shape → Shape → Shape} {a b s : Shape} {n : Note} {typeName : String}
  {fields fields' : Fields} {branches parts : List Shape}

theorem listElements_iff {shapes : List Shape} : ListElements R shapes ↔ ∀ s ∈ shapes, s.Elements R := by
  induction shapes with
  | nil => simp [ListElements]
  | cons s rest ih => simp [ListElements, ih]

theorem elements_object : (object typeName fields n).Elements R ↔ ∀ e ∈ fields, e.2.Elements R := by
  rw [Elements]
  induction fields with
  | nil => simp [FieldsElements]
  | cons e rest ih => simp [FieldsElements, ih]

theorem elements_union : (union branches n).Elements R ↔ ∀ s ∈ branches, s.Elements R := by
  rw [Elements, listElements_iff]

theorem elements_inter : (inter parts n).Elements R ↔ ∀ s ∈ parts, s.Elements R := by
  rw [Elements, listElements_iff]

@[simp] theorem elements_withNote : (s.withNote n).Elements R ↔ s.Elements R := by
  cases s <;> rfl

/-! ## Simplifying -/

theorem elements_combine (ha : a.Elements R) (h : combine a b = some s) : s.Elements R := by
  obtain ⟨_, fields, _, _, others, _, united, rfl, rfl, hunited, rfl⟩ := exists_of_combine h
  exact elements_object.2 (forall_uniteFieldTags (Q := fun _ s => s.Elements R) (fun _ _ _ _ _ _ _ _ _ => trivial)
    (elements_object.1 ha) hunited)

theorem elements_unionOf (h : ∀ s ∈ branches, s.Elements R) : (unionOf branches n).Elements R :=
  of_unionOf (fun _ _ _ ha _ => elements_combine ha) (fun _ _ => elements_withNote.2) (fun _ _ => elements_union.2) n h

/-- Simplifying keeps how arrays and their elements are related. -/
theorem elements_simplify (h : s.Elements R) : (simplify s).Elements R := by
  induction s using Shape.induction with
  | scalar | tag | ref => trivial
  | object typeName fields n ih =>
    rw [simplify, simplifyFields_eq]
    exact elements_object.2 (List.forall_mem_map.2 fun e he => ih e he (elements_object.1 h e he))
  | array element elementNullable n ih => exact ⟨by rw [nullable_simplify]; exact h.1, ih h.2⟩
  | union branches n ih =>
    rw [simplify, simplifyList_eq]
    exact elements_unionOf (List.forall_mem_map.2 fun s hs => ih s hs (elements_union.1 h s hs))
  | inter parts n ih =>
    rw [simplify, simplifyList_eq]
    exact elements_inter.2 (List.forall_mem_map.2 fun s hs => ih s hs (elements_inter.1 h s hs))

/-! ## Merging -/

theorem elements_flatBranches (h : s.Elements R) : ∀ t ∈ flatBranches s, t.Elements R :=
  forall_flatBranches (fun _ _ => elements_union.1) s h

theorem elements_branchesBeside (h : a.Elements R) : ∀ t ∈ branchesBeside a b, t.Elements R := by
  unfold branchesBeside
  split
  · exact List.forall_mem_singleton.2 trivial
  · exact elements_flatBranches h

theorem elements_parts (h : a.Elements R) : ∀ t ∈ a.parts, t.Elements R := by
  cases a with
  | inter parts n => exact elements_inter.1 h
  | scalar | tag | object | array | union | ref => exact List.forall_mem_singleton.2 h

section Layer

variable (hb : ∀ a b, Elements R a → Elements R b → Elements R (below a b))

include hb

theorem elements_mergeFieldsWith (h : ∀ e ∈ fields, e.2.Elements R) (h' : ∀ e ∈ fields', e.2.Elements R) :
    ∀ e ∈ mergeFieldsWith below fields fields', e.2.Elements R :=
  forall_mergeFieldsWith (P := fun _ s => s.Elements R) h h' fun _ => hb

theorem elements_mergeObjects (a b : Shape) (ha : a.Elements R) (hb' : b.Elements R) :
    (mergeObjects below a b).Elements R := by
  unfold mergeObjects
  split
  · exact elements_object.2 (elements_mergeFieldsWith hb (elements_object.1 ha) (elements_object.1 hb'))
  · exact ha

end Layer

theorem elements_mergeWith (hb : ∀ a b, Elements Covers a → Elements Covers b → Elements Covers (below a b))
    (hnullable : ∀ a b, (below a b).nullable = true → a.nullable = true) (ha : a.Elements Covers) (hb' : b.Elements Covers) :
    (mergeWith below a b).Elements Covers := by
  cases meeting a b with
  | scalars | refs h => simp_all [mergeWith, Elements]
  | tags h => simp [mergeWith, h, Elements]
  | objects => exact elements_mergeObjects hb _ _ ha hb'
  | arrays => exact ⟨fun h => by rw [ha.1 (hnullable _ _ h), Bool.true_or], hb _ _ ha.2 hb'.2⟩
  | objectRef =>
    exact elements_object.2 (elements_mergeFieldsWith hb (elements_object.1 ha) (List.forall_mem_singleton.2 hb'))
  | refObject =>
    exact elements_object.2 (elements_mergeFieldsWith hb (List.forall_mem_singleton.2 ha) (elements_object.1 hb'))
  | union h =>
    obtain ⟨n, hn⟩ := mergeWith_unites h
    rw [hn]
    exact elements_union.2 (forall_addBranches (elements_mergeObjects hb) (List.forall_mem_nil _)
      (List.forall_mem_append.2 ⟨elements_branchesBeside ha, elements_branchesBeside hb'⟩))
  | inter h =>
    obtain ⟨n, hn⟩ := mergeWith_crosses h
    rw [hn]
    exact elements_inter.2 fun t ht => (mem_appendParts ht).elim (elements_parts ha t) (elements_parts hb' t)

/-- Merging keeps that arrays say that their elements may be missing if these do. -/
theorem elements_merge (ha : a.Elements Covers) (hb : b.Elements Covers) : (merge a b).Elements Covers := by
  suffices h : ∀ n a b, Elements Covers a → Elements Covers b → Elements Covers (mergeAt n a b) from h _ a b ha hb
  intro n
  induction n with
  | zero => exact fun _ _ => elements_mergeWith (fun _ _ ha _ => ha) fun _ _ => id
  | succ n ih =>
    refine fun _ _ => elements_mergeWith ih fun a b h => ?_
    have hmerged : (mergeAt n a b).nullable = (a.nullable && b.nullable) := by cases n <;> exact nullable_mergeWith
    rw [hmerged, Bool.and_eq_true] at h
    exact h.1

theorem elements_mergeFields (h : ∀ e ∈ fields, e.2.Elements Covers) (h' : ∀ e ∈ fields', e.2.Elements Covers) :
    ∀ e ∈ mergeFields fields fields', e.2.Elements Covers :=
  elements_mergeFieldsWith (fun _ _ => elements_merge) h h'

/-- Arrays that agree with their elements may be merged to one that does not: one side says that elements may be missing. -/
theorem merged_elements_disagree : ∃ a b : Shape, a.Elements Eq ∧ b.Elements Eq ∧ ¬(merge a b).Elements Eq :=
  ⟨array (scalar "string" { nullable := true }) true {}, array (scalar "string" {}) false {}, ⟨rfl, trivial⟩, ⟨rfl, trivial⟩,
    fun h => nomatch h.1⟩

end ResponseTypes.Shape
