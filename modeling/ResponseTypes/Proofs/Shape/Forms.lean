import ResponseTypes.Proofs.Shape.Merging
import ResponseTypes.Proofs.Shape.Regular

/-!
# Forms

A `Form` says what is asked of the tags, the references, the fields, the branches and the parts in a shape, and `Formed F`
that they are so at any depth.  What a `Mergeable` form asks for is kept by merging (`formed_merge`, `formed_unify`).
-/

namespace ResponseTypes.Shape

set_option autoImplicit false

/-- What is asked of the parts of shapes. -/
structure Form where
  tag : TypeTag → Prop := fun _ => True
  ref : FragmentRef → Prop := fun _ => True
  /-- of the fields of an object -/
  fields : Fields → Prop := fun _ => True
  /-- of the branches of a union -/
  branches : List Shape → Prop := fun _ => True
  /-- of the parts of an intersection -/
  parts : List Shape → Prop := fun _ => True

mutual

/-- At any depth, the shape is as asked. -/
def Formed (F : Form) : Shape → Prop
  | scalar _ _ => True
  | tag t _ => F.tag t
  | object _ fields _ => F.fields fields ∧ FieldsFormed F fields
  | array element _ _ => Formed F element
  | union branches _ => F.branches branches ∧ ListFormed F branches
  | inter parts _ => F.parts parts ∧ ListFormed F parts
  | ref r _ => F.ref r

/-- All of some shapes are as asked. -/
def ListFormed (F : Form) : List Shape → Prop
  | [] => True
  | s :: rest => Formed F s ∧ ListFormed F rest

/-- The shapes in some fields are as asked. -/
def FieldsFormed (F : Form) : List (String × Shape) → Prop
  | [] => True
  | (_, s) :: rest => Formed F s ∧ FieldsFormed F rest

end

variable {F G : Form} {below : Shape → Shape → Shape} {a b s : Shape}

theorem listFormed_iff {shapes : List Shape} : ListFormed F shapes ↔ ∀ s ∈ shapes, s.Formed F := by
  induction shapes with
  | nil => simp [ListFormed]
  | cons s rest ih => simp [ListFormed, ih]

theorem fieldsFormed_iff {fields : Fields} : FieldsFormed F fields ↔ ∀ e ∈ fields, e.2.Formed F := by
  induction fields with
  | nil => simp [FieldsFormed]
  | cons e rest ih => simp [FieldsFormed, ih]

theorem formed_object {typeName : String} {fields : Fields} {n : Note} :
    (object typeName fields n).Formed F ↔ F.fields fields ∧ ∀ e ∈ fields, e.2.Formed F := by
  rw [Formed, fieldsFormed_iff]

theorem formed_union {branches : List Shape} {n : Note} :
    (union branches n).Formed F ↔ F.branches branches ∧ ∀ s ∈ branches, s.Formed F := by
  rw [Formed, listFormed_iff]

theorem formed_inter {parts : List Shape} {n : Note} :
    (inter parts n).Formed F ↔ F.parts parts ∧ ∀ s ∈ parts, s.Formed F := by
  rw [Formed, listFormed_iff]

/-- Induction on shapes. -/
theorem induction {P : Shape → Prop} (scalar : ∀ code n, P (scalar code n)) (tag : ∀ t n, P (tag t n))
    (object : ∀ typeName fields n, (∀ e ∈ fields, P e.2) → P (object typeName fields n))
    (array : ∀ element elementNullable n, P element → P (array element elementNullable n))
    (union : ∀ branches n, (∀ s ∈ branches, P s) → P (union branches n))
    (inter : ∀ parts n, (∀ s ∈ parts, P s) → P (inter parts n)) (ref : ∀ r n, P (ref r n)) (s : Shape) : P s := by
  refine @Shape.rec P (fun fields => ∀ e ∈ fields, P e.2) (fun shapes => ∀ s ∈ shapes, P s) (fun e => P e.2)
    scalar tag object array union inter ref ?_ ?_ ?_ ?_ ?_ s
  · exact List.forall_mem_nil _
  · exact fun _ _ hfirst hrest => List.forall_mem_cons.2 ⟨hfirst, hrest⟩
  · exact List.forall_mem_nil _
  · exact fun _ _ hfirst hrest => List.forall_mem_cons.2 ⟨hfirst, hrest⟩
  · exact fun _ _ h => h

/-- What the second form asks for is what the first does, at most. -/
structure Form.Le (F G : Form) : Prop where
  tag : ∀ t, F.tag t → G.tag t := by exact fun _ => id
  ref : ∀ r, F.ref r → G.ref r := by exact fun _ => id
  fields : ∀ l, F.fields l → G.fields l := by exact fun _ => id
  branches : ∀ l, F.branches l → G.branches l := by exact fun _ => id
  parts : ∀ l, F.parts l → G.parts l := by exact fun _ => id

theorem Formed.mono (hFG : F.Le G) (h : s.Formed F) : s.Formed G := by
  induction s using induction with
  | scalar code n => trivial
  | tag t n => exact hFG.tag t h
  | object typeName fields n ih =>
    obtain ⟨hfields, hall⟩ := formed_object.1 h
    exact formed_object.2 ⟨hFG.fields fields hfields, fun e he => ih e he (hall e he)⟩
  | array element elementNullable n ih => exact ih h
  | union branches n ih =>
    obtain ⟨hbranches, hall⟩ := formed_union.1 h
    exact formed_union.2 ⟨hFG.branches branches hbranches, fun s hs => ih s hs (hall s hs)⟩
  | inter parts n ih =>
    obtain ⟨hparts, hall⟩ := formed_inter.1 h
    exact formed_inter.2 ⟨hFG.parts parts hparts, fun s hs => ih s hs (hall s hs)⟩
  | ref r n => exact hFG.ref r h

@[simp] theorem formed_withNote (n : Note) : (s.withNote n).Formed F ↔ s.Formed F := by
  cases s <;> rfl

@[simp] theorem formed_withNullable (nullable : Bool) : (s.withNullable nullable).Formed F ↔ s.Formed F :=
  formed_withNote _

mutual

/-- The branches of a formed shape are formed, and none of them is a union. -/
theorem formed_flatBranches (s : Shape) (h : s.Formed F) : ∀ t ∈ flatBranches s, t.isUnion = false ∧ t.Formed F := by
  match s, h with
  | union branches _, h => exact formed_flatList branches h.2
  | scalar _ _, h | tag _ _, h | object _ _ _, h | array _ _ _, h | inter _ _, h | ref _ _, h =>
    exact List.forall_mem_singleton.2 ⟨rfl, h⟩

theorem formed_flatList (shapes : List Shape) (h : ListFormed F shapes) :
    ∀ t ∈ flatList shapes, t.isUnion = false ∧ t.Formed F := by
  match shapes, h with
  | [], _ => exact List.forall_mem_nil _
  | s :: rest, h => exact List.forall_mem_append.2 ⟨formed_flatBranches s h.1, formed_flatList rest h.2⟩

end

theorem formed_branchesBeside (h : a.Formed F) : ∀ t ∈ branchesBeside a b, t.isUnion = false ∧ t.Formed F := by
  unfold branchesBeside
  split
  · exact List.forall_mem_singleton.2 ⟨rfl, trivial⟩
  · exact formed_flatBranches a h

/-- The parts of a formed shape in an intersection. -/
theorem formed_parts (hpart : ∀ s, (∀ parts n, s ≠ inter parts n) → F.parts [s]) (h : a.Formed F) :
    F.parts a.parts ∧ ∀ t ∈ a.parts, t.Formed F := by
  cases a with
  | inter parts n => exact formed_inter.1 h
  | scalar | tag | object | array | union | ref => exact ⟨hpart _ nofun, List.forall_mem_singleton.2 h⟩

/-! ## Merging -/

/-- References to the fragment of one key are merged to a reference to it. -/
def KeepsRefs (below : Shape → Shape → Shape) : Prop :=
  ∀ key a b, RefersAs key a → RefersAs key b → RefersAs key (below a b)

theorem keepsRefs_mergeWith (below : Shape → Shape → Shape) : KeepsRefs (mergeWith below) := by
  intro key a b ha hb
  obtain ⟨r, n, rfl, hr⟩ := exists_ref_of_refersAs ha
  obtain ⟨r', n', rfl, hr'⟩ := exists_ref_of_refersAs hb
  rw [mergeWith, if_pos (fragmentKey_inj (hr.symm.trans hr'))]
  exact hr

theorem keepsRefs_merge : KeepsRefs merge := by
  intro key a b
  rw [merge_eq]
  exact keepsRefs_mergeWith merge key a b

/-- The form asks for nothing that merging does not keep. -/
structure Form.Mergeable (F : Form) : Prop where
  tag : ∀ {t t' u}, F.tag t → F.tag t' → uniteTags t t' = some u → F.tag u
  ref : ∀ {r n}, F.ref r → F.fields [(fragmentKey r.artifact, Shape.ref r n)]
  fields : ∀ {below a b}, KeepsRefs below → F.fields a → F.fields b → F.fields (mergeFieldsWith below a b)
  branches : ∀ {below l}, (∀ s ∈ l, s.isUnion = false) → F.branches (addBranches below [] l)
  part : ∀ s, (∀ parts n, s ≠ Shape.inter parts n) → F.parts [s]
  parts : ∀ {parts more}, F.parts parts → F.parts more → F.parts (appendParts parts more)

section Layer

variable (hF : F.Mergeable) (hk : KeepsRefs below) (hb : ∀ a b, Formed F a → Formed F b → Formed F (below a b))

include hF hk hb

theorem formed_mergeFieldsWith {fields fields' : Fields} (h : F.fields fields ∧ ∀ e ∈ fields, e.2.Formed F)
    (h' : F.fields fields' ∧ ∀ e ∈ fields', e.2.Formed F) :
    F.fields (mergeFieldsWith below fields fields') ∧ ∀ e ∈ mergeFieldsWith below fields fields', e.2.Formed F :=
  ⟨hF.fields hk h.1 h'.1, forall_mergeFieldsWith (P := fun _ s => s.Formed F) h.2 h'.2 fun _ => hb⟩

theorem formed_mergeObjects (a b : Shape) (ha : a.Formed F) (hb' : b.Formed F) : (mergeObjects below a b).Formed F := by
  unfold mergeObjects
  split
  · exact formed_object.2 (formed_mergeFieldsWith hF hk hb (formed_object.1 ha) (formed_object.1 hb'))
  · exact ha

theorem formed_addBranches {l : List Shape} (hl : ∀ t ∈ l, t.isUnion = false ∧ t.Formed F) :
    F.branches (addBranches below [] l) ∧ ∀ t ∈ addBranches below [] l, t.Formed F :=
  ⟨hF.branches fun t ht => (hl t ht).1,
    forall_addBranches (formed_mergeObjects hF hk hb) (List.forall_mem_nil _) fun t ht => (hl t ht).2⟩

theorem formed_mergeWith (ha : a.Formed F) (hb' : b.Formed F) : (mergeWith below a b).Formed F := by
  have href : ∀ {r : FragmentRef} {n : Note}, (Shape.ref r n).Formed F → F.fields [(fragmentKey r.artifact, .ref r n)] ∧
      ∀ e ∈ [(fragmentKey r.artifact, Shape.ref r n)], e.2.Formed F :=
    fun hr => ⟨hF.ref hr, List.forall_mem_singleton.2 hr⟩
  cases meeting a b with
  | scalars => simp [mergeWith, Formed]
  | tags h =>
    simp only [mergeWith, h]
    exact hF.tag ha hb' h
  | objects => exact formed_mergeObjects hF hk hb _ _ ha hb'
  | arrays => exact hb _ _ ha hb'
  | refs h =>
    rw [mergeWith, if_pos h, formed_withNote]
    exact ha
  | objectRef => exact formed_object.2 (formed_mergeFieldsWith hF hk hb (formed_object.1 ha) (href hb'))
  | refObject => exact formed_object.2 (formed_mergeFieldsWith hF hk hb (href ha) (formed_object.1 hb'))
  | union h =>
    obtain ⟨n, hn⟩ := mergeWith_unites h
    rw [hn]
    refine formed_union.2 (formed_addBranches hF hk hb ?_)
    exact List.forall_mem_append.2 ⟨formed_branchesBeside ha, formed_branchesBeside hb'⟩
  | inter h =>
    obtain ⟨n, hn⟩ := mergeWith_crosses h
    obtain ⟨hparts, hall⟩ := formed_parts hF.part ha
    obtain ⟨hparts', hall'⟩ := formed_parts hF.part hb'
    rw [hn]
    exact formed_inter.2 ⟨hF.parts hparts hparts', fun t ht => (mem_appendParts ht).elim (hall t) (hall' t)⟩

end Layer

theorem formed_merge (hF : F.Mergeable) (a b : Shape) : a.Formed F → b.Formed F → (merge a b).Formed F := by
  suffices h : ∀ n a b, Formed F a → Formed F b → Formed F (mergeAt n a b) from h _ a b
  intro n
  induction n with
  | zero => exact fun _ _ => formed_mergeWith hF (fun _ _ _ ha _ => ha) fun _ _ ha _ => ha
  | succ n ih =>
    refine fun _ _ => formed_mergeWith hF ?_ ih
    cases n <;> exact keepsRefs_mergeWith _

theorem formed_mergeFields (hF : F.Mergeable) {fields fields' : Fields} (h : F.fields fields ∧ ∀ e ∈ fields, e.2.Formed F)
    (h' : F.fields fields' ∧ ∀ e ∈ fields', e.2.Formed F) :
    F.fields (mergeFields fields fields') ∧ ∀ e ∈ mergeFields fields fields', e.2.Formed F :=
  formed_mergeFieldsWith hF keepsRefs_merge (formed_merge hF) h h'

theorem formed_unify (hF : F.Mergeable) {shapes : List Shape} (h : ∀ s ∈ shapes, s.Formed F) :
    F.branches (unify shapes) ∧ ∀ s ∈ unify shapes, s.Formed F := by
  rw [unify_eq]
  exact formed_addBranches hF keepsRefs_merge (formed_merge hF) (formed_flatList shapes (listFormed_iff.2 h))

/-! ## Fields -/

/-- Under fragment keys stand references to their fragments. -/
def RefersUnderKeys (fields : Fields) : Prop :=
  ∀ e ∈ fields, isFragmentKey e.1 = true → RefersAs e.1 e.2

theorem refersUnderKeys_ref (r : FragmentRef) (n : Note) : RefersUnderKeys [(fragmentKey r.artifact, ref r n)] :=
  List.forall_mem_singleton.2 fun _ => rfl

theorem refersUnderKeys_mergeFieldsWith {fields fields' : Fields} (hk : KeepsRefs below) (h : RefersUnderKeys fields)
    (h' : RefersUnderKeys fields') : RefersUnderKeys (mergeFieldsWith below fields fields') :=
  forall_mergeFieldsWith (P := fun key s => isFragmentKey key = true → RefersAs key s) h h'
    fun key a b ha hb hkey => hk key a b (ha hkey) (hb hkey)

/-- Fields are maps, in which references stand under the keys of fragments: no key stands twice among them. -/
def mapped : Form where
  fields fields := (Assoc.keys fields).Nodup ∧ RefersUnderKeys fields

theorem mergeable_mapped : mapped.Mergeable where
  tag _ _ _ := trivial
  ref _ := ⟨List.nodup_singleton _, refersUnderKeys_ref _ _⟩
  fields hk h h' := ⟨nodup_mergeFieldsWith h.1 h'.1, refersUnderKeys_mergeFieldsWith hk h.2 h'.2⟩
  branches _ := trivial
  part _ _ := trivial
  parts _ _ := trivial

end ResponseTypes.Shape
