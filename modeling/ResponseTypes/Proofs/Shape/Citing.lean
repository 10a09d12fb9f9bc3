import ResponseTypes.Proofs.Shape.Fits
import ResponseTypes.Proofs.Shape.Forms

/-!
# What shapes refer to

`Cites R` : all references in a shape are in `R`.  Merging and simplifying shapes bring no references that were not there
(`cites_merge`, `cites_simplify`).
-/

namespace ResponseTypes.Shape

set_option autoImplicit false

/-- References are in `R`. -/
def citing (R : FragmentRef → Prop) : Form where
  ref := R

/-- All references in a shape are in `R`. -/
abbrev Cites (R : FragmentRef → Prop) (s : Shape) : Prop :=
  s.Formed (citing R)

/-- All references in some fields are in `R`. -/
abbrev FieldsCite (R : FragmentRef → Prop) (fields : Fields) : Prop :=
  ∀ e ∈ fields, e.2.Cites R

variable {R R' : FragmentRef → Prop} {a b s : Shape} {fields fields' : Fields}

theorem mergeable_citing : (citing R).Mergeable :=
  ⟨fun _ _ _ => trivial, fun _ => trivial, fun _ _ _ => trivial, fun _ => trivial, fun _ _ => trivial, fun _ _ => trivial⟩

theorem cites_object {typeName : String} {n : Note} : (object typeName fields n).Cites R ↔ FieldsCite R fields :=
  formed_object.trans (and_iff_right trivial)

theorem cites_union {branches : List Shape} {n : Note} : (union branches n).Cites R ↔ ∀ s ∈ branches, s.Cites R :=
  formed_union.trans (and_iff_right trivial)

theorem cites_inter {parts : List Shape} {n : Note} : (inter parts n).Cites R ↔ ∀ s ∈ parts, s.Cites R :=
  formed_inter.trans (and_iff_right trivial)

theorem Cites.mono (h : s.Cites R) (hR : ∀ r, R r → R' r) : s.Cites R' :=
  Formed.mono { ref := hR } h

theorem FieldsCite.mono (h : FieldsCite R fields) (hR : ∀ r, R r → R' r) : FieldsCite R' fields :=
  fun e he => (h e he).mono hR

theorem cites_get? {k : String} (h : FieldsCite R fields) (hs : Assoc.get? fields k = some s) : s.Cites R :=
  h _ (Assoc.mem_of_get? hs)

theorem fieldsCite_insert {k : String} (h : FieldsCite R fields) (hs : s.Cites R) : FieldsCite R (Assoc.insert fields k s) := by
  intro e he
  rcases Assoc.mem_insert he with rfl | he
  · exact hs
  · exact h e he

/-! ## Merging -/

theorem cites_merge (ha : a.Cites R) (hb : b.Cites R) : (merge a b).Cites R :=
  formed_merge mergeable_citing a b ha hb

theorem cites_mergeInto {a : Option Shape} (ha : ∀ s ∈ a, s.Cites R) (hb : b.Cites R) : (mergeInto a b).Cites R := by
  cases a with
  | none => exact hb
  | some a => exact cites_merge (ha a rfl) hb

theorem fieldsCite_mergeFields (h : FieldsCite R fields) (h' : FieldsCite R fields') :
    FieldsCite R (mergeFields fields fields') :=
  (formed_mergeFields (mergeable_citing (R := R)) ⟨trivial, h⟩ ⟨trivial, h'⟩).2

/-! ## Simplifying -/

theorem fieldsCite_uniteFieldTags {others united : Fields} (h : FieldsCite R fields)
    (hu : uniteFieldTags others fields = some united) : FieldsCite R united :=
  forall_uniteFieldTags (Q := fun _ s => s.Cites R) (fun _ _ _ _ _ _ _ _ _ => trivial) h hu

theorem cites_combine (ha : a.Cites R) (hs : combine a b = some s) : s.Cites R := by
  obtain ⟨_, fields, _, _, others, _, united, rfl, rfl, hunited, rfl⟩ := exists_of_combine hs
  exact cites_object.2 (fieldsCite_uniteFieldTags (cites_object.1 ha) hunited)

theorem cites_unionOf {branches : List Shape} (n : Note) (h : ∀ s ∈ branches, s.Cites R) : (unionOf branches n).Cites R :=
  of_unionOf (fun _ _ _ ha _ => cites_combine ha) (fun _ n => (formed_withNote n).2) (fun _ _ => cites_union.2) n h

/-- Simplifying brings no references. -/
theorem cites_simplify (h : s.Cites R) : s.simplify.Cites R := by
  induction s using Shape.induction with
  | scalar | tag | ref => exact h
  | object typeName fields n ih =>
    rw [simplify, simplifyFields_eq]
    refine cites_object.2 fun e he => ?_
    obtain ⟨e', he', rfl⟩ := List.mem_map.1 he
    exact ih e' he' (cites_object.1 h e' he')
  | array element elementNullable n ih => exact ih h
  | union branches n ih =>
    rw [simplify, simplifyList_eq]
    refine cites_unionOf n fun s hs => ?_
    obtain ⟨s', hs', rfl⟩ := List.mem_map.1 hs
    exact ih s' hs' (cites_union.1 h s' hs')
  | inter parts n ih =>
    rw [simplify, simplifyList_eq]
    refine cites_inter.2 fun s hs => ?_
    obtain ⟨s', hs', rfl⟩ := List.mem_map.1 hs
    exact ih s' hs' (cites_inter.1 h s' hs')

end ResponseTypes.Shape
