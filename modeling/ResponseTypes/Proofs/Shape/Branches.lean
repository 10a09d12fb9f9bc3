import ResponseTypes.Proofs.Shape.Labels
import ResponseTypes.Shape.Simplify

/-!
# What all branches have

A union is taken apart into branches (`flatBranches`), which are added to others one after the other (`unifyWith`), and those
that differ in nothing but tags are combined (`combineBranches`, `unionOf`).  What the branches before have, those after have
too, if it is kept where two of them are merged or combined.
-/

namespace ResponseTypes.Shape

set_option autoImplicit false

variable {P : Shape → Prop} {below : Shape → Shape → Shape} {a b s : Shape} {l parts more branches : List Shape}

mutual

theorem forall_flatBranches (hunion : ∀ branches n, P (union branches n) → ∀ t ∈ branches, P t) (s : Shape) (h : P s) :
    ∀ t ∈ flatBranches s, P t := by
  match s, h with
  | union branches n, h => exact forall_flatList hunion branches (hunion branches n h)
  | scalar _ _, h | tag _ _, h | object _ _ _, h | array _ _ _, h | inter _ _, h | ref _ _, h =>
    exact List.forall_mem_singleton.2 h

theorem forall_flatList (hunion : ∀ branches n, P (union branches n) → ∀ t ∈ branches, P t) (shapes : List Shape)
    (h : ∀ s ∈ shapes, P s) : ∀ t ∈ flatList shapes, P t := by
  match shapes, h with
  | [], _ => exact List.forall_mem_nil _
  | s :: rest, h =>
    obtain ⟨hs, hrest⟩ := List.forall_mem_cons.1 h
    exact List.forall_mem_append.2 ⟨forall_flatBranches hunion s hs, forall_flatList hunion rest hrest⟩

end

theorem forall_unifyWith (hunion : ∀ branches n, P (union branches n) → ∀ t ∈ branches, P t)
    (hmerge : ∀ a b, P a → P b → P (mergeObjects below a b)) (h : ∀ s ∈ l, P s) : ∀ t ∈ unifyWith below l, P t :=
  forall_addBranches hmerge (List.forall_mem_nil _) (forall_flatList hunion l h)

theorem forall_appendParts (h : ∀ s ∈ parts, P s) (h' : ∀ s ∈ more, P s) : ∀ s ∈ appendParts parts more, P s :=
  fun s hs => (mem_appendParts hs).elim (h s) (h' s)

/-! ## Combining -/

/-- What the fields have, they have with their tags united. -/
theorem forall_uniteFieldTags {Q : String → Shape → Prop} {others fields united : Fields}
    (hQ : ∀ k t n t' n' u, Q k (tag t n) → Assoc.get? others k = some (tag t' n') → uniteTags t t' = some u →
      Q k (tag u (mergeNotes n n')))
    (h : ∀ e ∈ fields, Q e.1 e.2) (hunited : uniteFieldTags others fields = some united) : ∀ e ∈ united, Q e.1 e.2 := by
  induction fields generalizing united with
  | nil =>
    cases hunited
    exact List.forall_mem_nil _
  | cons e rest ih =>
    obtain ⟨k, s⟩ := e
    obtain ⟨hs, hrest⟩ := List.forall_mem_cons.1 h
    unfold uniteFieldTags at hunited
    split at hunited
    · split at hunited
      · rename_i hother
        obtain ⟨t, ht, hunited⟩ := Option.bind_eq_some_iff.1 hunited
        obtain ⟨r, hr, hunited⟩ := Option.bind_eq_some_iff.1 hunited
        cases hunited
        exact List.forall_mem_cons.2 ⟨hQ _ _ _ _ _ _ hs hother ht, ih hrest hr⟩
      · cases hunited
    · obtain ⟨r, hr, rfl⟩ := Option.map_eq_some_iff.1 hunited
      exact List.forall_mem_cons.2 ⟨hs, ih hrest hr⟩

/-- What is combined are two objects. -/
theorem exists_of_combine (h : combine a b = some s) : ∃ typeName fields n typeName' others n' united,
    a = object typeName fields n ∧ b = object typeName' others n' ∧ uniteFieldTags others fields = some united ∧
      s = object typeName united n := by
  unfold combine at h
  split at h
  · obtain ⟨united, hunited, rfl⟩ := Option.map_eq_some_iff.1 h
    exact ⟨_, _, _, _, _, _, united, rfl, rfl, hunited, rfl⟩
  · cases h

section Combine

variable (hcombine : ∀ a b s, P a → P b → combine a b = some s → P s)

include hcombine

theorem forall_absorb (hs : P s) (h : ∀ t ∈ l, P t) : ∀ t ∈ absorb s l, P t := by
  induction l with
  | nil => exact List.forall_mem_singleton.2 hs
  | cons first rest ih =>
    obtain ⟨hfirst, hrest⟩ := List.forall_mem_cons.1 h
    unfold absorb
    split
    · rename_i both hboth
      split at hboth
      · exact List.forall_mem_cons.2 ⟨hcombine first s both hfirst hs hboth, hrest⟩
      · cases hboth
    · exact List.forall_mem_cons.2 ⟨hfirst, ih hrest⟩

theorem forall_combineBranches (h : ∀ s ∈ l, P s) : ∀ s ∈ combineBranches l, P s :=
  List.foldlRecOn (motive := fun acc : List Shape => ∀ s ∈ acc, P s) l _ (List.forall_mem_nil _)
    fun _ hacc s hs => forall_absorb hcombine (h s hs) hacc

/-- What combined branches have, their union has, whether one is left or more are. -/
theorem of_unionOf (hnote : ∀ s n, P s → P (s.withNote n)) (hunion : ∀ branches n, (∀ s ∈ branches, P s) → P (union branches n))
    (n : Note) (h : ∀ s ∈ branches, P s) : P (unionOf branches n) := by
  have hcombined := forall_combineBranches hcombine h
  unfold unionOf
  split
  · rename_i s hs
    exact hnote s _ (hcombined s (hs ▸ List.mem_singleton_self s))
  · exact hunion _ n hcombined

end Combine

end ResponseTypes.Shape
