import ResponseTypes.Proofs.Shape.Forms

/-!
# Well-formed shapes

In a well-formed shape no union stands directly in a union, a union has at most one object branch per concrete type and no
two identical branches of another kind, no intersection stands directly in an intersection or has two identical parts, and
every fragment key holds a reference to its fragment.  Merging keeps shapes well formed (`wellFormed_merged`): whatever is
added to a union goes to the place of its label, of which there is one (`nodup_labels_addBranches`).
-/

namespace ResponseTypes.Shape

set_option autoImplicit false

/-- Branches that one union does not have both: objects of one type, or identical ones of another kind. -/
def Clash : Shape → Shape → Prop
  | object typeName _ _, object typeName' _ _ => typeName = typeName'
  | a, b => identical a b = true

/-- What well-formed shapes are asked for. -/
def wellFormed : Form where
  fields := RefersUnderKeys
  branches branches := (∀ s ∈ branches, s.isUnion = false) ∧ branches.Pairwise fun a b => ¬Clash a b
  parts parts := (∀ s ∈ parts, ∀ more n, s ≠ inter more n) ∧ parts.Pairwise fun a b => identical a b = false

/-- Unions and intersections are flat and hold nothing twice, and fragment keys hold their references. -/
def WellFormed (s : Shape) : Prop :=
  s.Formed wellFormed

/-- The shapes in a map of fields are well formed, and under fragment keys stand their references. -/
def FieldsWellFormed (fields : Fields) : Prop :=
  RefersUnderKeys fields ∧ ∀ e ∈ fields, e.2.WellFormed

variable {below : Shape → Shape → Shape} {a b : Shape}

/-- Two branches clash when they have one place in a union. -/
theorem clash_iff : Clash a b ↔ label a = label b := by
  cases a <;> cases b <;> simp [Clash, label, identical, key]

theorem pairwise_clash_iff {l : List Shape} : (l.Pairwise fun a b => ¬Clash a b) ↔ (l.map label).Nodup := by
  simp only [clash_iff, List.Nodup, List.pairwise_map, ne_eq]

theorem pairwise_identical_iff {l : List Shape} :
    (l.Pairwise fun a b => identical a b = false) ↔ (l.map (key false)).Nodup := by
  simp [identical, List.Nodup, List.pairwise_map]

/-- However many branches are added, there is one at each place. -/
theorem nodup_labels_addBranches {l : List Shape} : ((addBranches below [] l).map label).Nodup := by
  refine List.foldlRecOn (motive := fun acc : List Shape => (acc.map label).Nodup) l _ List.nodup_nil fun acc hacc s _ => ?_
  rw [labels_addBranch]
  split
  · exact hacc
  · rename_i hnew
    exact List.nodup_append.2 ⟨hacc, List.nodup_singleton _,
      fun _ hx _ hy heq => hnew (List.mem_singleton.1 hy ▸ heq ▸ hx)⟩

theorem nodup_keys_appendParts {parts more : List Shape} (h : (parts.map (key false)).Nodup) :
    ((appendParts parts more).map (key false)).Nodup := by
  refine List.foldlRecOn (motive := fun acc : List Shape => (acc.map (key false)).Nodup) more _ h fun acc hacc s _ => ?_
  split
  · exact hacc
  · rename_i hnew
    rw [occursIn_iff] at hnew
    rw [List.map_append]
    exact List.nodup_append.2 ⟨hacc, List.nodup_singleton _,
      fun _ hx _ hy heq => hnew (List.mem_singleton.1 hy ▸ heq ▸ hx)⟩

theorem mergeable_wellFormed : wellFormed.Mergeable where
  tag _ _ _ := trivial
  ref _ := refersUnderKeys_ref _ _
  fields hk h h' := refersUnderKeys_mergeFieldsWith hk h h'
  branches hl := by
    refine ⟨forall_addBranches (fun a b ha _ => ?_) (List.forall_mem_nil _) hl, pairwise_clash_iff.2 nodup_labels_addBranches⟩
    rw [isUnion_mergeObjects, ha]
  part s hs := ⟨List.forall_mem_singleton.2 hs, List.pairwise_singleton _ _⟩
  parts h h' := by
    refine ⟨fun s hs => (mem_appendParts hs).elim (h.1 s) (h'.1 s), ?_⟩
    rw [pairwise_identical_iff]
    exact nodup_keys_appendParts (pairwise_identical_iff.1 h.2)

/-- Merging two well-formed shapes gives a well-formed one; so does merging two well-formed maps of fields, and the branches
that are unified of groups of well-formed ones are those of a well-formed union. -/
theorem wellFormed_merged :
    (∀ a b : Shape, a.WellFormed → b.WellFormed → (merge a b).WellFormed) ∧
      (∀ fields fields' : Fields, FieldsWellFormed fields → FieldsWellFormed fields' →
        FieldsWellFormed (mergeFields fields fields')) ∧
      ∀ (groups : List (List Shape)) (n : Note), (∀ group ∈ groups, ∀ s ∈ group, s.WellFormed) →
        (union (unify groups.flatten) n).WellFormed := by
  refine ⟨formed_merge mergeable_wellFormed, fun _ _ => formed_mergeFields mergeable_wellFormed, fun groups n h => ?_⟩
  refine formed_union.2 (formed_unify mergeable_wellFormed fun s hs => ?_)
  obtain ⟨group, hgroup, hs⟩ := List.mem_flatten.1 hs
  exact h group hgroup s hs

/-- An object with a fragment among its fields. -/
def spreadUser : Fields :=
  [("id", scalar "string" {}), ("...Name", ref ⟨"Name", "Name", "User", "User", []⟩ {})]

/-- A user, or what two fragments say of one. -/
def userOrNames : Shape :=
  union [object "User" [("email", scalar "string" {})] {},
    inter [ref ⟨"Name", "Name", "User", "User", []⟩ {}, ref ⟨"Mail", "Mail", "User", "User", []⟩ {}] {}] {}

/-- The object goes into the branch for its type. -/
theorem wellFormed_merged_userOrNames :
    (merge userOrNames (object "User" spreadUser {})).WellFormed ∧ FieldsWellFormed (mergeFields spreadUser spreadUser) ∧
      (union (unify [[userOrNames], [object "User" spreadUser {}]].flatten) {}).WellFormed := by
  have hfields : FieldsWellFormed spreadUser :=
    ⟨List.forall_mem_cons.2 ⟨nofun, List.forall_mem_singleton.2 fun _ => rfl⟩,
      List.forall_mem_cons.2 ⟨trivial, List.forall_mem_singleton.2 trivial⟩⟩
  have huser : (object "User" spreadUser {}).WellFormed := formed_object.2 hfields
  have hunion : userOrNames.WellFormed := by
    refine formed_union.2 ⟨⟨by simp [isUnion], by simp [Clash, identical, key]⟩, List.forall_mem_cons.2
      ⟨formed_object.2 ⟨List.forall_mem_singleton.2 nofun, List.forall_mem_singleton.2 trivial⟩, ?_⟩⟩
    refine List.forall_mem_singleton.2 (formed_inter.2 ⟨⟨by simp, by simp [identical, key]⟩, ?_⟩)
    exact List.forall_mem_cons.2 ⟨trivial, List.forall_mem_singleton.2 trivial⟩
  obtain ⟨hmerge, hmergeFields, hunify⟩ := wellFormed_merged
  refine ⟨hmerge _ _ hunion huser, hmergeFields _ _ hfields hfields, hunify _ _ ?_⟩
  exact List.forall_mem_cons.2 ⟨List.forall_mem_singleton.2 hunion,
    List.forall_mem_singleton.2 (List.forall_mem_singleton.2 huser)⟩

end ResponseTypes.Shape
