import ResponseTypes.Proofs.Assoc
import ResponseTypes.Shape.Merge

/-!
# Labels of branches

A union has one place for the objects of each concrete type and one for each key of other shapes: a branch goes to the place
of its `Shape.label`.  `addBranch_cases` says all that adding a branch does: it stands last if its place is new, and else it
is merged into the first branch at its place, which changes objects only.  `occursIn_iff` and `mem_appendParts` are about
the parts of an intersection, whose places are their keys.
-/

namespace ResponseTypes.Shape

set_option autoImplicit false

/-- The place of a branch in a union. -/
inductive Label where
  | object (typeName : String)
  | other (key : ShapeKey)
deriving DecidableEq

/-- Objects stand at the place of their type, other shapes at that of their key. -/
def label : Shape → Label
  | object typeName _ _ => .object typeName
  | s => .other (key false s)

/-- The branches of a union after some are added. -/
def addBranches (below : Shape → Shape → Shape) (acc shapes : List Shape) : List Shape :=
  shapes.foldl (addBranch below) acc

variable {below below' : Shape → Shape → Shape} {a b s : Shape} {l acc : List Shape}

theorem isObjectOf_iff {typeName : String} : isObjectOf typeName s = true ↔ label s = .object typeName := by
  cases s <;> simp [isObjectOf, label]

theorem exists_object_of_label {typeName : String} (h : label s = .object typeName) :
    ∃ fields n, s = object typeName fields n := by
  cases s with
  | object typeName' fields n => exact ⟨fields, n, by rw [Label.object.inj h]⟩
  | scalar | tag | array | union | inter | ref => cases h

/-- Shapes at one place that are no objects have one key. -/
theorem key_eq_of_label (h : label a = label b) (hb : ∀ typeName, label b ≠ .object typeName) :
    key false a = key false b := by
  cases b with
  | object typeName fields n => exact absurd rfl (hb typeName)
  | scalar | tag | array | union | inter | ref => cases a <;> simp_all [label]

theorem label_of_key (h : key false a = key false b) (hb : ∀ typeName, label b ≠ .object typeName) : label a = label b := by
  cases b with
  | object typeName fields n => exact absurd rfl (hb typeName)
  | scalar | tag | array | union | inter | ref =>
    cases a with
    | object => exact absurd h (by simp [key])
    | scalar | tag | array | union | inter | ref => simp [label, h]

@[simp] theorem label_mergeObjects : label (mergeObjects below a b) = label a := by
  unfold mergeObjects
  split <;> rfl

/-- Only two objects are changed by being merged as objects. -/
theorem mergeObjects_eq_left (hb : ∀ typeName, label b ≠ .object typeName) : mergeObjects below a b = a := by
  unfold mergeObjects
  split
  · exact absurd rfl (hb _)
  · rfl

theorem isUnion_mergeObjects : (mergeObjects below a b).isUnion = a.isUnion := by
  unfold mergeObjects
  split <;> rfl

/-- A shape occurs in a list when something there has its key. -/
theorem occursIn_iff : s.occursIn l = true ↔ key false s ∈ l.map (key false) := by
  simp only [occursIn, identical, List.any_eq_true, decide_eq_true_eq, List.mem_map]
  exact exists_congr fun t => and_congr_right fun _ => eq_comm

/-- A list that has something satisfying `p`, taken apart at the first such thing, which `updateFirst` changes. -/
theorem exists_updateFirst {p : Shape → Bool} (f : Shape → Shape) (h : l.any p = true) :
    ∃ pre first post, l = pre ++ first :: post ∧ p first = true ∧ (∀ t ∈ pre, p t = false) ∧
      updateFirst p f l = pre ++ f first :: post := by
  induction l with
  | nil => simp at h
  | cons t rest ih =>
    cases ht : p t with
    | true => exact ⟨[], t, rest, rfl, ht, by simp, by simp [updateFirst, ht]⟩
    | false =>
      obtain ⟨pre, first, post, hrest, hfirst, hpre, hupdate⟩ := ih (by simpa [ht] using h)
      refine ⟨t :: pre, first, post, by rw [hrest, List.cons_append], hfirst, ?_, by simp [updateFirst, ht, hupdate]⟩
      exact List.forall_mem_cons.2 ⟨ht, hpre⟩

/-- What adding a branch does: it stands last, or it is merged into the first branch at its place. -/
theorem addBranch_cases (below : Shape → Shape → Shape) (acc : List Shape) (s : Shape) :
    (label s ∉ acc.map label ∧ addBranch below acc s = acc ++ [s]) ∨
      ∃ pre first post, acc = pre ++ first :: post ∧ label first = label s ∧ label s ∉ pre.map label ∧
        addBranch below acc s = pre ++ mergeObjects below first s :: post := by
  by_cases hs : ∃ typeName, label s = .object typeName
  · obtain ⟨typeName, hlabel⟩ := hs
    obtain ⟨fields, n, rfl⟩ := exists_object_of_label hlabel
    by_cases hany : acc.any (isObjectOf typeName) = true
    · obtain ⟨pre, first, post, hacc, hfirst, hpre, hupdate⟩ :=
        exists_updateFirst (fun first => mergeObjects below first (object typeName fields n)) hany
      refine Or.inr ⟨pre, first, post, hacc, isObjectOf_iff.1 hfirst, fun hmem => ?_, ?_⟩
      · obtain ⟨t, ht, hlabel'⟩ := List.mem_map.1 hmem
        exact absurd (isObjectOf_iff.2 (hlabel'.trans hlabel)) (by simp [hpre t ht])
      · rw [addBranch, if_pos hany, hupdate]
    · refine Or.inl ⟨fun hmem => hany ?_, by rw [addBranch, if_neg hany]⟩
      obtain ⟨t, ht, hlabel'⟩ := List.mem_map.1 hmem
      exact List.any_eq_true.2 ⟨t, ht, isObjectOf_iff.2 (hlabel'.trans hlabel)⟩
  · have hother : ∀ typeName, label s ≠ .object typeName := fun typeName h => hs ⟨typeName, h⟩
    have hadd : addBranch below acc s = if s.occursIn acc then acc else acc ++ [s] := by
      unfold addBranch
      split
      · exact absurd rfl (hother _)
      · rfl
    by_cases hmem : label s ∈ acc.map label
    · have hany : acc.any (fun t => identical s t) = true := by
        obtain ⟨t, ht, hlabel⟩ := List.mem_map.1 hmem
        exact List.any_eq_true.2 ⟨t, ht, decide_eq_true (key_eq_of_label hlabel hother).symm⟩
      obtain ⟨pre, first, post, hacc, hfirst, hpre, -⟩ := exists_updateFirst id hany
      refine Or.inr ⟨pre, first, post, hacc, label_of_key (of_decide_eq_true hfirst).symm hother, fun hmem => ?_, ?_⟩
      · obtain ⟨t, ht, hlabel⟩ := List.mem_map.1 hmem
        exact absurd (hpre t ht) (by simp [identical, key_eq_of_label hlabel hother])
      · rw [hadd, occursIn, if_pos hany, mergeObjects_eq_left hother, hacc]
    · refine Or.inl ⟨hmem, ?_⟩
      rw [hadd, if_neg]
      intro hoccurs
      obtain ⟨t, ht, hkey⟩ := List.mem_map.1 (occursIn_iff.1 hoccurs)
      exact hmem (List.mem_map.2 ⟨t, ht, label_of_key hkey hother⟩)

/-- The places of the branches after one is added. -/
theorem labels_addBranch : (addBranch below acc s).map label =
    if label s ∈ acc.map label then acc.map label else acc.map label ++ [label s] := by
  rcases addBranch_cases below acc s with ⟨hnew, hadd⟩ | ⟨pre, first, post, rfl, hlabel, -, hadd⟩
  · rw [hadd, if_neg hnew, List.map_append, List.map_singleton]
  · have hmem : label s ∈ (pre ++ first :: post).map label := List.mem_map.2 ⟨first, by simp, hlabel⟩
    rw [hadd, if_pos hmem]
    simp

/-- What merging objects keeps, adding branches keeps. -/
theorem forall_addBranches {Q : Shape → Prop} (hmerge : ∀ a b, Q a → Q b → Q (mergeObjects below a b))
    (hacc : ∀ t ∈ acc, Q t) (hl : ∀ t ∈ l, Q t) : ∀ t ∈ addBranches below acc l, Q t := by
  refine List.foldlRecOn (motive := fun acc => ∀ t ∈ acc, Q t) l (addBranch below) hacc fun acc hacc s hs => ?_
  rcases addBranch_cases below acc s with ⟨-, hadd⟩ | ⟨pre, first, post, rfl, -, -, hadd⟩
  · rw [hadd]
    exact List.forall_mem_append.2 ⟨hacc, List.forall_mem_singleton.2 (hl s hs)⟩
  · obtain ⟨hpre, hfirst, hpost⟩ : _ ∧ _ ∧ _ := by simpa [or_imp, forall_and] using hacc
    rw [hadd]
    exact List.forall_mem_append.2 ⟨hpre, List.forall_mem_cons.2 ⟨hmerge first s hfirst (hl s hs), hpost⟩⟩

/-- What is added depends only on how the objects that are there are merged with the new one. -/
theorem addBranch_congr (h : ∀ first ∈ acc, mergeObjects below first s = mergeObjects below' first s) :
    addBranch below acc s = addBranch below' acc s := by
  unfold addBranch
  split
  · rename_i typeName fields n
    split
    · clear * - h
      induction acc with
      | nil => rfl
      | cons first rest ih =>
        obtain ⟨hfirst, hrest⟩ := List.forall_mem_cons.1 h
        rw [updateFirst, updateFirst, hfirst, ih hrest]
    · rfl
  · rfl

theorem mem_appendParts {parts more : List Shape} (hs : s ∈ appendParts parts more) : s ∈ parts ∨ s ∈ more := by
  refine List.foldlRecOn (motive := fun acc => ∀ s ∈ acc, s ∈ parts ∨ s ∈ more) more _ (fun _ => Or.inl)
    (fun acc hacc t ht => ?_) s hs
  split
  · exact hacc
  · exact List.forall_mem_append.2 ⟨hacc, List.forall_mem_singleton.2 (Or.inr ht)⟩

/-! ## Fields -/

variable {fields fields' : Fields}

theorem exists_mem_mergeFieldsWith {P : String → Shape → Prop} :
    (∃ e ∈ mergeFieldsWith below fields fields', P e.1 e.2) ↔
      (∃ e ∈ fields, P e.1 (match Assoc.get? fields' e.1 with
        | some s => below e.2 s
        | none => e.2)) ∨ ∃ e ∈ fields', Assoc.has fields e.1 = false ∧ P e.1 e.2 := by
  constructor
  · rintro ⟨e, he, h⟩
    rcases List.mem_append.1 he with he | he
    · obtain ⟨e, he', rfl⟩ := List.mem_map.1 he
      exact Or.inl ⟨e, he', h⟩
    · rw [List.mem_filter, Bool.not_eq_true'] at he
      exact Or.inr ⟨e, he.1, he.2, h⟩
  · rintro (⟨e, he, h⟩ | ⟨e, he, hnot, h⟩)
    · exact ⟨_, List.mem_append_left _ (List.mem_map_of_mem he), h⟩
    · exact ⟨e, List.mem_append_right _ (List.mem_filter.2 ⟨he, by simpa using hnot⟩), h⟩

theorem keys_mergeFieldsWith : Assoc.keys (mergeFieldsWith below fields fields') =
    Assoc.keys fields ++ Assoc.keys (fields'.filter fun e => !Assoc.has fields e.1) := by
  simp [mergeFieldsWith, Assoc.keys, Function.comp_def]

theorem nodup_mergeFieldsWith (h : (Assoc.keys fields).Nodup) (h' : (Assoc.keys fields').Nodup) :
    (Assoc.keys (mergeFieldsWith below fields fields')).Nodup := by
  rw [keys_mergeFieldsWith]
  refine List.nodup_append.2 ⟨h, Assoc.nodup_keys_filter h' _, fun k hk k' hk' heq => ?_⟩
  subst heq
  obtain ⟨e, he, rfl⟩ := List.mem_map.1 hk'
  have hnone : Assoc.get? fields e.1 = none := by simpa [Assoc.has] using (List.mem_filter.1 he).2
  exact Assoc.get?_eq_none.1 hnone hk

/-- What stands under a key of merged fields. -/
theorem get?_mergeFieldsWith (k : String) : Assoc.get? (mergeFieldsWith below fields fields') k =
    Option.merge below (Assoc.get? fields k) (Assoc.get? fields' k) := by
  rw [mergeFieldsWith, Assoc.get?_append, Assoc.get?_map, Assoc.get?_filter_keys fun k => !Assoc.has fields k, Assoc.has]
  cases Assoc.get? fields k with
  | some s => cases hk : Assoc.get? fields' k <;> simp [hk]
  | none => cases Assoc.get? fields' k <;> rfl

/-- What holds of the entries of two maps holds of the merged ones, if merging keeps it under each key. -/
theorem forall_mergeFieldsWith {P : String → Shape → Prop} (h : ∀ e ∈ fields, P e.1 e.2) (h' : ∀ e ∈ fields', P e.1 e.2)
    (hmerge : ∀ key a b, P key a → P key b → P key (below a b)) :
    ∀ e ∈ mergeFieldsWith below fields fields', P e.1 e.2 := by
  intro e he
  rcases List.mem_append.1 he with he | he
  · obtain ⟨e', he', rfl⟩ := List.mem_map.1 he
    dsimp only
    split
    · rename_i s hs
      exact hmerge _ _ _ (h e' he') (h' _ (Assoc.mem_of_get? hs))
    · exact h e' he'
  · exact h' e (List.mem_filter.1 he).1

end ResponseTypes.Shape
