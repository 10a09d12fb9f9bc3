import ResponseTypes.Proofs.Shape.Combine
import ResponseTypes.Proofs.Shape.Fits
import ResponseTypes.Proofs.Shape.Forms

/-!
# Normal forms

Two branches are `Combinable` when they are objects that differ in nothing but tags and each tag can be united with its
counterpart.  A shape is in `normal` form if no union in it has one branch, or two that are combinable.

A branch that is added goes into the first that it is combinable with, or else stands last (`absorb_united_or_append`).
Uniting tags only ever puts them within an abstract type, so that branches which were not combinable stay so
(`Combinable.of_united_left`, `Combinable.of_united_right`).  Therefore simplifying reaches a normal form at once and changes
nothing more (`simplify_normal`).
-/

namespace ResponseTypes.Shape

set_option autoImplicit false

/-- Each tag among the fields can be united with that of the others under its key. -/
def TagsUnite (fields others : Fields) : Prop :=
  ∀ k t n, (k, tag t n) ∈ fields → ∃ t' n' u, Assoc.get? others k = some (tag t' n') ∧ uniteTags t t' = some u

/-- Objects that differ in nothing but tags, which can be united. -/
def Combinable (a b : Shape) : Prop :=
  alike a b = true ∧ TagsUnite a.fields b.fields

/-- What is asked of a shape in normal form. -/
def normal : Form where
  branches branches := branches.length ≠ 1 ∧ branches.Pairwise fun a b => ¬Combinable a b

variable {t t' u v : TypeTag} {fields others united : Fields} {a b x : Shape} {acc l : List Shape} {typeName : String}
  {n : Note}

/-! ## Tags that can be united -/

/-- Only tags within different abstract types cannot be united. -/
theorem exists_uniteTags_iff : (∃ u, uniteTags t t' = some u) ↔ ∀ w ∈ t.within, ∀ w' ∈ t'.within, w = w' := by
  unfold uniteTags
  split
  · rename_i h _
    simp [h]
  · rename_i _ h
    simp [h]
  · rename_i h _
    simp [h]
  · rename_i w w' h h'
    by_cases hw : w = w' <;> simp [h, h', hw]

/-- A united tag is within the abstract types that one of the two is within. -/
theorem within_uniteTags (h : uniteTags t t' = some u) : u.within = t.within.or t'.within := by
  unfold uniteTags at h
  split at h
  · rename_i hw hw'
    cases h
    simp [hw, hw', TypeTag.ofNames]
  · rename_i hw hw'
    cases h
    simp [hw]
  · rename_i hw hw'
    cases h
    simp [hw, hw']
  · rename_i hw hw'
    split at h <;> cases h
    simp [hw]

/-- What the united tag can be united with, the first of the two can. -/
theorem exists_uniteTags_of_united (h : uniteTags t t' = some u) (hu : ∀ w ∈ u.within, ∀ w' ∈ v.within, w = w') :
    ∀ w ∈ t.within, ∀ w' ∈ v.within, w = w' := by
  intro w hw
  refine hu w ?_
  rw [within_uniteTags h, Option.mem_def.1 hw]
  rfl

/-! ## Branches that can be combined -/

theorem exists_uniteFieldTags_iff : (∃ united, uniteFieldTags others fields = some united) ↔ TagsUnite fields others := by
  refine ⟨?_, fun h => (forall₂_uniteFieldTags others fields h).imp fun _ h => h.1⟩
  rintro ⟨united, h⟩
  induction fields generalizing united with
  | nil => exact fun _ _ _ => nofun
  | cons e rest ih =>
    obtain ⟨k, s⟩ := e
    intro k' t n hmem
    unfold uniteFieldTags at h
    split at h
    · rename_i t₀ n₀
      split at h
      · rename_i t' n' hget
        obtain ⟨u, hu, h⟩ := Option.bind_eq_some_iff.1 h
        obtain ⟨r, hr, -⟩ := Option.bind_eq_some_iff.1 h
        rcases List.mem_cons.1 hmem with heq | hmem
        · cases heq
          exact ⟨t', n', u, hget, hu⟩
        · exact ih r hr k' t n hmem
      · cases h
    · rename_i htag
      obtain ⟨r, hr, -⟩ := Option.map_eq_some_iff.1 h
      rcases List.mem_cons.1 hmem with heq | hmem
      · cases heq
        exact absurd rfl (htag t n)
      · exact ih r hr k' t n hmem

/-- In maps of fields it does not matter which of two branches stands first. -/
theorem Combinable.symm (h : Combinable a b) (ha : (Assoc.keys a.fields).Nodup) (hb : (Assoc.keys b.fields).Nodup) :
    Combinable b a := by
  obtain ⟨halike, hunite⟩ := h
  unfold alike at halike
  split at halike
  · rename_i typeName fields n typeName' others n'
    have hkey := (of_decide_eq_true halike).symm
    refine ⟨decide_eq_true hkey, fun k t' m' ht' => ?_⟩
    obtain ⟨t, m, ht⟩ := mem_anyTag.1 ((fieldKeys_perm hkey).mem_iff.1 (mem_anyTag.2 ⟨t', m', ht'⟩))
    obtain ⟨t'', m'', u, hget, hu⟩ := hunite k t m ht
    cases (Assoc.get?_of_mem hb ht').symm.trans hget
    have hwithin := exists_uniteTags_iff.1 ⟨u, hu⟩
    obtain ⟨u', hu'⟩ := exists_uniteTags_iff.2 fun w hw w' hw' => (hwithin w' hw' w hw).symm
    exact ⟨t, m, u', Assoc.get?_of_mem ha ht, hu'⟩
  · cases halike

/-- What comes of branches that can be combined: the first with its tags united. -/
theorem Combinable.exists_united (h : Combinable a b) : ∃ typeName fields n united, a = object typeName fields n ∧
    combine a b = some (object typeName united n) ∧ List.Forall₂ (United b.fields) fields united := by
  obtain ⟨halike, hunite⟩ := h
  unfold alike at halike
  split at halike
  · rename_i typeName fields n typeName' others n'
    obtain ⟨united, hunited, hall⟩ := forall₂_uniteFieldTags others fields hunite
    exact ⟨typeName, fields, n, united, rfl, by simp [combine, hunited], hall⟩
  · cases halike

theorem combine_of_not_combinable (h : ¬Combinable a b) : (if alike a b then combine a b else none) = none := by
  split
  · rename_i halike
    rw [Option.eq_none_iff_forall_ne_some]
    intro both hboth
    unfold combine at hboth
    split at hboth
    · obtain ⟨united, hunited, -⟩ := Option.map_eq_some_iff.1 hboth
      exact h ⟨halike, exists_uniteFieldTags_iff.1 ⟨united, hunited⟩⟩
    · cases hboth
  · rfl

/-- A branch goes into the first that it can be combined with, whose tags are united with its own, or else stands last. -/
theorem absorb_united_or_append (x : Shape) (acc : List Shape) :
    (∃ before typeName fields n after united, acc = before ++ object typeName fields n :: after ∧
      absorb x acc = before ++ object typeName united n :: after ∧ Combinable (object typeName fields n) x ∧
      List.Forall₂ (United x.fields) fields united) ∨
    (∀ b ∈ acc, ¬Combinable b x) ∧ absorb x acc = acc ++ [x] := by
  induction acc with
  | nil => exact Or.inr ⟨List.forall_mem_nil _, rfl⟩
  | cons first rest ih =>
    rw [absorb]
    by_cases hfirst : Combinable first x
    · obtain ⟨typeName, fields, n, united, rfl, hcombine, hall⟩ := hfirst.exists_united
      rw [if_pos hfirst.1, hcombine]
      exact Or.inl ⟨[], typeName, fields, n, rest, united, rfl, rfl, hfirst, hall⟩
    · rw [combine_of_not_combinable hfirst]
      rcases ih with ⟨before, typeName, fields, n, after, united, rfl, habsorb, h⟩ | ⟨hnone, habsorb⟩
      · exact Or.inl ⟨first :: before, typeName, fields, n, after, united, rfl, congrArg (first :: ·) habsorb, h⟩
      · exact Or.inr ⟨List.forall_mem_cons.2 ⟨hfirst, hnone⟩, congrArg (first :: ·) habsorb⟩

/-! ## What uniting tags leaves -/

theorem key_united (h : List.Forall₂ (United others) fields united) (typeName : String) (n : Note) :
    key true (object typeName united n) = key true (object typeName fields n) := by
  rw [key, key, fieldKeys_united h]

theorem get?_united (h : List.Forall₂ (United others) fields united) {k : String} (hu : Assoc.get? united k = some (tag u n)) :
    ∃ t t' m, Assoc.get? fields k = some (tag t m) ∧ uniteTags t t' = some u := by
  induction h with
  | nil => cases hu
  | @cons e e' rest rest' he _ ih =>
    rw [Assoc.get?_cons, he.fst] at hu
    rw [Assoc.get?_cons]
    split at hu
    · rename_i hk
      rw [if_pos hk]
      cases he with
      | kept hplain =>
        cases hu
        cases hplain
      | united _ hunite =>
        cases hu
        exact ⟨_, _, _, rfl, hunite⟩
    · rename_i hk
      rw [if_neg hk]
      exact ih hu

/-- What can be combined with a branch whose tags were united could be before. -/
theorem Combinable.of_united_left (hall : List.Forall₂ (United others) fields united)
    (h : Combinable (object typeName united n) b) : Combinable (object typeName fields n) b := by
  obtain ⟨halike, hunite⟩ := h
  refine ⟨?_, fun k t m ht => ?_⟩
  · cases b with
    | object typeName' fields' n' => rwa [alike, key_united hall] at halike
    | scalar | tag | array | union | inter | ref => cases halike
  · obtain ⟨e, he, hfield⟩ := exists_mem_right hall ht
    cases hfield with
    | kept hplain => cases hplain
    | united _ hu =>
      obtain ⟨v, m', r, hget, hr⟩ := hunite k _ _ he
      obtain ⟨r', hr'⟩ := exists_uniteTags_iff.2 (exists_uniteTags_of_united hu (exists_uniteTags_iff.1 ⟨r, hr⟩))
      exact ⟨v, m', r', hget, hr'⟩

theorem Combinable.of_united_right (hall : List.Forall₂ (United others) fields united)
    (h : Combinable a (object typeName united n)) : Combinable a (object typeName fields n) := by
  obtain ⟨halike, hunite⟩ := h
  refine ⟨?_, fun k t m ht => ?_⟩
  · cases a with
    | object typeName' fields' n' => rwa [alike, key_united hall] at halike
    | scalar | tag | array | union | inter | ref => cases halike
  · obtain ⟨u, m', r, hget, hr⟩ := hunite k t m ht
    obtain ⟨t', _, m'', hget', hu⟩ := get?_united hall hget
    have hwithin := exists_uniteTags_iff.1 ⟨r, hr⟩
    have hback := exists_uniteTags_of_united (v := t) hu fun w hw w' hw' => (hwithin w' hw' w hw).symm
    obtain ⟨r', hr'⟩ := exists_uniteTags_iff.2 fun w hw w' hw' => (hback w' hw' w hw).symm
    exact ⟨t', m'', r', hget', hr'⟩

/-! ## Combining all branches -/

theorem pairwise_absorb (h : acc.Pairwise fun a b => ¬Combinable a b) :
    (absorb x acc).Pairwise fun a b => ¬Combinable a b := by
  rcases absorb_united_or_append x acc with ⟨before, typeName, fields, n, after, united, rfl, habsorb, -, hall⟩ |
    ⟨hnone, habsorb⟩
  · rw [habsorb]
    rw [List.pairwise_append, List.pairwise_cons] at h ⊢
    obtain ⟨hbefore, ⟨hfirst, hafter⟩, hacross⟩ := h
    refine ⟨hbefore, ⟨fun b hb => mt (.of_united_left hall) (hfirst b hb), hafter⟩, fun a ha b hb => ?_⟩
    rcases List.mem_cons.1 hb with rfl | hb
    · exact mt (.of_united_right hall) (hacross a ha _ List.mem_cons_self)
    · exact hacross a ha b (List.mem_cons_of_mem _ hb)
  · rw [habsorb, List.pairwise_append]
    exact ⟨h, List.pairwise_singleton _ _, fun a ha b hb => List.mem_singleton.1 hb ▸ hnone a ha⟩

theorem pairwise_combineBranches (l : List Shape) : (combineBranches l).Pairwise fun a b => ¬Combinable a b :=
  List.foldlRecOn (motive := fun acc : List Shape => acc.Pairwise fun a b => ¬Combinable a b) l _ List.Pairwise.nil
    fun _ h _ _ => pairwise_absorb h

/-- Branches of which no two can be combined are left. -/
theorem combineBranches_eq_self (h : l.Pairwise fun a b => ¬Combinable a b) : combineBranches l = l := by
  have go : ∀ more acc : List Shape, (acc ++ more).Pairwise (fun a b => ¬Combinable a b) →
      more.foldl (fun acc s => absorb s acc) acc = acc ++ more := by
    intro more
    induction more with
    | nil => exact fun acc _ => (List.append_nil acc).symm
    | cons x more ih =>
      intro acc h
      have hlast : absorb x acc = acc ++ [x] := by
        rcases absorb_united_or_append x acc with ⟨before, typeName, fields, n, after, united, rfl, -, hcombinable, -⟩ |
          ⟨-, habsorb⟩
        · exact absurd hcombinable ((List.pairwise_append.1 h).2.2 _ (by simp) x List.mem_cons_self)
        · exact habsorb
      rw [List.foldl_cons, hlast, ih _ (by rwa [List.append_assoc]), List.append_assoc, List.singleton_append]
  exact go l [] h

/-! ## Simplifying -/

theorem formed_combine (ha : a.Formed normal) (h : combine a b = some x) : x.Formed normal := by
  obtain ⟨_, fields, _, _, others, _, united, rfl, rfl, hunited, rfl⟩ := exists_of_combine h
  exact formed_object.2 ⟨trivial, forall_uniteFieldTags (Q := fun _ s => s.Formed normal) (fun _ _ _ _ _ _ _ _ _ => trivial)
    (formed_object.1 ha).2 hunited⟩

theorem formed_unionOf (h : ∀ s ∈ l, s.Formed normal) : (unionOf l n).Formed normal := by
  have hcombined := forall_combineBranches (fun _ _ _ ha _ => formed_combine ha) h
  unfold unionOf
  split
  · rename_i s hs
    exact (formed_withNote _).2 (hcombined s (hs ▸ List.mem_singleton_self s))
  · rename_i hmany
    refine formed_union.2 ⟨⟨fun hone => ?_, pairwise_combineBranches l⟩, hcombined⟩
    obtain ⟨s, hs⟩ := List.length_eq_one_iff.1 hone
    exact hmany s hs

theorem formed_simplify (s : Shape) : (simplify s).Formed normal := by
  induction s using Shape.induction with
  | scalar | tag | ref => trivial
  | object typeName fields n ih =>
    rw [simplify, simplifyFields_eq]
    exact formed_object.2 ⟨trivial, List.forall_mem_map.2 ih⟩
  | array element elementNullable n ih => exact ih
  | union branches n ih =>
    rw [simplify, simplifyList_eq]
    exact formed_unionOf (List.forall_mem_map.2 ih)
  | inter parts n ih =>
    rw [simplify, simplifyList_eq]
    exact formed_inter.2 ⟨trivial, List.forall_mem_map.2 ih⟩

theorem map_simplify_eq_self (h : ∀ s ∈ l, simplify s = s) : l.map simplify = l :=
  (List.map_congr_left h).trans (List.map_id' l)

/-- Simplifying leaves normal forms. -/
theorem simplify_eq_self {s : Shape} (h : s.Formed normal) : simplify s = s := by
  induction s using Shape.induction with
  | scalar | tag | ref => rfl
  | object typeName fields n ih =>
    rw [simplify, simplifyFields_eq]
    have hfields : fields.map (fun e => (e.1, simplify e.2)) = fields := by
      refine (List.map_congr_left fun e he => ?_).trans (List.map_id' fields)
      rw [ih e he ((formed_object.1 h).2 e he)]
    rw [hfields]
  | array element elementNullable n ih => rw [simplify, ih h]
  | union branches n ih =>
    obtain ⟨⟨hmany, hapart⟩, hall⟩ := formed_union.1 h
    rw [simplify, simplifyList_eq, map_simplify_eq_self fun s hs => ih s hs (hall s hs), unionOf,
      combineBranches_eq_self hapart]
    split
    · exact absurd rfl hmany
    · rfl
  | inter parts n ih =>
    rw [simplify, simplifyList_eq, map_simplify_eq_self fun s hs => ih s hs ((formed_inter.1 h).2 s hs)]

@[simp] theorem nullable_simplify (s : Shape) : (simplify s).nullable = s.nullable := by
  cases s with
  | union branches n =>
    rw [simplify, unionOf]
    split
    · simp [nullable]
      rfl
    · rfl
  | scalar | tag | object | array | inter | ref => rfl

/-- Simplifying reaches a normal form, which simplifying again leaves, and keeps whether the value may be missing. -/
theorem simplify_normal (s : Shape) :
    simplify (simplify s) = simplify s ∧ (simplify s).Formed normal ∧ (simplify s).nullable = s.nullable :=
  ⟨simplify_eq_self (formed_simplify s), formed_simplify s, nullable_simplify s⟩

end ResponseTypes.Shape
