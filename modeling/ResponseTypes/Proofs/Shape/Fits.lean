import ResponseTypes.Proofs.Shape.Labels
import ResponseTypes.Shape.Simplify

/-!
# Tags among fields

Among the own fields of an object that is being compiled, tags stay tags and nothing else becomes one: `Shape.Fits w`, a tag
names its values alone or within the abstract type `w`, and a union holds something that is no tag.  Merging keeps that
(`fits_merge`), so that tags that meet under one key can be united; and then simplifying neither makes nor drops a tag
(`isTag_simplify`).
-/

namespace ResponseTypes

set_option autoImplicit false

namespace Shape

/-- The shape is neither a tag nor a union. -/
def Plain : Shape → Prop
  | tag _ _ | union _ _ => False
  | _ => True

/-- A tag names values alone or within `w`; a union has a branch that is neither a tag nor a union. -/
def Fits (w : Option String) : Shape → Prop
  | tag t _ => t.within = none ∨ t.within = w
  | union branches _ => ∃ s ∈ branches, s.Plain
  | _ => True

variable {w : Option String} {a b s : Shape}

theorem fits_of_plain (h : s.Plain) : s.Fits w := by
  cases s <;> first | exact trivial | exact h.elim

theorem Fits.mono (h : s.Fits none) (w : Option String) : s.Fits w := by
  cases s <;> first | exact trivial | exact h | exact Or.inl (h.elim id id)

@[simp] theorem plain_withNote (n : Note) : (s.withNote n).Plain ↔ s.Plain := by
  cases s <;> rfl

@[simp] theorem fits_withNote (n : Note) : (s.withNote n).Fits w ↔ s.Fits w := by
  cases s <;> rfl

theorem isTag_of_plain (h : s.Plain) : s.isTag = false := by
  cases s <;> first | rfl | exact h.elim

/-- What is identical to a shape is of its kind. -/
theorem plain_of_identical (h : identical a b) (ha : a.Plain) : b.Plain := by
  have hkey := of_decide_eq_true h
  cases a <;> cases b <;> first | exact trivial | exact ha.elim | simp [key] at hkey

/-- Adding shapes one by one leaves a plain one, if none gets lost. -/
theorem exists_plain_foldl {f : List Shape → Shape → List Shape} {l acc : List Shape}
    (hf : ∀ acc s, (∃ s' ∈ acc, s'.Plain) ∨ s.Plain → ∃ s' ∈ f acc s, s'.Plain)
    (h : (∃ s ∈ acc, s.Plain) ∨ ∃ s ∈ l, s.Plain) : ∃ s ∈ l.foldl f acc, s.Plain := by
  induction l generalizing acc with
  | nil => exact h.resolve_right (by simp)
  | cons s l ih =>
    refine ih ?_
    rcases h with h | ⟨s', hs', hplain⟩
    · exact Or.inl (hf acc s (Or.inl h))
    · rcases List.mem_cons.1 hs' with rfl | hs'
      · exact Or.inl (hf acc s' (Or.inr hplain))
      · exact Or.inr ⟨s', hs', hplain⟩

/-! ## Merging -/

section Merge

variable {below : Shape → Shape → Shape} {branches shapes : List Shape}

theorem exists_plain_updateFirst {p : Shape → Bool} {f : Shape → Shape} (hf : ∀ s, p s → s.Plain → (f s).Plain)
    (h : ∃ s ∈ branches, s.Plain) : ∃ s ∈ updateFirst p f branches, s.Plain := by
  induction branches with
  | nil => exact h
  | cons first rest ih =>
    obtain ⟨s, hs, hplain⟩ := h
    rw [updateFirst]
    split
    · rename_i hp
      rcases List.mem_cons.1 hs with rfl | hs
      · exact ⟨_, List.mem_cons_self, hf s hp hplain⟩
      · exact ⟨s, List.mem_cons_of_mem _ hs, hplain⟩
    · rcases List.mem_cons.1 hs with rfl | hs
      · exact ⟨s, List.mem_cons_self, hplain⟩
      · obtain ⟨s', hs', hplain'⟩ := ih ⟨s, hs, hplain⟩
        exact ⟨s', List.mem_cons_of_mem _ hs', hplain'⟩

theorem plain_mergeObjects (ha : a.Plain) : (mergeObjects below a b).Plain := by
  cases a <;> cases b <;> first | exact trivial | exact ha.elim

/-- A branch that is plain stays so when others are added. -/
theorem exists_plain_addBranch (h : (∃ s' ∈ branches, s'.Plain) ∨ s.Plain) :
    ∃ s' ∈ addBranch below branches s, s'.Plain := by
  have happend : (∃ s' ∈ branches, s'.Plain) ∨ s.Plain → ∃ s' ∈ branches ++ [s], s'.Plain := by
    rintro (⟨s', hs', hplain⟩ | hplain)
    · exact ⟨s', List.mem_append_left _ hs', hplain⟩
    · exact ⟨s, by simp, hplain⟩
  have hother : ∃ s' ∈ (if s.occursIn branches then branches else branches ++ [s]), s'.Plain := by
    split
    · rename_i hoccurs
      refine h.elim id fun hplain => ?_
      obtain ⟨s', hs', hsame⟩ := List.any_eq_true.1 hoccurs
      exact ⟨s', hs', plain_of_identical hsame hplain⟩
    · exact happend h
  cases s with
  | object typeName fields n =>
    unfold addBranch
    dsimp only
    split
    · rename_i hany
      obtain ⟨first, hfirst, hobject⟩ := List.any_eq_true.1 hany
      refine exists_plain_updateFirst (fun s' _ hs' => plain_mergeObjects hs') ⟨first, hfirst, ?_⟩
      cases first <;> first | exact trivial | cases hobject
    · exact happend h
  | scalar | tag | array | union | inter | ref => exact hother

/-- A plain branch of some shapes leaves one in their union. -/
theorem exists_plain_unifyWith (h : ∃ s ∈ flatList shapes, s.Plain) : ∃ s ∈ unifyWith below shapes, s.Plain :=
  exists_plain_foldl (fun _ _ => exists_plain_addBranch) (Or.inr h)

theorem mem_flatList_of_plain (hs : s ∈ shapes) (hplain : s.Plain) : s ∈ flatList shapes := by
  induction shapes with
  | nil => cases hs
  | cons first rest ih =>
    rw [flatList]
    rcases List.mem_cons.1 hs with rfl | hs
    · refine List.mem_append_left _ ?_
      cases s <;> first | exact hplain.elim | exact List.mem_singleton_self _
    · exact List.mem_append_right _ (ih hs)

theorem flatList_append (l more : List Shape) : flatList (l ++ more) = flatList l ++ flatList more := by
  induction l with
  | nil => rfl
  | cons s l ih => simp [flatList, ih]

/-- A shape that fits and is no tag has a plain branch. -/
theorem exists_plain_flatBranches (h : s.Fits w) (htag : s.isTag = false) : ∃ s' ∈ flatBranches s, s'.Plain := by
  cases s with
  | tag t n => cases htag
  | union branches n =>
    obtain ⟨s', hs', hplain⟩ := h
    exact ⟨s', mem_flatList_of_plain hs' hplain, hplain⟩
  | scalar | object | array | inter | ref => exact ⟨_, List.mem_singleton_self _, trivial⟩

/-- The union of two shapes of which one is no tag. -/
theorem fits_unify_pair (ha : a.Fits w) (hb : b.Fits w) (htag : a.isTag = false ∨ b.isTag = false) (n : Note) :
    (union (unifyWith below [a, b]) n).Fits w := by
  refine exists_plain_unifyWith ?_
  simp only [flatList, List.append_nil]
  rcases htag with htag | htag
  · obtain ⟨s, hs, hplain⟩ := exists_plain_flatBranches ha htag
    exact ⟨s, List.mem_append_left _ hs, hplain⟩
  · obtain ⟨s, hs, hplain⟩ := exists_plain_flatBranches hb htag
    exact ⟨s, List.mem_append_right _ hs, hplain⟩

/-- Tags that name values alone or within one type have a tag for the values of both. -/
theorem exists_uniteTags {t t' : TypeTag} (h : t.within = none ∨ t.within = w) (h' : t'.within = none ∨ t'.within = w) :
    ∃ u, uniteTags t t' = some u ∧ (u.within = none ∨ u.within = w) := by
  obtain ⟨names, within⟩ := t
  obtain ⟨names', within'⟩ := t'
  cases within with
  | none =>
    cases within' with
    | none => exact ⟨_, rfl, Or.inl rfl⟩
    | some v' => exact ⟨_, rfl, h'⟩
  | some v =>
    cases within' with
    | none => exact ⟨_, rfl, h⟩
    | some v' =>
      have hv : v = v' := Option.some.inj ((h.resolve_left nofun).trans (h'.resolve_left nofun).symm)
      exact ⟨_, if_pos hv, h⟩

theorem fits_mergeMismatched (ha : a.Fits w) (hb : b.Fits w) (htag : a.isTag = false ∨ b.isTag = false) :
    (mergeMismatched below a b).Fits w := by
  unfold mergeMismatched
  dsimp only
  split <;> first | exact trivial | exact fits_unify_pair ha hb htag _

theorem fits_mergeWith (ha : a.Fits w) (hb : b.Fits w) : (mergeWith below a b).Fits w := by
  unfold mergeWith
  dsimp only
  split
  · split
    · exact trivial
    · exact fits_unify_pair ((fits_withNote _).2 ha) ((fits_withNote _).2 hb) (Or.inl rfl) _
  · rename_i t m t' m'
    obtain ⟨u, hu, hwithin⟩ := exists_uniteTags ha hb
    rw [hu]
    exact hwithin
  · exact trivial
  · exact trivial
  · rename_i branches n branches' n'
    obtain ⟨s, hs, hplain⟩ := ha
    refine exists_plain_unifyWith ⟨s, ?_, hplain⟩
    rw [flatList_append]
    exact List.mem_append_left _ (mem_flatList_of_plain hs hplain)
  · exact trivial
  · split <;> exact trivial
  · rename_i h₁ h₂ h₃ h₄ h₅ h₆ h₇
    refine fits_mergeMismatched ha hb ?_
    cases a <;> cases b <;> first | exact Or.inl rfl | exact Or.inr rfl | exact absurd rfl (h₂ _ _ _ _ rfl)

theorem fits_merge (ha : a.Fits w) (hb : b.Fits w) : (merge a b).Fits w := by
  unfold merge
  cases max a.nesting b.nesting <;> exact fits_mergeWith ha hb

end Merge

/-! ## Fields -/

/-- The keys are distinct, and what stands under them fits. -/
structure Tidy (w : Option String) (fields : Fields) : Prop where
  nodup : (Assoc.keys fields).Nodup
  fits : ∀ e ∈ fields, e.2.Fits w

variable {fields fields' : Fields}

theorem tidy_nil : Tidy w [] :=
  ⟨List.nodup_nil, by simp⟩

theorem Tidy.mono (h : Tidy none fields) (w : Option String) : Tidy w fields :=
  ⟨h.nodup, fun e he => (h.fits e he).mono w⟩

theorem tidy_insert (h : Tidy w fields) (hs : s.Fits w) (key : String) : Tidy w (Assoc.insert fields key s) where
  nodup := Assoc.nodup_keys_insert h.nodup key s
  fits e he := by
    rcases Assoc.mem_insert he with rfl | he
    · exact hs
    · exact h.fits e he

theorem fits_mergeInto {a : Option Shape} (ha : ∀ s ∈ a, s.Fits w) (hs : s.Fits w) : (mergeInto a s).Fits w := by
  cases a with
  | none => exact hs
  | some a => exact fits_merge (ha a rfl) hs

theorem keys_mergeFields (a b : Fields) :
    Assoc.keys (mergeFields a b) = Assoc.keys a ++ Assoc.keys (b.filter fun e => !Assoc.has a e.1) :=
  keys_mergeFieldsWith

theorem mem_keys_mergeFields {a b : Fields} {k : String} :
    k ∈ Assoc.keys (mergeFields a b) ↔ k ∈ Assoc.keys a ∨ k ∈ Assoc.keys b := by
  rw [keys_mergeFields, List.mem_append]
  by_cases hk : k ∈ Assoc.keys a
  · simp [hk]
  · simp only [hk, false_or]
    constructor
    · intro h
      obtain ⟨e, he, rfl⟩ := List.mem_map.1 h
      exact List.mem_map_of_mem (List.mem_filter.1 he).1
    · intro h
      obtain ⟨e, he, rfl⟩ := List.mem_map.1 h
      exact List.mem_map_of_mem (List.mem_filter.2 ⟨he, by simpa [Assoc.has, Assoc.get?_eq_none] using hk⟩)

theorem tidy_mergeFields (h : Tidy w fields) (h' : Tidy w fields') : Tidy w (mergeFields fields fields') where
  nodup := nodup_mergeFieldsWith h.nodup h'.nodup
  fits := forall_mergeFieldsWith (P := fun _ s => s.Fits w) h.fits h'.fits fun _ _ _ => fits_merge

/-! ## Simplifying -/

theorem plain_simplify (h : s.Plain) : (simplify s).Plain := by
  cases s <;> first | exact trivial | exact h.elim

theorem simplifyList_eq (shapes : List Shape) : simplifyList shapes = shapes.map simplify := by
  induction shapes with
  | nil => rfl
  | cons s rest ih => rw [simplifyList, ih, List.map_cons]

theorem simplifyFields_eq (fields : Fields) : simplifyFields fields = fields.map fun e => (e.1, simplify e.2) := by
  induction fields with
  | nil => rfl
  | cons e rest ih => rw [simplifyFields, ih, List.map_cons]

/-- What takes up a branch is plain if one of the two is. -/
theorem exists_plain_absorb {shapes : List Shape} (h : (∃ s' ∈ shapes, s'.Plain) ∨ s.Plain) :
    ∃ s' ∈ absorb s shapes, s'.Plain := by
  induction shapes with
  | nil => exact ⟨s, List.mem_singleton_self s, h.resolve_left (by simp)⟩
  | cons first rest ih =>
    rw [absorb]
    split
    · rename_i both hboth
      split at hboth
      · refine ⟨both, List.mem_cons_self, ?_⟩
        cases first <;> cases s <;> simp [combine] at hboth
        obtain ⟨fs, -, rfl⟩ := hboth
        trivial
      · cases hboth
    · rcases h with ⟨s', hs', hplain⟩ | hplain
      · rcases List.mem_cons.1 hs' with rfl | hs'
        · exact ⟨s', List.mem_cons_self, hplain⟩
        · obtain ⟨s'', hs'', hplain'⟩ := ih (Or.inl ⟨s', hs', hplain⟩)
          exact ⟨s'', List.mem_cons_of_mem _ hs'', hplain'⟩
      · obtain ⟨s'', hs'', hplain'⟩ := ih (Or.inr hplain)
        exact ⟨s'', List.mem_cons_of_mem _ hs'', hplain'⟩

theorem exists_plain_combineBranches {shapes : List Shape} (h : ∃ s ∈ shapes, s.Plain) :
    ∃ s ∈ combineBranches shapes, s.Plain :=
  exists_plain_foldl (fun _ _ => exists_plain_absorb) (Or.inr h)

/-- Simplifying makes no tag of what fits, and leaves tags. -/
theorem isTag_simplify (h : s.Fits w) : (simplify s).isTag = s.isTag := by
  cases s with
  | union branches n =>
    obtain ⟨s, hs, hplain⟩ := h
    have hsimple : ∃ s ∈ combineBranches (simplifyList branches), s.Plain := by
      refine exists_plain_combineBranches ⟨simplify s, ?_, plain_simplify hplain⟩
      rw [simplifyList_eq]
      exact List.mem_map_of_mem hs
    rw [simplify, unionOf]
    split
    · rename_i s' hs'
      rw [hs'] at hsimple
      obtain ⟨s'', hs'', hplain'⟩ := hsimple
      rw [List.mem_singleton.1 hs''] at hplain'
      exact isTag_of_plain ((plain_withNote _).2 hplain')
    · rfl
  | scalar | tag | object | array | inter | ref => rfl

theorem simplify_of_isTag (h : s.isTag = true) : simplify s = s := by
  cases s <;> first | rfl | cases h

end Shape

end ResponseTypes
