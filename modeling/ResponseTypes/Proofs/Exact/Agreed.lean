import ResponseTypes.Proofs.Exact.Conform
import ResponseTypes.Proofs.Exact.Partition
import ResponseTypes.Proofs.Shape.Keys

/-!
# Contributions that agree

Shapes that conform to one type and have one key hold the same (`holds_of_key`).  So if the contributions to a field are not in
conflict, the first of them has all that the others have (`holds_first`).
-/

namespace ResponseTypes.Compile

set_option autoImplicit false

open GraphQL (TypeDef TypeRef)
open Shape (EntryHolds conflict? mergeAll)

variable {c : Sources} {R : String → Prop} {generated : String → Option Shape} {names : List String → String} {t : TypeDef}
  {type : TypeRef} {nullable : Bool} {key k : String} {s a b : Shape} {path : List String}

/-- Entries that conform and have one key hold the same, if values do. -/
theorem entryHolds_of_key (hdistinct : c.DistinctNames)
    (hvalue : ∀ {names type nullable a b}, Conforms c R names type nullable a → Conforms c R names type nullable b →
      Shape.key false a = Shape.key false b → a.Holds generated path → b.Holds generated path)
    (ha : EntryConforms c R names t key a) (hb : EntryConforms c R names t key b)
    (hkey : Shape.key false a = Shape.key false b) (h : EntryHolds generated key a (k :: path)) :
    EntryHolds generated key b (k :: path) := by
  rw [EntryHolds] at h ⊢
  cases ha with
  | tag hk =>
    rw [if_neg (by simp [hk])] at h ⊢
    refine ⟨h.1, ?_⟩
    cases path with
    | nil => exact Shape.holds_nil
    | cons j path => exact absurd h.2 Shape.not_holds_tag
  | field hk hname hf ha =>
    rw [if_neg (by simp [hk])] at h ⊢
    cases hb with
    | tag _ hname' => exact absurd hname' hname
    | field _ _ hf' hb =>
      cases hf.symm.trans hf'
      exact ⟨h.1, hvalue ha hb hkey h.2⟩
    | spread hk' =>
      rw [hk', isFragmentKey_fragmentKey] at hk
      cases hk
  | @spread _ _ _ f _ hk _ hf =>
    cases hb with
    | tag hk' | field hk' =>
      rw [hk, isFragmentKey_fragmentKey] at hk'
      cases hk'
    | @spread _ _ _ f' _ hk' _ hf' =>
      have hname := hdistinct _ f _ f' hf hf' (fragmentKey_inj (hk.symm.trans hk'))
      rw [hname] at hf
      cases hf.symm.trans hf'
      rw [if_pos (by simp [hk, isFragmentKey_fragmentKey])] at h ⊢
      obtain ⟨u, hu, hpath⟩ := h
      cases hu with
      | ref hs homitted hu => exact ⟨u, .ref hs homitted hu, hpath⟩

/-- Shapes that conform to one type and have one key hold the same. -/
theorem holds_of_key (hdistinct : c.DistinctNames) (ha : Conforms c R names type nullable a)
    (hb : Conforms c R names type nullable b) (hkey : Shape.key false a = Shape.key false b)
    (h : a.Holds generated path) : b.Holds generated path := by
  induction path generalizing names type nullable a b with
  | nil => exact Shape.holds_nil
  | cons k path ih =>
    induction type generalizing nullable a b with
    | nonNull type ihType =>
      cases ha with
      | nonNull ha =>
        cases hb with
        | nonNull hb => exact ihType ha hb hkey h
    | list type ihType =>
      cases ha with
      | list _ ha =>
        cases hb with
        | list _ hb =>
          simp only [Shape.key, ShapeKey.seq.injEq, List.cons.injEq, true_and] at hkey
          rw [Shape.holds_array] at h ⊢
          exact ihType ha hb hkey.1 h
    | named name =>
      cases ha with
      | leaf => exact absurd h Shape.not_holds_scalar
      | object _ ht hobject hnodup hentries =>
        cases hb with
        | leaf => simp [Shape.key] at hkey
        | object _ ht' _ _ hentries' =>
          cases ht.symm.trans ht'
          rw [Shape.holds_object] at h ⊢
          obtain ⟨⟨key, s⟩, he, hpath⟩ := h
          have hmem := (Shape.perm_of_key_object hkey).mem_iff.1 (List.mem_map_of_mem he)
          obtain ⟨⟨key', s'⟩, he', heq⟩ := List.mem_map.1 hmem
          obtain ⟨hname, hkeys⟩ := Prod.mk.inj heq
          obtain rfl : key' = key := hname
          exact ⟨_, he', entryHolds_of_key hdistinct ih (hentries (key', s) he) (hentries' _ he') hkeys.symm hpath⟩

/-- What stands under one key and conforms holds the same if it has one key. -/
theorem EntryConforms.holds_of_key (hdistinct : c.DistinctNames) (ha : EntryConforms c R names t k a)
    (hb : EntryConforms c R names t k b) (hk : isFragmentKey k = false) (hkey : Shape.key false a = Shape.key false b)
    (h : a.Holds generated path) : b.Holds generated path := by
  have hentry : EntryHolds generated k a (k :: path) → EntryHolds generated k b (k :: path) :=
    entryHolds_of_key hdistinct (Compile.holds_of_key hdistinct) ha hb hkey
  simpa [EntryHolds, hk, h] using hentry

theorem Conforms.isTag_eq (h : Conforms c R names type nullable s) : Shape.isTag s = false := by
  induction type generalizing nullable with
  | nonNull type ih =>
    cases h with
    | nonNull h => exact ih h
  | list type =>
    cases h with
    | list => rfl
  | named name =>
    cases h with
    | leaf | object => rfl

/-- Beside a tag stand tags alone, which have no fields. -/
theorem EntryConforms.eq_nil_of_isTag (ha : EntryConforms c R names t k a) (htag : Shape.isTag a = true)
    (hb : EntryConforms c R names t k b) (h : b.Holds generated path) : path = [] := by
  cases ha with
  | tag hk hname =>
    cases hb with
    | tag =>
      cases path with
      | nil => rfl
      | cons j path => exact absurd h Shape.not_holds_tag
    | field _ hname' => exact absurd hname hname'
    | spread hk' =>
      rw [hk', isFragmentKey_fragmentKey] at hk
      cases hk
  | field _ _ _ ha => exact absurd (ha.isTag_eq.symm.trans htag) Bool.false_ne_true
  | spread => cases htag

/-- If contributions to a field are not in conflict, the first of them has all that the others have. -/
theorem holds_first (hdistinct : c.DistinctNames) {first : Shape} {rest : List Shape} (hk : isFragmentKey k = false)
    (h : ∀ v ∈ first :: rest, EntryConforms c R names t k v) (hagreed : conflict? (first :: rest) = none)
    (hpath : ∃ v ∈ first :: rest, v.Holds generated path) : first.Holds generated path := by
  by_cases hshared : Shared (first :: rest)
  · have hdisputed : ¬Disputed (first :: rest) := fun hdisputed =>
      Option.some_ne_none _ ((conflict?_eq_some.2 ⟨hshared, hdisputed, rfl⟩).symm.trans hagreed)
    have hmerged : EntryConforms c R names t k (mergeAll first rest).1 ∧
        ∀ path, (mergeAll first rest).1.Holds generated path ↔ ∃ v ∈ first :: rest, v.Holds generated path :=
      conforms_mergeAll hdistinct (h first List.mem_cons_self) fun v hv => h v (List.mem_cons_of_mem _ hv)
    have hkey := of_decide_eq_true (identical_of_not_disputed hdisputed)
    rw [← mergeAll_fst] at hkey
    exact hmerged.1.holds_of_key hdistinct (h first List.mem_cons_self) hk hkey.symm ((hmerged.2 path).2 hpath)
  · obtain ⟨v, hv, hheld⟩ := hpath
    by_cases hrest : rest = []
    · subst hrest
      rwa [← List.mem_singleton.1 hv]
    · have hlength : 2 ≤ (first :: rest).length := by
        have := List.length_pos_iff.2 hrest
        rw [List.length_cons]
        omega
      obtain ⟨u, hu, htag⟩ : ∃ u ∈ first :: rest, Shape.isTag u = true := by
        by_contra hnone
        exact hshared ⟨hlength, fun u hu => Bool.eq_false_iff.2 fun htag => hnone ⟨u, hu, htag⟩⟩
      rw [(h u hu).eq_nil_of_isTag htag (h v hv) hheld]
      exact Shape.holds_nil

end ResponseTypes.Compile
