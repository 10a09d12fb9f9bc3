import Mathlib.Data.List.Nodup
import ResponseTypes.Assoc

/-!
# Ordered maps

What stands in a map after it is extended, filtered or made from pairs.  With distinct keys a map is known by its entries
(`get?_of_mem`).
-/

namespace ResponseTypes.Assoc

set_option autoImplicit false

variable {κ α : Type} [DecidableEq κ]

theorem get?_insert (m : Assoc κ α) (k k' : κ) (a : α) :
    get? (insert m k a) k' = if k = k' then some a else get? m k' := by
  split
  · rename_i h
    rw [← h, get?_insert_self]
  · rename_i h
    exact get?_insert_of_ne m a h

theorem get?_eq_none {m : Assoc κ α} {k : κ} : get? m k = none ↔ k ∉ keys m := by
  induction m with
  | nil => simp
  | cons e m ih =>
    rw [get?_cons, keys_cons, List.mem_cons, not_or]
    by_cases he : e.1 = k
    · simp [he]
    · rw [if_neg he, ih]
      exact ⟨fun h => ⟨fun hk => he hk.symm, h⟩, And.right⟩

theorem mem_keys_insert {m : Assoc κ α} {k k' : κ} {a : α} :
    k ∈ keys (insert m k' a) ↔ k ∈ keys m ∨ k = k' := by
  rw [keys_insert]
  split
  · rename_i h
    exact ⟨Or.inl, fun hk => hk.elim id fun hk => hk ▸ h⟩
  · simp

/-- Giving a key the value that it has changes nothing. -/
theorem insert_eq_self {m : Assoc κ α} {k : κ} {a : α} (h : get? m k = some a) : insert m k a = m := by
  induction m with
  | nil => simp at h
  | cons e m ih =>
    obtain ⟨k', a'⟩ := e
    rw [get?_cons] at h
    rw [insert]
    by_cases hk : k' = k
    · rw [if_pos hk] at h
      rw [if_pos hk, Option.some.inj h]
    · rw [if_neg hk] at h
      rw [if_neg hk, ih h]

theorem insert_insert_self (m : Assoc κ α) (k : κ) (a b : α) : insert (insert m k a) k b = insert m k b := by
  induction m with
  | nil => simp [insert]
  | cons e m ih =>
    by_cases hk : e.1 = k
    · simp [insert, hk]
    · simp [insert, hk, ih]

/-- Giving a key another value goes before or after giving one to a key that is there. -/
theorem insert_comm {m : Assoc κ α} {k k' : κ} (hne : k ≠ k') (hk' : k' ∈ keys m) (a b : α) :
    insert (insert m k a) k' b = insert (insert m k' b) k a := by
  induction m with
  | nil => cases hk'
  | cons e m ih =>
    obtain ⟨key, v⟩ := e
    by_cases h : key = k
    · subst h
      simp [insert, hne]
    · by_cases h' : key = k'
      · subst h'
        simp [insert, h]
      · simp [insert, h, h', ih ((List.mem_cons.1 hk').resolve_left (Ne.symm h'))]

/-- Maps with the same keys and related values stay so when related values are put under one key. -/
theorem forall₂_insert {R : α → α → Prop} {m m' : Assoc κ α}
    (h : List.Forall₂ (fun e e' => e.1 = e'.1 ∧ R e.2 e'.2) m m') (k : κ) {a b : α} (hab : R a b) :
    List.Forall₂ (fun e e' => e.1 = e'.1 ∧ R e.2 e'.2) (insert m k a) (insert m' k b) := by
  induction h with
  | nil => exact .cons ⟨rfl, hab⟩ .nil
  | @cons e e' m m' he hm ih =>
    obtain ⟨k', a'⟩ := e
    obtain ⟨k'', b'⟩ := e'
    obtain ⟨rfl, hrest⟩ := he
    simp only [insert]
    split
    · exact .cons ⟨rfl, hab⟩ hm
    · exact .cons ⟨rfl, hrest⟩ ih

theorem has_iff {m : Assoc κ α} {k : κ} : has m k = true ↔ k ∈ keys m := by
  rw [has, Option.isSome_iff_ne_none, ne_eq, get?_eq_none, not_not]

theorem get?_map {β : Type} (f : κ × α → β) (m : Assoc κ α) (k : κ) :
    get? (m.map fun e => (e.1, f e)) k = (get? m k).map fun a => f (k, a) := by
  induction m with
  | nil => rfl
  | cons e m ih =>
    obtain ⟨k', a⟩ := e
    rw [List.map_cons, get?_cons, get?_cons]
    by_cases hk : k' = k
    · simp [hk]
    · rw [if_neg hk, if_neg hk, ih]

theorem get?_filter_keys (p : κ → Bool) (m : Assoc κ α) (k : κ) :
    get? (m.filter fun e => p e.1) k = if p k then get? m k else none := by
  induction m with
  | nil => simp
  | cons e m ih =>
    obtain ⟨k', a⟩ := e
    rw [List.filter_cons, get?_cons]
    by_cases hk : k' = k
    · subst hk
      by_cases hp : p k' <;> simp [hp, ih, get?_cons]
    · by_cases hp : p k' <;> simp [hp, hk, ih, get?_cons]

/-- With distinct keys, what stands in a map stands under its key. -/
theorem get?_of_mem {m : Assoc κ α} (hm : (keys m).Nodup) {e : κ × α} (he : e ∈ m) :
    get? m e.1 = some e.2 := by
  have hhas : get? m e.1 ≠ none := fun hnone => get?_eq_none.1 hnone (List.mem_map_of_mem he)
  obtain ⟨a, ha⟩ := Option.ne_none_iff_exists'.1 hhas
  rw [ha, ← List.inj_on_of_nodup_map hm (mem_of_get? ha) he rfl]

/-- With distinct keys, maps with the same values have the same entries. -/
theorem perm_of_get? {m m' : Assoc κ α} (hm : (keys m).Nodup) (hm' : (keys m').Nodup) (h : ∀ k, get? m k = get? m' k) :
    m.Perm m' := by
  refine (List.perm_ext_iff_of_nodup hm.of_map hm'.of_map).2 fun e => ⟨fun he => ?_, fun he => ?_⟩
  · exact mem_of_get? ((h e.1).symm.trans (get?_of_mem hm he))
  · exact mem_of_get? ((h e.1).trans (get?_of_mem hm' he))

/-- With distinct keys, an entry is the one of a key or stands under another one. -/
theorem exists_mem_of_get? {m : Assoc κ α} (hm : (keys m).Nodup) {k : κ} {a : α} (h : get? m k = some a)
    {P : κ → α → Prop} : (∃ e ∈ m, P e.1 e.2) ↔ P k a ∨ ∃ e ∈ m, e.1 ≠ k ∧ P e.1 e.2 := by
  constructor
  · rintro ⟨e, he, hP⟩
    by_cases hk : e.1 = k
    · subst hk
      cases (get?_of_mem hm he).symm.trans h
      exact Or.inl hP
    · exact Or.inr ⟨e, he, hk, hP⟩
  · rintro (hP | ⟨e, he, -, hP⟩)
    · exact ⟨(k, a), mem_of_get? h, hP⟩
    · exact ⟨e, he, hP⟩

theorem exists_mem_insert {m : Assoc κ α} (hm : (keys m).Nodup) {k : κ} {a : α} {P : κ → α → Prop} :
    (∃ e ∈ insert m k a, P e.1 e.2) ↔ P k a ∨ ∃ e ∈ m, e.1 ≠ k ∧ P e.1 e.2 := by
  rw [exists_mem_of_get? (nodup_keys_insert hm k a) (get?_insert_self m k a)]
  refine or_congr_right ⟨?_, ?_⟩
  · rintro ⟨e, he, hk, hP⟩
    exact ⟨e, (mem_insert he).resolve_left fun heq => hk (heq ▸ rfl), hk, hP⟩
  · rintro ⟨e, he, hk, hP⟩
    have hget := get?_of_mem hm he
    rw [← get?_insert_of_ne m a (Ne.symm hk)] at hget
    exact ⟨e, mem_of_get? hget, hk, hP⟩

theorem get?_append (m more : Assoc κ α) (k : κ) : get? (m ++ more) k = (get? m k).or (get? more k) := by
  induction m with
  | nil => rfl
  | cons e m ih =>
    rw [List.cons_append, get?_cons, get?_cons]
    split
    · rfl
    · exact ih

theorem get?_append_left {m more : Assoc κ α} {k : κ} {a : α} (h : get? m k = some a) :
    get? (m ++ more) k = some a := by
  rw [get?_append, h, Option.some_or]

theorem get?_append_right {m more : Assoc κ α} {k : κ} (h : get? m k = none) :
    get? (m ++ more) k = get? more k := by
  rw [get?_append, h, Option.none_or]

/-- With distinct keys, what stands under a key after a filter stood there before. -/
theorem get?_filter {m : Assoc κ α} (hm : (keys m).Nodup) (p : κ × α → Bool) (k : κ)
    (a : α) : get? (m.filter p) k = some a ↔ get? m k = some a ∧ p (k, a) := by
  induction m with
  | nil => simp
  | cons e m ih =>
    obtain ⟨k', a'⟩ := e
    obtain ⟨hnew, hm⟩ := List.nodup_cons.1 hm
    by_cases hp : p (k', a')
    · rw [List.filter_cons_of_pos hp, get?_cons, get?_cons]
      split
      · rename_i hk
        subst hk
        exact ⟨fun h => ⟨h, Option.some.inj h ▸ hp⟩, fun h => h.1⟩
      · exact ih hm
    · rw [List.filter_cons_of_neg hp, ih hm, get?_cons]
      split
      · rename_i hk
        subst hk
        constructor
        · exact fun h => absurd (mem_keys_of_get? h.1) hnew
        · rintro ⟨ha, hpa⟩
          cases ha
          exact absurd hpa hp
      · rfl

omit [DecidableEq κ] in
theorem nodup_keys_filter {m : Assoc κ α} (hm : (keys m).Nodup) (p : κ × α → Bool) :
    (keys (m.filter p)).Nodup :=
  hm.sublist (List.Sublist.map _ List.filter_sublist)

theorem get?_ofList {entries : List (κ × α)} {e : κ × α} (he : e ∈ entries) :
    ∃ a, get? (ofList entries) e.1 = some a := by
  have hkeep : ∀ (l : List (κ × α)) (m : Assoc κ α), (∃ a, get? m e.1 = some a) →
      ∃ a, get? (l.foldl (fun m e => insert m e.1 e.2) m) e.1 = some a := by
    intro l
    induction l with
    | nil => exact fun m h => h
    | cons x l ih =>
      intro m h
      refine ih _ ?_
      rw [get?_insert]
      split
      · exact ⟨_, rfl⟩
      · exact h
  have hall : ∀ (l : List (κ × α)) (m : Assoc κ α), e ∈ l →
      ∃ a, get? (l.foldl (fun m e => insert m e.1 e.2) m) e.1 = some a := by
    intro l
    induction l with
    | nil => exact fun m h => absurd h List.not_mem_nil
    | cons x l ih =>
      intro m h
      rcases List.mem_cons.1 h with rfl | h
      · exact hkeep l _ ⟨_, get?_insert_self _ _ _⟩
      · exact ih _ h
  exact hall entries [] he

theorem get?_ofList_of_nodup {entries : List (κ × α)} {e : κ × α}
    (h : (entries.map Prod.fst).Nodup) (he : e ∈ entries) : get? (ofList entries) e.1 = some e.2 := by
  obtain ⟨a, ha⟩ := get?_ofList he
  have hmem := mem_of_mem_ofList (mem_of_get? ha)
  rw [ha, ← List.inj_on_of_nodup_map h hmem he rfl]

end ResponseTypes.Assoc
