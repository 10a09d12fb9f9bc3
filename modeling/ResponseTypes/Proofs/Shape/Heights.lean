import ResponseTypes.Compile.Fragment
import ResponseTypes.Proofs.Exact.Expand
import ResponseTypes.Proofs.Shape.Branches
import ResponseTypes.Proofs.Text.Distinct

/-!
# Heights

Merged shapes are no higher than what they are merged of (`height_merge`).  What is composed of some fields and the
fragments among them is `Loose` : what its objects hold is no higher than those fields.
-/

namespace ResponseTypes.Compile

set_option autoImplicit false

open Shape (mergeFieldsWith mergeObjects unifyWith mergeMismatched mergeWith mergeAt merge mergeFields appendParts)

variable {f : String → Nat} {k : Nat}

/-- The height of what stands under a key; a fragment stands for its fields. -/
def entryHeight (f : String → Nat) (e : String × Shape) : Nat :=
  if isFragmentKey e.1 then height f e.2 - 1 else height f e.2

theorem listHeight_le {shapes : List Shape} : listHeight f shapes ≤ k ↔ ∀ s ∈ shapes, height f s ≤ k := by
  induction shapes with
  | nil => simp [listHeight]
  | cons s rest ih =>
    rw [List.forall_mem_cons, ← ih]
    exact Nat.max_le

theorem fieldsHeight_le {fields : Fields} : fieldsHeight f fields ≤ k ↔ ∀ e ∈ fields, entryHeight f e ≤ k := by
  induction fields with
  | nil => simp [fieldsHeight]
  | cons e rest ih =>
    rw [List.forall_mem_cons, ← ih]
    exact Nat.max_le

theorem listHeight_append {shapes more : List Shape} (h : listHeight f shapes ≤ k) (h' : listHeight f more ≤ k) :
    listHeight f (shapes ++ more) ≤ k :=
  listHeight_le.2 fun s hs => (List.mem_append.1 hs).elim (listHeight_le.1 h s) (listHeight_le.1 h' s)

@[simp] theorem height_withNote (n : Note) (s : Shape) : height f (s.withNote n) = height f s := by
  cases s <;> rfl

@[simp] theorem height_withNullable (nullable : Bool) (s : Shape) : height f (s.withNullable nullable) = height f s :=
  height_withNote _ s

/-! ## Merging -/

theorem listHeight_appendParts {parts more : List Shape} (h : listHeight f parts ≤ k) (h' : listHeight f more ≤ k) :
    listHeight f (appendParts parts more) ≤ k :=
  listHeight_le.2 (Shape.forall_appendParts (listHeight_le.1 h) (listHeight_le.1 h'))

theorem listHeight_pair {a b : Shape} (ha : height f a ≤ k) (hb : height f b ≤ k) : listHeight f [a, b] ≤ k :=
  Nat.max_le.2 ⟨ha, Nat.max_le.2 ⟨hb, Nat.zero_le k⟩⟩

section Layer

variable {below : Shape → Shape → Shape}
  (hb : ∀ k a b, height f a ≤ k → height f b ≤ k → height f (below a b) ≤ k)

include hb

theorem fieldsHeight_mergeFieldsWith {a b : Fields} (ha : fieldsHeight f a ≤ k) (hb' : fieldsHeight f b ≤ k) :
    fieldsHeight f (mergeFieldsWith below a b) ≤ k := by
  rw [fieldsHeight_le] at ha hb' ⊢
  refine Shape.forall_mergeFieldsWith (P := fun key s => entryHeight f (key, s) ≤ k) ha hb' fun key x y hx hy => ?_
  simp only [entryHeight] at hx hy ⊢
  split <;> rename_i hkey
  · rw [if_pos hkey] at hx hy
    exact Nat.sub_le_of_le_add (hb _ _ _ (Nat.le_add_of_sub_le hx) (Nat.le_add_of_sub_le hy))
  · rw [if_neg hkey] at hx hy
    exact hb _ _ _ hx hy

theorem height_mergeObjects {a b : Shape} (ha : height f a ≤ k) (hb' : height f b ≤ k) :
    height f (mergeObjects below a b) ≤ k := by
  unfold mergeObjects
  split
  · obtain ⟨k, rfl⟩ := Nat.exists_eq_add_one_of_ne_zero (Nat.ne_zero_of_lt ha)
    exact Nat.succ_le_succ (fieldsHeight_mergeFieldsWith hb (Nat.le_of_succ_le_succ ha) (Nat.le_of_succ_le_succ hb'))
  · exact ha

theorem listHeight_unifyWith {shapes : List Shape} (h : listHeight f shapes ≤ k) :
    listHeight f (unifyWith below shapes) ≤ k :=
  listHeight_le.2 (Shape.forall_unifyWith (fun _ _ => listHeight_le.1) (fun _ _ => height_mergeObjects hb) (listHeight_le.1 h))

theorem height_mergeMismatched {a b : Shape} (ha : height f a ≤ k) (hb' : height f b ≤ k) :
    height f (mergeMismatched below a b) ≤ k := by
  have href : ∀ (r : FragmentRef) (n : Note), height f (.ref r n) ≤ k →
      fieldsHeight f [(fragmentKey r.artifact, .ref r n)] + 1 ≤ k := fun r n hr => by
    simpa [fieldsHeight, isFragmentKey_fragmentKey, height] using hr
  have hobject : ∀ (x y : Fields), fieldsHeight f x + 1 ≤ k → fieldsHeight f y + 1 ≤ k →
      fieldsHeight f (mergeFieldsWith below x y) + 1 ≤ k := fun x y hx hy => by
    obtain ⟨k, rfl⟩ := Nat.exists_eq_add_one_of_ne_zero (Nat.ne_zero_of_lt hx)
    exact Nat.succ_le_succ (fieldsHeight_mergeFieldsWith hb (Nat.le_of_succ_le_succ hx) (Nat.le_of_succ_le_succ hy))
  unfold mergeMismatched
  dsimp only
  split
  · exact hobject _ _ ha (href _ _ hb')
  · exact hobject _ _ (href _ _ ha) hb'
  · exact listHeight_appendParts ha (Nat.max_le.2 ⟨hb', Nat.zero_le k⟩)
  · exact listHeight_appendParts (Nat.max_le.2 ⟨ha, Nat.zero_le k⟩) hb'
  · exact listHeight_pair ha hb'
  · exact listHeight_pair ha hb'
  · exact listHeight_unifyWith hb (listHeight_pair ha hb')

theorem height_mergeWith {a b : Shape} (ha : height f a ≤ k) (hb' : height f b ≤ k) :
    height f (mergeWith below a b) ≤ k := by
  unfold mergeWith
  dsimp only
  split
  · split
    · rwa [height_withNote]
    · exact listHeight_unifyWith hb (listHeight_pair (by rwa [height_withNullable]) (by rwa [height_withNullable]))
  · split
    · exact Nat.zero_le k
    · exact listHeight_pair ha hb'
  · exact height_mergeObjects hb ha hb'
  · exact hb _ _ _ ha hb'
  · exact listHeight_unifyWith hb (listHeight_append ha hb')
  · exact listHeight_appendParts ha hb'
  · split
    · rwa [height_withNote]
    · exact listHeight_pair ha hb'
  · exact height_mergeMismatched hb ha hb'

end Layer

theorem height_mergeAt (n : Nat) : ∀ k a b, height f a ≤ k → height f b ≤ k → height f (mergeAt n a b) ≤ k := by
  induction n with
  | zero => exact fun _ _ _ ha hb => height_mergeWith (fun _ _ _ ha _ => ha) ha hb
  | succ n ih => exact fun _ _ _ ha hb => height_mergeWith ih ha hb

/-- What is merged is no higher than what it is merged of. -/
theorem height_merge {a b : Shape} (ha : height f a ≤ k) (hb : height f b ≤ k) : height f (merge a b) ≤ k :=
  height_mergeAt _ k a b ha hb

theorem height_mergeAll {first : Shape} {rest : List Shape} (h : height f first ≤ k)
    (hr : ∀ s ∈ rest, height f s ≤ k) : height f (Shape.mergeAll first rest).1 ≤ k := by
  unfold Shape.mergeAll
  generalize hacc : (first, false) = acc
  replace h : height f acc.1 ≤ k := hacc ▸ h
  clear hacc
  induction rest generalizing acc with
  | nil => exact h
  | cons s rest ih =>
    obtain ⟨hs, hr⟩ := List.forall_mem_cons.1 hr
    exact ih hr _ (height_merge h hs)

/-! ## Composing -/

/-- The fields are no fragments, and what they hold has some height at most. -/
def LevelFields (f : String → Nat) (k : Nat) (fields : Fields) : Prop :=
  ∀ e ∈ fields, isFragmentKey e.1 = false ∧ height f e.2 ≤ k

/-- Objects without fragments, alone or together with references, whose fields have some height at most. -/
inductive Loose (f : String → Nat) (k : Nat) : Shape → Prop
  | object {typeName : String} {fields : Fields} {n : Note} : LevelFields f k fields → Loose f k (.object typeName fields n)
  | ref (r : FragmentRef) (n : Note) : Loose f k (.ref r n)
  | inter {parts : List Shape} {n : Note} : (∀ s ∈ parts, Loose f k s) → Loose f k (.inter parts n)

theorem level_filter {fields : Fields} (h : LevelFields f k fields) (p : String × Shape → Bool) :
    LevelFields f k (fields.filter p) :=
  fun e he => h e (List.mem_filter.1 he).1

theorem level_refFields {maps : Shape.FieldMaps} (hmaps : ∀ e ∈ maps, LevelFields f k e.2) (r : FragmentRef) :
    LevelFields f k (Shape.refFields maps r) := by
  unfold Shape.refFields
  cases hr : Assoc.get? maps r.fragment with
  | none => exact fun _ he => absurd he List.not_mem_nil
  | some fields => exact hmaps _ (Assoc.mem_of_get? hr)

theorem height_conflict? {shapes : List Shape} {s : Shape} (h : ∀ s ∈ shapes, height f s ≤ k)
    (hs : Shape.conflict? shapes = some s) : height f s ≤ k := by
  unfold Shape.conflict? at hs
  split at hs
  · split at hs
    · cases hs
    · dsimp only at hs
      split at hs
      · cases hs
        obtain ⟨hfirst, hrest⟩ := List.forall_mem_cons.1 h
        exact height_mergeAll hfirst hrest
      · cases hs
  · cases hs

theorem level_conflicts {direct : Fields} {refs : List FragmentRef} {maps : Shape.FieldMaps}
    (hdirect : LevelFields f k direct) (hmaps : ∀ e ∈ maps, LevelFields f k e.2) :
    LevelFields f k (Shape.conflicts direct refs maps) := by
  intro e he
  obtain ⟨key, hkey, hk⟩ := List.mem_filterMap.1 he
  obtain ⟨s, hs, rfl⟩ := Option.map_eq_some_iff.1 hk
  refine ⟨?_, height_conflict? (fun t ht => ?_) hs⟩
  · rcases List.mem_append.1 (Text.mem_distinct.1 hkey) with hkey | hkey
    · obtain ⟨e, hmem, rfl⟩ := List.mem_map.1 hkey
      exact (hdirect e hmem).1
    · obtain ⟨r, -, hkey⟩ := List.mem_flatMap.1 hkey
      obtain ⟨e, hmem, rfl⟩ := List.mem_map.1 hkey
      exact (level_refFields hmaps r e hmem).1
  · rcases List.mem_append.1 ht with ht | ht
    · exact (hdirect _ (Assoc.mem_of_get? (Option.mem_toList.1 ht))).2
    · obtain ⟨r, -, hr⟩ := List.mem_filterMap.1 ht
      exact (level_refFields hmaps r _ (Assoc.mem_of_get? hr)).2

theorem loose_objectOf? {typeName : String} {fields : Fields} (h : LevelFields f k fields) :
    ∀ s ∈ (Shape.objectOf? typeName fields).toList, Loose f k s := by
  intro s hs
  unfold Shape.objectOf? at hs
  split at hs
  · cases hs
  · cases List.mem_singleton.1 hs
    exact .object h

theorem loose_keepRef? {maps : Shape.FieldMaps} {conflicts : Fields} {r : FragmentRef} {n : Note} {s : Shape}
    (hs : Shape.keepRef? maps conflicts r n = some s) : Loose f k s := by
  unfold Shape.keepRef? at hs
  dsimp only at hs
  split at hs
  · cases hs
  · cases hs
    exact .ref _ _

/-- What is composed is loose. -/
theorem loose_compose {typeName : String} {direct : Fields} {refs : List (FragmentRef × Note)} {maps : Shape.FieldMaps}
    {s : Shape} (hdirect : LevelFields f k direct) (hmaps : ∀ e ∈ maps, LevelFields f k e.2)
    (hs : Shape.compose typeName direct refs maps = .ok s) : Loose f k s := by
  unfold Shape.compose at hs
  split at hs
  · cases hs
  · have hparts : ∀ s ∈ (Shape.objectOf? typeName (Shape.conflicts direct (refs.map Prod.fst) maps)).toList ++
        (Shape.objectOf? typeName (direct.filter
          (fun e => !Assoc.has (Shape.conflicts direct (refs.map Prod.fst) maps) e.1))).toList ++
        refs.filterMap (fun r => Shape.keepRef? maps (Shape.conflicts direct (refs.map Prod.fst) maps) r.1 r.2),
        Loose f k s := by
      intro s hs
      rcases List.mem_append.1 hs with hs | hs
      · rcases List.mem_append.1 hs with hs | hs
        · exact loose_objectOf? (level_conflicts hdirect hmaps) s hs
        · exact loose_objectOf? (level_filter hdirect _) s hs
      · obtain ⟨r, -, hr⟩ := List.mem_filterMap.1 hs
        exact loose_keepRef? hr
    cases hs
    split
    · exact .object fun _ he => absurd he List.not_mem_nil
    · rename_i t ht
      exact hparts t (ht ▸ List.mem_singleton_self t)
    · exact .inter hparts

end ResponseTypes.Compile
