import ResponseTypes.Proofs.Exact.Composed

/-!
# What the parts of a composition declare

Composing direct fields with fragments divides the keys.  A key that is disputed goes to one object with its merged shape,
and every fragment omits it; every other key stays with each of its contributors (`compose_partitions`).  The verdict on a
key is that on the steps of merging its contributions (`conflict?_eq_some`), and what is merged for it is what merging the
whole field maps gives (`get?_mergedFields`).
-/

namespace ResponseTypes.Compile

set_option autoImplicit false

open Shape (FieldMaps contributions conflict? conflicts keepRef? merge mergeAll mergeFields objectOf? identical isTag isUnion)

variable {direct : Fields} {refs : List FragmentRef} {maps : FieldMaps} {k : String} {s first : Shape}
  {shapes rest : List Shape}

/-! ## Running merges -/

/-- The steps of merging shapes into one, from left to right: what is there before each, and after it. -/
def stepsFrom (before : Shape) : List Shape → List (Shape × Shape)
  | [] => []
  | s :: rest => (before, merge before s) :: stepsFrom (merge before s) rest

/-- The steps of merging shapes from left to right. -/
def mergeSteps : List Shape → List (Shape × Shape)
  | [] => []
  | first :: rest => stepsFrom first rest

/-- The merge of shapes from left to right, if there are any. -/
def mergedShape? : List Shape → Option Shape
  | [] => none
  | first :: rest => some (rest.foldl merge first)

/-- Two shapes at least, and no tag among them. -/
def Shared (shapes : List Shape) : Prop :=
  2 ≤ shapes.length ∧ ∀ s ∈ shapes, isTag s = false

/-- Some step of merging the shapes gives a union, or something that is not identical to what was there. -/
def Disputed (shapes : List Shape) : Prop :=
  ∃ step ∈ mergeSteps shapes, isUnion step.2 = true ∨ identical step.2 step.1 = false

theorem mergeAll_fst : (mergeAll first rest).1 = rest.foldl merge first := by
  unfold mergeAll
  generalize false = conflict
  induction rest generalizing first conflict with
  | nil => rfl
  | cons s rest ih => exact ih _

theorem mergeAll_snd : (mergeAll first rest).2 = true ↔ Disputed (first :: rest) := by
  refine Iff.trans ?_ (or_iff_right Bool.false_ne_true)
  unfold mergeAll
  -- a verdict that was reached stands
  generalize false = conflict
  induction rest generalizing first conflict with
  | nil => simp [Disputed, mergeSteps, stepsFrom]
  | cons s rest ih =>
    refine (ih _).trans ?_
    simp [Disputed, mergeSteps, stepsFrom, or_assoc]

/-- Shapes are in conflict when they share a key and merging them is disputed. -/
theorem conflict?_eq_some :
    conflict? shapes = some s ↔ Shared shapes ∧ Disputed shapes ∧ mergedShape? shapes = some s := by
  match shapes with
  | [] => simp [conflict?, Shared]
  | [_] => simp [conflict?, Shared]
  | first :: second :: rest =>
    have hshared : Shared (first :: second :: rest) ↔ ¬(first :: second :: rest).any isTag = true := by
      simp [Shared]
    rw [hshared, ← mergeAll_snd, mergedShape?, ← mergeAll_fst, conflict?]
    by_cases htag : (first :: second :: rest).any isTag = true
    · simp [htag]
    · rw [if_neg htag]
      by_cases hstep : (mergeAll first (second :: rest)).2 = true <;> simp [htag, hstep]

/-- Without a dispute, what is merged is what was there first. -/
theorem identical_of_not_disputed (h : ¬Disputed (first :: rest)) : identical first (rest.foldl merge first) = true := by
  induction rest generalizing first with
  | nil => simp [identical]
  | cons s rest ih =>
    have hsteps : ∀ step ∈ (first, merge first s) :: stepsFrom (merge first s) rest,
        ¬(isUnion step.2 = true ∨ identical step.2 step.1 = false) := fun step hstep hbad => h ⟨step, hstep, hbad⟩
    have hnext : identical (merge first s) first = true := by
      simpa using (not_or.1 (hsteps _ List.mem_cons_self)).2
    have hrest := ih (by
      rintro ⟨step, hstep, hbad⟩
      exact hsteps step (List.mem_cons_of_mem _ hstep) hbad)
    simp only [identical, decide_eq_true_eq] at hnext hrest ⊢
    exact hnext.symm.trans hrest

/-! ## Merged field maps -/

/-- The merge of direct fields and those of fragments in order. -/
def mergedFields (direct : Fields) (refs : List FragmentRef) (maps : FieldMaps) : Fields :=
  refs.foldl (fun m r => mergeFields m (Shape.refFields maps r)) direct

theorem get?_mergeFields (a b : Fields) :
    Assoc.get? (mergeFields a b) k = mergedShape? ((Assoc.get? a k).toList ++ (Assoc.get? b k).toList) := by
  rw [mergeFields, Shape.get?_mergeFieldsWith]
  cases Assoc.get? a k <;> cases Assoc.get? b k <;> rfl

/-- The merged field maps have under a key what is merged of its contributions. -/
theorem get?_mergedFields :
    Assoc.get? (mergedFields direct refs maps) k = mergedShape? (contributions direct maps refs k) := by
  induction refs generalizing direct with
  | nil =>
    rw [mergedFields, List.foldl_nil, contributions, List.filterMap_nil, List.append_nil]
    cases Assoc.get? direct k <;> rfl
  | cons r refs ih =>
    rw [mergedFields, List.foldl_cons, ← mergedFields, ih]
    simp only [contributions, get?_mergeFields, List.filterMap_cons]
    cases Assoc.get? direct k <;> cases Assoc.get? (Shape.refFields maps r) k <;> rfl

/-! ## Conflicts and what remains -/

theorem get?_conflicts : Assoc.get? (conflicts direct refs maps) k = conflict? (contributions direct maps refs k) := by
  cases hs : Assoc.get? (conflicts direct refs maps) k with
  | some s => exact (conflict?_of_mem (Assoc.mem_of_get? hs)).symm
  | none =>
    refine (Option.eq_none_iff_forall_ne_some.2 fun s hconflict => Assoc.get?_eq_none.1 hs ?_).symm
    have hkey : k ∈ Assoc.keys direct ++ refs.flatMap fun r => Assoc.keys (Shape.refFields maps r) := by
      cases hshapes : contributions direct maps refs k with
      | nil => simp [hshapes, conflict?] at hconflict
      | cons v rest =>
        have hv : v ∈ contributions direct maps refs k := hshapes ▸ List.mem_cons_self
        rcases mem_contributions.1 hv with hv | ⟨r, hr, hv⟩
        · exact List.mem_append_left _ (Assoc.mem_keys_of_get? hv)
        · exact List.mem_append_right _ (List.mem_flatMap.2 ⟨r, hr, Assoc.mem_keys_of_get? hv⟩)
    have hmem : (k, s) ∈ conflicts direct refs maps :=
      List.mem_filterMap.2 ⟨k, Text.mem_distinct.2 hkey, by rw [hconflict, Option.map_some]⟩
    exact List.mem_map_of_mem hmem

/-- A key is in conflict when its contributions are, and then it has what is merged of them. -/
theorem get?_conflicts_eq_some : Assoc.get? (conflicts direct refs maps) k = some s ↔
    Shared (contributions direct maps refs k) ∧ Disputed (contributions direct maps refs k) ∧
      Assoc.get? (mergedFields direct refs maps) k = some s := by
  rw [get?_conflicts, conflict?_eq_some, get?_mergedFields]

theorem exists_mergedShape? (h : Shared shapes) : ∃ first rest, shapes = first :: rest ∧
    mergedShape? shapes = some (rest.foldl merge first) := by
  match shapes, h with
  | first :: rest, _ => exact ⟨first, rest, rfl, rfl⟩

variable {cs : Fields} {r : FragmentRef}

/-- The direct fields that are not in conflict. -/
def remainingFields (cs direct : Fields) : Fields :=
  direct.filter fun e => !Assoc.has cs e.1

theorem get?_remainingFields :
    Assoc.get? (remainingFields cs direct) k = if k ∈ Assoc.keys cs then none else Assoc.get? direct k := by
  rw [remainingFields, Assoc.get?_filter_keys fun k => !Assoc.has cs k]
  by_cases hk : k ∈ Assoc.keys cs
  · rw [if_pos hk, if_neg (by simp [Assoc.has_iff.2 hk])]
  · rw [if_neg hk, if_pos (by simpa using mt Assoc.has_iff.1 hk)]

/-! ## References -/

/-- A key is in conflict or stays with the direct fields, and occurs once. -/
theorem nodup_keys_remainingFields (hcs : (Assoc.keys cs).Nodup) (hdirect : (Assoc.keys direct).Nodup) :
    (Assoc.keys (cs ++ remainingFields cs direct)).Nodup := by
  rw [Assoc.keys, List.map_append]
  refine List.nodup_append.2 ⟨hcs, Assoc.nodup_keys_filter hdirect _, ?_⟩
  rintro k (hk : k ∈ Assoc.keys _) k' hk' rfl
  obtain ⟨s, hs⟩ := Option.isSome_iff_exists.1 (Assoc.has_iff.2 hk')
  rw [get?_remainingFields, if_pos hk] at hs
  cases hs

/-- The fragment has fields, and all of them are in conflict. -/
def Emptied (cs : Fields) (fields : Fields) : Prop :=
  fields ≠ [] ∧ ∀ k ∈ Assoc.keys fields, k ∈ Assoc.keys cs

instance (cs fields : Fields) : Decidable (Emptied cs fields) :=
  inferInstanceAs (Decidable (_ ∧ _))

/-- What a reference leaves out. -/
def omittedOf (cs : Fields) (maps : FieldMaps) (r : FragmentRef) : List String :=
  (Assoc.keys cs).filter (Assoc.has (Shape.refFields maps r))

/-- The references that are kept, each without what is in conflict. -/
def keptRefs (cs : Fields) (maps : FieldMaps) (refs : List (FragmentRef × Note)) : List (FragmentRef × Note) :=
  (refs.filter fun r => ¬Emptied cs (Shape.refFields maps r.1)).map fun r =>
    ({ r.1 with omitted := omittedOf cs maps r.1 }, r.2)

theorem mem_omittedOf : k ∈ omittedOf cs maps r ↔ k ∈ Assoc.keys cs ∧ k ∈ Assoc.keys (Shape.refFields maps r) := by
  rw [omittedOf, List.mem_filter, Assoc.has_iff]

theorem keepRef?_eq_ite (n : Note) (hcs : (Assoc.keys cs).Nodup) (hr : (Assoc.keys (Shape.refFields maps r)).Nodup) :
    keepRef? maps cs r n = if Emptied cs (Shape.refFields maps r) then none else
      some (.ref { r with omitted := omittedOf cs maps r } n) := by
  have hperm : (omittedOf cs maps r).Perm ((Assoc.keys (Shape.refFields maps r)).filter (· ∈ Assoc.keys cs)) :=
    (List.perm_ext_iff_of_nodup (hcs.filter _) (hr.filter _)).2 fun k =>
      mem_omittedOf.trans (by rw [List.mem_filter, decide_eq_true_eq, and_comm])
  have hall : (omittedOf cs maps r).length = (Shape.refFields maps r).length ↔
      ∀ k ∈ Assoc.keys (Shape.refFields maps r), k ∈ Assoc.keys cs := by
    have hlength : (Shape.refFields maps r).length = (Assoc.keys (Shape.refFields maps r)).length :=
      (List.length_map _).symm
    rw [hperm.length_eq, hlength, List.length_filter_eq_length_iff]
    simp only [decide_eq_true_eq]
  have hempty : (!(Shape.refFields maps r).isEmpty &&
      (omittedOf cs maps r).length == (Shape.refFields maps r).length) = true ↔ Emptied cs (Shape.refFields maps r) := by
    rw [Bool.and_eq_true, beq_iff_eq, hall, Bool.not_eq_true', ← Bool.not_eq_true, List.isEmpty_iff]
    exact Iff.rfl
  exact if_congr hempty rfl rfl

theorem filterMap_keepRef? {refs : List (FragmentRef × Note)} (hcs : (Assoc.keys cs).Nodup)
    (hrefs : ∀ r ∈ refs, (Assoc.keys (Shape.refFields maps r.1)).Nodup) :
    refs.filterMap (fun r => keepRef? maps cs r.1 r.2) = (keptRefs cs maps refs).map fun r => .ref r.1 r.2 := by
  induction refs with
  | nil => rfl
  | cons r refs ih =>
    have hrest := ih fun r hr => hrefs r (List.mem_cons_of_mem _ hr)
    have hkeep := keepRef?_eq_ite r.2 hcs (hrefs r List.mem_cons_self)
    by_cases hr : Emptied cs (Shape.refFields maps r.1)
    · rw [if_pos hr] at hkeep
      simp [hkeep, hrest, keptRefs, hr]
    · rw [if_neg hr] at hkeep
      simp [hkeep, hrest, keptRefs, hr]

/-- What the kept references do not omit is what all references have that is not in conflict. -/
theorem filterMap_keptRefs {refs : List (FragmentRef × Note)} :
    ((keptRefs cs maps refs).filterMap fun r =>
        if k ∈ r.1.omitted then none else Assoc.get? (Shape.refFields maps r.1) k) =
      if k ∈ Assoc.keys cs then [] else (refs.map Prod.fst).filterMap fun r => Assoc.get? (Shape.refFields maps r) k := by
  have hone : ∀ r : FragmentRef, (if k ∈ omittedOf cs maps r then none else Assoc.get? (Shape.refFields maps r) k) =
      if k ∈ Assoc.keys cs then none else Assoc.get? (Shape.refFields maps r) k := by
    intro r
    by_cases hk : k ∈ Assoc.keys (Shape.refFields maps r)
    · simp [mem_omittedOf, hk]
    · simp [Assoc.get?_eq_none.2 hk]
  have hkept : ((keptRefs cs maps refs).filterMap fun r =>
      if k ∈ r.1.omitted then none else Assoc.get? (Shape.refFields maps r.1) k) =
        (refs.filter fun r => ¬Emptied cs (Shape.refFields maps r.1)).filterMap fun r =>
          if k ∈ Assoc.keys cs then none else Assoc.get? (Shape.refFields maps r.1) k := by
    rw [keptRefs, List.filterMap_map]
    exact List.filterMap_congr fun r _ => hone r.1
  rw [hkept]
  by_cases hk : k ∈ Assoc.keys cs
  · simp [hk]
  · simp only [if_neg hk, List.filterMap_filter, List.filterMap_map]
    refine List.filterMap_congr fun r _ => ?_
    by_cases hr : Emptied cs (Shape.refFields maps r.1)
    · have hnone := Assoc.get?_eq_none.2 fun hmem => hk (hr.2 k hmem)
      simp [hr, hnone]
    · simp [hr]

/-! ## The parts -/

/-- One shape from the parts of a composition. -/
def joinParts (typeName : String) (moved remaining : Fields) (kept : List (FragmentRef × Note)) : Shape :=
  match (objectOf? typeName moved).toList ++ (objectOf? typeName remaining).toList ++ kept.map fun r => .ref r.1 r.2 with
  | [] => .object typeName [] {}
  | [s] => s
  | parts => .inter parts {}

/-- What the parts of a composition declare under a key: the two objects, and each reference that does not omit it. -/
def declarations (maps : FieldMaps) (moved remaining : Fields) (kept : List (FragmentRef × Note)) (k : String) :
    List Shape :=
  (Assoc.get? moved k).toList ++ (Assoc.get? remaining k).toList ++
    kept.filterMap fun r => if k ∈ r.1.omitted then none else Assoc.get? (Shape.refFields maps r.1) k

/-- How the parts of a composition divide the keys, given what is selected under each key and what merging the field maps
gives. -/
structure Partition (maps : FieldMaps) (refs : List (FragmentRef × Note)) (direct merged : Fields)
    (selected : String → List Shape) (moved remaining : Fields) (kept : List (FragmentRef × Note)) : Prop where
  /-- a key occurs once in the two objects, if at all -/
  nodup : (Assoc.keys (moved ++ remaining)).Nodup
  /-- a disputed key is declared once, by the object of conflicts and with its merged shape -/
  disputed : ∀ k, Shared (selected k) → Disputed (selected k) →
    (∃ s, Assoc.get? merged k = some s ∧ Assoc.get? moved k = some s ∧
        declarations maps moved remaining kept k = [s]) ∧
      k ∉ Assoc.keys remaining ∧ ∀ r ∈ kept, k ∈ Assoc.keys (Shape.refFields maps r.1) → k ∈ r.1.omitted
  /-- what is merged without a dispute is what was selected first -/
  agreed : ∀ k, Shared (selected k) → ¬Disputed (selected k) →
    ∃ first s, (selected k).head? = some first ∧ Assoc.get? merged k = some s ∧ identical first s = true
  /-- every other key stays with each of its contributors, and no part omits it -/
  stays : ∀ k, ¬(Shared (selected k) ∧ Disputed (selected k)) →
    declarations maps moved remaining kept k = selected k ∧ k ∉ Assoc.keys moved ∧
      Assoc.get? remaining k = Assoc.get? direct k ∧ ∀ r ∈ kept, k ∉ r.1.omitted
  /-- the references are kept in order, but for those that have fields and all of them in conflict -/
  references : List.Forall₂ (fun r r' : FragmentRef × Note => r' = ({ r.1 with omitted := r'.1.omitted }, r.2))
    (refs.filter fun r => ¬Emptied moved (Shape.refFields maps r.1)) kept
  /-- a reference omits fields of its fragment, each once -/
  omitted : ∀ r ∈ kept, r.1.omitted.Nodup ∧ ∀ k ∈ r.1.omitted, k ∈ Assoc.keys (Shape.refFields maps r.1)

theorem mem_omitted_keptRefs {refs : List (FragmentRef × Note)} {r : FragmentRef × Note}
    (hr : r ∈ keptRefs cs maps refs) :
    k ∈ r.1.omitted ↔ k ∈ Assoc.keys cs ∧ k ∈ Assoc.keys (Shape.refFields maps r.1) := by
  obtain ⟨r₀, -, rfl⟩ := List.mem_map.1 hr
  exact mem_omittedOf

/-- What is declared under a key is its conflict, or else everything that is selected under it. -/
theorem declarations_eq {refs : List (FragmentRef × Note)} :
    declarations maps cs (remainingFields cs direct) (keptRefs cs maps refs) k =
      if k ∈ Assoc.keys cs then (Assoc.get? cs k).toList else contributions direct maps (refs.map Prod.fst) k := by
  rw [declarations, filterMap_keptRefs, get?_remainingFields]
  by_cases hk : k ∈ Assoc.keys cs
  · simp [hk]
  · simp [hk, Assoc.get?_eq_none.2 hk, contributions]

/-- The conflicts, the remaining direct fields and the kept references partition the fields. -/
theorem partition_conflicts {refs : List (FragmentRef × Note)} (hdirect : (Assoc.keys direct).Nodup) :
    Partition maps refs direct (mergedFields direct (refs.map Prod.fst) maps)
      (contributions direct maps (refs.map Prod.fst))
      (conflicts direct (refs.map Prod.fst) maps) (remainingFields (conflicts direct (refs.map Prod.fst) maps) direct)
      (keptRefs (conflicts direct (refs.map Prod.fst) maps) maps refs) where
  nodup := nodup_keys_remainingFields nodup_conflicts hdirect
  disputed k hshared hdisputed := by
    obtain ⟨first, rest, -, hmerged⟩ := exists_mergedShape? hshared
    rw [← get?_mergedFields] at hmerged
    have hmoved := get?_conflicts_eq_some.2 ⟨hshared, hdisputed, hmerged⟩
    have hmem := Assoc.mem_keys_of_get? hmoved
    refine ⟨⟨_, hmerged, hmoved, ?_⟩, ?_, fun r hr hkey => (mem_omitted_keptRefs hr).2 ⟨hmem, hkey⟩⟩
    · rw [declarations_eq, if_pos hmem, hmoved, Option.toList_some]
    · rw [← Assoc.get?_eq_none, get?_remainingFields, if_pos hmem]
  agreed k hshared hdisputed := by
    obtain ⟨first, rest, hshapes, hmerged⟩ := exists_mergedShape? hshared
    rw [hshapes] at hdisputed
    exact ⟨first, _, by rw [hshapes, List.head?_cons], get?_mergedFields.trans hmerged,
      identical_of_not_disputed hdisputed⟩
  stays k hk := by
    have hmem : k ∉ Assoc.keys (conflicts direct (refs.map Prod.fst) maps) := by
      intro hmem
      obtain ⟨s, hs⟩ := Option.isSome_iff_exists.1 (Assoc.has_iff.2 hmem)
      obtain ⟨hshared, hdisputed, -⟩ := get?_conflicts_eq_some.1 hs
      exact hk ⟨hshared, hdisputed⟩
    refine ⟨?_, hmem, ?_, fun r hr homitted => hmem ((mem_omitted_keptRefs hr).1 homitted).1⟩
    · rw [declarations_eq, if_neg hmem]
    · rw [get?_remainingFields, if_neg hmem]
  references := by
    rw [keptRefs, List.forall₂_map_right_iff]
    exact List.forall₂_same.2 fun r _ => rfl
  omitted r hr := by
    refine ⟨?_, fun k hk => ((mem_omitted_keptRefs hr).1 hk).2⟩
    obtain ⟨r₀, -, rfl⟩ := List.mem_map.1 hr
    exact nodup_conflicts.filter _

/-- A composition is joined from the conflicts, the remaining direct fields and the kept references. -/
theorem compose_eq_joinParts {typeName : String} {refs : List (FragmentRef × Note)}
    (hmaps : ∀ r ∈ refs, (Assoc.keys (Shape.refFields maps r.1)).Nodup)
    (h : Shape.compose typeName direct refs maps = .ok s) :
    s = joinParts typeName (conflicts direct (refs.map Prod.fst) maps)
      (remainingFields (conflicts direct (refs.map Prod.fst) maps) direct)
      (keptRefs (conflicts direct (refs.map Prod.fst) maps) maps refs) := by
  unfold Shape.compose at h
  split at h
  · cases h
  · rw [joinParts, ← filterMap_keepRef? nodup_conflicts hmaps]
    exact (Except.ok.inj h).symm

/-- Composing partitions the fields without loss. -/
theorem compose_partitions {typeName : String} {refs : List (FragmentRef × Note)} (hdirect : (Assoc.keys direct).Nodup)
    (hmaps : ∀ r ∈ refs, ∃ fs, Assoc.get? maps r.1.fragment = some fs ∧ (Assoc.keys fs).Nodup) :
    ∃ moved remaining kept, Shape.compose typeName direct refs maps = .ok (joinParts typeName moved remaining kept) ∧
      Partition maps refs direct (mergedFields direct (refs.map Prod.fst) maps)
        (contributions direct maps (refs.map Prod.fst)) moved remaining kept := by
  have hnodup : ∀ r ∈ refs, (Assoc.keys (Shape.refFields maps r.1)).Nodup := by
    intro r hr
    obtain ⟨fs, hfs, hkeys⟩ := hmaps r hr
    rwa [Shape.refFields, hfs]
  have hfound : refs.find? (fun r => !Assoc.has maps r.1.fragment) = none := by
    refine List.find?_eq_none.2 fun r hr => ?_
    obtain ⟨fs, hfs, -⟩ := hmaps r hr
    simp [Assoc.has, hfs]
  cases hcompose : Shape.compose typeName direct refs maps with
  | error name => simp [Shape.compose, hfound] at hcompose
  | ok s => exact ⟨_, _, _, congrArg _ (compose_eq_joinParts hnodup hcompose), partition_conflicts hdirect⟩

/-- Direct fields, two fragments with fields of the same names, and their field maps. -/
def overlappingDirect : Fields := [("id", .scalar "string" {}), ("name", .scalar "string" {})]

def overlappingRefs : List (FragmentRef × Note) :=
  [(⟨"One", "OneFragment", "User", "User", []⟩, {}), (⟨"Two", "TwoFragment", "User", "User", []⟩, {})]

def overlappingMaps : FieldMaps :=
  [("One", [("id", .scalar "number" {})]), ("Two", [("name", .scalar "string" {}), ("id", .scalar "boolean" {})])]

theorem compose_partitions_overlapping :
    (Assoc.keys overlappingDirect).Nodup ∧
      (∀ r ∈ overlappingRefs, ∃ fs, Assoc.get? overlappingMaps r.1.fragment = some fs ∧ (Assoc.keys fs).Nodup) ∧
      ∃ moved remaining kept, Shape.compose "User" overlappingDirect overlappingRefs overlappingMaps =
          .ok (joinParts "User" moved remaining kept) ∧
        Partition overlappingMaps overlappingRefs overlappingDirect
          (mergedFields overlappingDirect (overlappingRefs.map Prod.fst) overlappingMaps)
          (contributions overlappingDirect overlappingMaps (overlappingRefs.map Prod.fst)) moved remaining kept := by
  have hdirect : (Assoc.keys overlappingDirect).Nodup := by decide
  have hmaps : ∀ r ∈ overlappingRefs,
      ∃ fs, Assoc.get? overlappingMaps r.1.fragment = some fs ∧ (Assoc.keys fs).Nodup := by
    simp [overlappingRefs, overlappingMaps, Assoc.get?_cons]
  exact ⟨hdirect, hmaps, compose_partitions hdirect hmaps⟩

end ResponseTypes.Compile
