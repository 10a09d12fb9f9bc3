import ResponseTypes.Proofs.Shape.Branches
import ResponseTypes.Proofs.Text.Distinct
import ResponseTypes.Shape.Compose

/-!
# What shapes refer to

A shape refers to types by their names: to scalars, enums and input types, to type tags, and to the types of fragments.
`Shape.RefsIn L` : all names that a shape refers to, at any depth, are in `L`.  Merging, simplifying and composing bring in
no name that was not there.
-/

namespace ResponseTypes.Shape

set_option autoImplicit false

/-- Names that shapes may refer to. -/
structure Leaves where
  /-- type expressions of scalars, enums and input types -/
  scalar : String → Prop
  /-- concrete types that have a tag -/
  tag : String → Prop
  /-- abstract types that have a tag -/
  tagUnion : String → Prop
  /-- fragments, with the names of their types -/
  ref (fragment artifact : String) : Prop

namespace Leaves

/-- All names are in `L'` that are in `L`. -/
structure Le (L L' : Leaves) : Prop where
  scalar : ∀ code, L.scalar code → L'.scalar code
  tag : ∀ name, L.tag name → L'.tag name
  tagUnion : ∀ name, L.tagUnion name → L'.tagUnion name
  ref : ∀ fragment artifact, L.ref fragment artifact → L'.ref fragment artifact

/-- Some reference to the fragment is in `L`. -/
def Fragment (L : Leaves) (name : String) : Prop :=
  ∃ artifact, L.ref name artifact

/-- The types that a tag names are in `L`. -/
structure HasTag (L : Leaves) (t : TypeTag) : Prop where
  names : ∀ name ∈ t.names, L.tag name
  within : ∀ name, t.within = some name → L.tagUnion name

theorem HasTag.mono {L L' : Leaves} (hL : L.Le L') {t : TypeTag} (h : L.HasTag t) : L'.HasTag t :=
  ⟨fun name hname => hL.tag name (h.names name hname), fun name hname => hL.tagUnion name (h.within name hname)⟩

theorem hasTag_single {L : Leaves} {name : String} (h : L.tag name) : L.HasTag (.single name) :=
  ⟨fun _ hname => List.mem_singleton.1 hname ▸ h, fun _ => nofun⟩

theorem hasTag_allOf {L : Leaves} {name : String} (h : L.tagUnion name) : L.HasTag (.allOf name) :=
  ⟨fun _ hname => absurd hname List.not_mem_nil, fun _ hname => Option.some.inj hname ▸ h⟩

theorem hasTag_ofNames {L : Leaves} {names : List String} {within : Option String} (hnames : ∀ name ∈ names, L.tag name)
    (hwithin : ∀ name, within = some name → L.tagUnion name) : L.HasTag (.ofNames names within) := by
  refine ⟨fun name hname => hnames name ?_, hwithin⟩
  exact Text.mem_distinct.1 (Text.mem_sorted.1 hname)

/-- A tag for the values of two names nothing else. -/
theorem hasTag_uniteTags {L : Leaves} {a b t : TypeTag} (ha : L.HasTag a) (hb : L.HasTag b)
    (ht : uniteTags a b = some t) : L.HasTag t := by
  unfold uniteTags at ht
  split at ht
  · cases ht
    exact hasTag_ofNames (fun name hname => (List.mem_append.1 hname).elim (ha.names name) (hb.names name)) fun _ => nofun
  · rename_i w hw _
    cases ht
    exact ⟨fun name hname => ha.names name (List.mem_filter.1 hname).1, fun name hname => ha.within name (hw.trans hname)⟩
  · rename_i w _ hw
    cases ht
    exact ⟨fun name hname => hb.names name (List.mem_filter.1 hname).1, fun name hname => hb.within name (hw.trans hname)⟩
  · rename_i w w' hw _
    split at ht
    · cases ht
      exact ⟨fun name hname => ha.names name (List.mem_filter.1 hname).1,
        fun name hname => ha.within name (hw.trans hname)⟩
    · cases ht

end Leaves

variable {L : Leaves}

mutual

/-- The names that a shape refers to are in `L`. -/
def RefsIn (L : Leaves) : Shape → Prop
  | scalar code _ => L.scalar code
  | tag t _ => L.HasTag t
  | object _ fields _ => FieldRefsIn L fields
  | array element _ _ => RefsIn L element
  | union branches _ => ListRefsIn L branches
  | inter parts _ => ListRefsIn L parts
  | ref r _ => L.ref r.fragment r.artifact

/-- The names that some shapes refer to are in `L`. -/
def ListRefsIn (L : Leaves) : List Shape → Prop
  | [] => True
  | s :: rest => RefsIn L s ∧ ListRefsIn L rest

/-- The names that some fields refer to are in `L`. -/
def FieldRefsIn (L : Leaves) : List (String × Shape) → Prop
  | [] => True
  | (_, s) :: rest => RefsIn L s ∧ FieldRefsIn L rest

end

mutual

theorem RefsIn.mono {L' : Leaves} (hL : L.Le L') (s : Shape) (h : s.RefsIn L) : s.RefsIn L' := by
  match s, h with
  | scalar code _, h => exact hL.scalar code h
  | tag _ _, h => exact Leaves.HasTag.mono hL h
  | object _ fields _, h => exact FieldRefsIn.mono hL fields h
  | array element _ _, h => exact RefsIn.mono hL element h
  | union branches _, h => exact ListRefsIn.mono hL branches h
  | inter parts _, h => exact ListRefsIn.mono hL parts h
  | ref r _, h => exact hL.ref r.fragment r.artifact h

theorem ListRefsIn.mono {L' : Leaves} (hL : L.Le L') (shapes : List Shape) (h : ListRefsIn L shapes) :
    ListRefsIn L' shapes := by
  match shapes, h with
  | [], _ => trivial
  | s :: rest, h => exact ⟨RefsIn.mono hL s h.1, ListRefsIn.mono hL rest h.2⟩

theorem FieldRefsIn.mono {L' : Leaves} (hL : L.Le L') (fields : List (String × Shape))
    (h : FieldRefsIn L fields) : FieldRefsIn L' fields := by
  match fields, h with
  | [], _ => trivial
  | (_, s) :: rest, h => exact ⟨RefsIn.mono hL s h.1, FieldRefsIn.mono hL rest h.2⟩

end

theorem listRefsIn_iff {shapes : List Shape} : ListRefsIn L shapes ↔ ∀ s ∈ shapes, s.RefsIn L := by
  induction shapes with
  | nil => simp [ListRefsIn]
  | cons s rest ih => simp [ListRefsIn, ih]

theorem fieldRefsIn_iff {fields : Fields} : FieldRefsIn L fields ↔ ∀ e ∈ fields, e.2.RefsIn L := by
  induction fields with
  | nil => simp [FieldRefsIn]
  | cons e rest ih => simp [FieldRefsIn, ih]

@[simp] theorem refsIn_withNote (n : Note) (s : Shape) : (s.withNote n).RefsIn L ↔ s.RefsIn L := by
  cases s <;> simp [withNote, RefsIn]

@[simp] theorem refsIn_withNullable (nullable : Bool) (s : Shape) : (s.withNullable nullable).RefsIn L ↔ s.RefsIn L :=
  refsIn_withNote _ s

theorem refsIn_get? {fields : Fields} {k : String} {s : Shape} (h : FieldRefsIn L fields)
    (hs : Assoc.get? fields k = some s) : s.RefsIn L :=
  fieldRefsIn_iff.1 h (k, s) (Assoc.mem_of_get? hs)

theorem fieldRefsIn_insert {fields : Fields} {k : String} {s : Shape} (h : FieldRefsIn L fields) (hs : s.RefsIn L) :
    FieldRefsIn L (Assoc.insert fields k s) := by
  rw [fieldRefsIn_iff] at h ⊢
  intro e he
  rcases Assoc.mem_insert he with rfl | he
  · exact hs
  · exact h e he

theorem refsIn_fields {s : Shape} (h : s.RefsIn L) : FieldRefsIn L s.fields := by
  cases s <;> first | exact h | trivial

theorem listRefsIn_appendParts {parts more : List Shape} (h : ListRefsIn L parts) (h' : ListRefsIn L more) :
    ListRefsIn L (appendParts parts more) :=
  listRefsIn_iff.2 (forall_appendParts (listRefsIn_iff.1 h) (listRefsIn_iff.1 h'))

section Layer

variable {below : Shape → Shape → Shape} (hb : ∀ a b, a.RefsIn L → b.RefsIn L → (below a b).RefsIn L)

include hb

theorem fieldRefsIn_mergeFieldsWith {a b : Fields} (ha : FieldRefsIn L a) (hb' : FieldRefsIn L b) :
    FieldRefsIn L (mergeFieldsWith below a b) :=
  fieldRefsIn_iff.2 (forall_mergeFieldsWith (P := fun _ s => s.RefsIn L) (fieldRefsIn_iff.1 ha) (fieldRefsIn_iff.1 hb')
    fun _ => hb)

theorem refsIn_mergeObjects {a b : Shape} (ha : a.RefsIn L) (hb' : b.RefsIn L) :
    (mergeObjects below a b).RefsIn L := by
  unfold mergeObjects
  split
  · exact fieldRefsIn_mergeFieldsWith hb ha hb'
  · exact ha

theorem listRefsIn_unifyWith {shapes : List Shape} (h : ListRefsIn L shapes) : ListRefsIn L (unifyWith below shapes) :=
  listRefsIn_iff.2 (forall_unifyWith (fun _ _ => listRefsIn_iff.1) (fun _ _ => refsIn_mergeObjects hb) (listRefsIn_iff.1 h))

theorem refsIn_mergeMismatched {a b : Shape} (ha : a.RefsIn L) (hb' : b.RefsIn L) :
    (mergeMismatched below a b).RefsIn L := by
  unfold mergeMismatched
  dsimp only
  split
  · exact fieldRefsIn_mergeFieldsWith hb ha ⟨hb', trivial⟩
  · exact fieldRefsIn_mergeFieldsWith hb ⟨ha, trivial⟩ hb'
  · exact listRefsIn_appendParts ha ⟨hb', trivial⟩
  · exact listRefsIn_appendParts ⟨ha, trivial⟩ hb'
  · exact ⟨ha, hb', trivial⟩
  · exact ⟨ha, hb', trivial⟩
  · exact listRefsIn_unifyWith hb ⟨ha, hb', trivial⟩

theorem refsIn_mergeWith {a b : Shape} (ha : a.RefsIn L) (hb' : b.RefsIn L) : (mergeWith below a b).RefsIn L := by
  unfold mergeWith
  dsimp only
  split
  · split
    · exact (refsIn_withNote _ _).2 ha
    · exact listRefsIn_unifyWith hb ⟨(refsIn_withNullable _ _).2 ha, (refsIn_withNullable _ _).2 hb', trivial⟩
  · split
    · rename_i ht
      exact Leaves.hasTag_uniteTags ha hb' ht
    · exact ⟨ha, hb', trivial⟩
  · exact refsIn_mergeObjects hb ha hb'
  · exact hb _ _ ha hb'
  · refine listRefsIn_unifyWith hb (listRefsIn_iff.2 fun s hs => ?_)
    exact (List.mem_append.1 hs).elim (listRefsIn_iff.1 ha s) (listRefsIn_iff.1 hb' s)
  · exact listRefsIn_appendParts ha hb'
  · split
    · exact (refsIn_withNote _ _).2 ha
    · exact ⟨ha, hb', trivial⟩
  · exact refsIn_mergeMismatched hb ha hb'

end Layer

theorem refsIn_mergeAt (n : Nat) : ∀ a b : Shape, a.RefsIn L → b.RefsIn L → (mergeAt n a b).RefsIn L := by
  induction n with
  | zero => exact fun a b ha hb => refsIn_mergeWith (fun a b ha _ => ha) ha hb
  | succ n ih => exact fun a b ha hb => refsIn_mergeWith ih ha hb

theorem refsIn_merge {a b : Shape} (ha : a.RefsIn L) (hb : b.RefsIn L) : (merge a b).RefsIn L :=
  refsIn_mergeAt _ a b ha hb

theorem fieldRefsIn_mergeFields {a b : Fields} (ha : FieldRefsIn L a) (hb : FieldRefsIn L b) :
    FieldRefsIn L (mergeFields a b) :=
  fieldRefsIn_mergeFieldsWith (fun _ _ => refsIn_merge) ha hb

/-! ## Simplifying -/

theorem fieldRefsIn_uniteFieldTags {others fields united : Fields} (ho : FieldRefsIn L others) (h : FieldRefsIn L fields)
    (hu : uniteFieldTags others fields = some united) : FieldRefsIn L united :=
  fieldRefsIn_iff.2 (forall_uniteFieldTags (Q := fun _ s => s.RefsIn L)
    (fun _ _ _ _ _ _ ht hother => Leaves.hasTag_uniteTags ht (refsIn_get? ho hother)) (fieldRefsIn_iff.1 h) hu)

theorem refsIn_combine {a b s : Shape} (ha : a.RefsIn L) (hb : b.RefsIn L) (hs : combine a b = some s) : s.RefsIn L := by
  obtain ⟨_, fields, _, _, others, _, united, rfl, rfl, hunited, rfl⟩ := exists_of_combine hs
  exact fieldRefsIn_uniteFieldTags hb ha hunited

theorem refsIn_unionOf {branches : List Shape} (n : Note) (h : ListRefsIn L branches) : (unionOf branches n).RefsIn L :=
  of_unionOf (fun _ _ _ => refsIn_combine) (fun s n => (refsIn_withNote n s).2) (fun _ _ => listRefsIn_iff.2) n
    (listRefsIn_iff.1 h)

mutual

theorem refsIn_simplify (s : Shape) (h : s.RefsIn L) : (simplify s).RefsIn L := by
  match s, h with
  | scalar _ _, h | tag _ _, h | ref _ _, h => exact h
  | object _ fields _, h => exact fieldRefsIn_simplifyFields fields h
  | array element _ _, h => exact refsIn_simplify element h
  | inter parts _, h => exact listRefsIn_simplifyList parts h
  | union branches n, h => exact refsIn_unionOf n (listRefsIn_simplifyList branches h)

theorem listRefsIn_simplifyList (shapes : List Shape) (h : ListRefsIn L shapes) :
    ListRefsIn L (simplifyList shapes) := by
  match shapes, h with
  | [], _ => trivial
  | s :: rest, h => exact ⟨refsIn_simplify s h.1, listRefsIn_simplifyList rest h.2⟩

theorem fieldRefsIn_simplifyFields (fields : List (String × Shape)) (h : FieldRefsIn L fields) :
    FieldRefsIn L (simplifyFields fields) := by
  match fields, h with
  | [], _ => trivial
  | (_, s) :: rest, h => exact ⟨refsIn_simplify s h.1, fieldRefsIn_simplifyFields rest h.2⟩

end

/-! ## Composing -/

theorem refsIn_mergeAll {first : Shape} {rest : List Shape} (h : first.RefsIn L) (hr : ListRefsIn L rest) :
    (mergeAll first rest).1.RefsIn L := by
  unfold mergeAll
  generalize hacc : (first, false) = acc
  replace h : acc.1.RefsIn L := hacc ▸ h
  clear hacc
  induction rest generalizing acc with
  | nil => exact h
  | cons s rest ih => exact ih hr.2 _ (refsIn_merge h hr.1)

theorem refsIn_conflict? {shapes : List Shape} {s : Shape} (h : ListRefsIn L shapes) (hs : conflict? shapes = some s) :
    s.RefsIn L := by
  unfold conflict? at hs
  split at hs
  · split at hs
    · cases hs
    · dsimp only at hs
      split at hs
      · cases hs
        exact refsIn_mergeAll h.1 h.2
      · cases hs
  · cases hs

/-- Composing refers to what the fields of fragments refer to, and to fragments. -/
theorem refsIn_compose {typeName : String} {direct : Fields} {refs : List (FragmentRef × Note)} {maps : FieldMaps}
    {s : Shape} (hdirect : FieldRefsIn L direct) (hrefs : ∀ r ∈ refs, L.ref r.1.fragment r.1.artifact)
    (hmaps : ∀ e ∈ maps, FieldRefsIn L e.2) (hs : compose typeName direct refs maps = .ok s) : s.RefsIn L := by
  unfold compose at hs
  split at hs
  · cases hs
  · have hmap : ∀ r : FragmentRef, FieldRefsIn L (refFields maps r) := by
      intro r
      unfold refFields
      cases hr : Assoc.get? maps r.fragment with
      | none => trivial
      | some fields => exact hmaps _ (Assoc.mem_of_get? hr)
    have hconflicts : FieldRefsIn L (conflicts direct (refs.map Prod.fst) maps) := by
      rw [fieldRefsIn_iff]
      intro e he
      obtain ⟨k, -, hk⟩ := List.mem_filterMap.1 he
      obtain ⟨s, hs, rfl⟩ := Option.map_eq_some_iff.1 hk
      refine refsIn_conflict? (listRefsIn_iff.2 fun t ht => ?_) hs
      rcases List.mem_append.1 ht with ht | ht
      · exact refsIn_get? hdirect (Option.mem_toList.1 ht)
      · obtain ⟨r, -, hr⟩ := List.mem_filterMap.1 ht
        exact refsIn_get? (hmap r) hr
    have hobject : ∀ fields t, FieldRefsIn L fields → t ∈ objectOf? typeName fields → t.RefsIn L := by
      intro fields t hfields ht
      unfold objectOf? at ht
      split at ht
      · cases ht
      · cases ht
        exact hfields
    have hparts : ∀ t ∈ (objectOf? typeName (conflicts direct (refs.map Prod.fst) maps)).toList ++
        (objectOf? typeName (direct.filter
          (fun e => !Assoc.has (conflicts direct (refs.map Prod.fst) maps) e.1))).toList ++
        refs.filterMap (fun r => keepRef? maps (conflicts direct (refs.map Prod.fst) maps) r.1 r.2), t.RefsIn L := by
      intro t ht
      rcases List.mem_append.1 ht with ht | ht
      · rcases List.mem_append.1 ht with ht | ht
        · exact hobject _ t hconflicts (Option.mem_toList.1 ht)
        · refine hobject _ t (fieldRefsIn_iff.2 fun e he => ?_) (Option.mem_toList.1 ht)
          exact fieldRefsIn_iff.1 hdirect e (List.mem_filter.1 he).1
      · obtain ⟨r, hr, hk⟩ := List.mem_filterMap.1 ht
        unfold keepRef? at hk
        dsimp only at hk
        split at hk
        · cases hk
        · cases hk
          exact hrefs r hr
    cases hs
    split
    · trivial
    · rename_i t ht
      exact hparts t (ht ▸ List.mem_singleton_self t)
    · exact listRefsIn_iff.2 hparts

end ResponseTypes.Shape
