import ResponseTypes.Proofs.Shape.Unordered
import ResponseTypes.Proofs.Shape.WellFormed

/-!
# Merging twice and in either order

Merging a well-formed shape with itself gives the shape itself, and merging two in either order gives shapes with one key,
once the parts of intersections are compared as unordered (`merge_idempotent_commutative`).  Fields stand under their keys
and branches at the places of their labels; so both orders come down to what is merged under one key (`get?_mergeFieldsWith`)
or at one place (`branchAt_addBranches`).
-/

namespace ResponseTypes.Shape

set_option autoImplicit false

/-- Well-formed shapes whose tags have sorted, distinct names, whose fields are maps and whose references leave nothing
out. -/
def settled : Form where
  tag t := TypeTag.ofNames t.names t.within = t
  ref r := r.omitted = []
  fields fields := (Assoc.keys fields).Nodup ∧ RefersUnderKeys fields
  branches := wellFormed.branches
  parts := wellFormed.parts

variable {below : Shape → Shape → Shape} {a b s : Shape} {l acc : List Shape} {k : Nat}

/-! ## Notes and tags -/

theorem keepNote_self (n : Note) : keepNote n n = n := by
  simp [keepNote]

theorem mergeNotes_self (n : Note) : mergeNotes n n = n := by
  obtain ⟨nullable, description⟩ := n
  have hdescription : Note.firstDescription description description = description := by
    unfold Note.firstDescription
    split <;> rfl
  simp [mergeNotes, hdescription]

theorem uniteTags_self {t : TypeTag} (h : TypeTag.ofNames t.names t.within = t) : uniteTags t t = some t := by
  obtain ⟨names, within⟩ := t
  cases within with
  | none =>
    have hnames : TypeTag.ofNames (names ++ names) none = TypeTag.ofNames names none :=
      congrArg (TypeTag.mk · none) (Text.sorted_distinct_congr fun x => by simp)
    exact congrArg some (hnames.trans h)
  | some w => simp [uniteTags]

/-- The names of a settled tag are known by what names they are. -/
theorem filter_names_congr {names names' : List String} {within : Option String} {p q : String → Bool}
    (h : TypeTag.ofNames names within = ⟨names, within⟩) (h' : TypeTag.ofNames names' within = ⟨names', within⟩)
    (hsame : ∀ x, x ∈ names.filter p ↔ x ∈ names'.filter q) : names.filter p = names'.filter q := by
  have hsettled : ∀ {names : List String} {r : String → Bool}, TypeTag.ofNames names within = ⟨names, within⟩ →
      (names.filter r).Nodup ∧ (names.filter r).Pairwise (· ≤ ·) := by
    intro names r h
    have hnames : Text.sorted (Text.distinct names) = names := congrArg TypeTag.names h
    have hnodup : names.Nodup := hnames ▸ (Text.sortBy_perm _ _).nodup_iff.2 (Text.nodup_distinct names)
    have hsorted : names.Pairwise (· ≤ ·) := hnames ▸ Text.pairwise_sorted (Text.distinct names)
    exact ⟨hnodup.filter r, hsorted.filter r⟩
  obtain ⟨hnodup, hsorted⟩ := hsettled (r := p) h
  obtain ⟨hnodup', hsorted'⟩ := hsettled (r := q) h'
  exact ((List.perm_ext_iff_of_nodup hnodup hnodup').2 hsame).eq_of_pairwise' hsorted hsorted'

theorem uniteTags_comm {t t' : TypeTag} (h : TypeTag.ofNames t.names t.within = t)
    (h' : TypeTag.ofNames t'.names t'.within = t') : uniteTags t t' = uniteTags t' t := by
  obtain ⟨names, within⟩ := t
  obtain ⟨names', within'⟩ := t'
  cases within with
  | none =>
    cases within' with
    | none =>
      refine congrArg some (congrArg (TypeTag.mk · none) (Text.sorted_distinct_congr fun x => ?_))
      rw [List.mem_append, List.mem_append, or_comm]
    | some w' => rfl
  | some w =>
    cases within' with
    | none => rfl
    | some w' =>
      by_cases hw : w = w'
      · subst hw
        have hnames : names.filter names'.contains = names'.filter names.contains :=
          filter_names_congr h h' fun x => by simp [and_comm]
        simp [uniteTags, hnames]
      · simp [uniteTags, hw, Ne.symm hw]

/-! ## Places -/

/-- The branches of a union with their places. -/
def placed (branches : List Shape) : Assoc Label Shape :=
  branches.map fun s => (label s, s)

/-- The branch at a place. -/
def branchAt (branches : List Shape) (place : Label) : Option Shape :=
  Assoc.get? (placed branches) place

theorem keys_placed (branches : List Shape) : Assoc.keys (placed branches) = branches.map label := by
  simp [placed, Assoc.keys]

theorem branchAt_append (branches more : List Shape) (place : Label) :
    branchAt (branches ++ more) place = (branchAt branches place).or (branchAt more place) := by
  rw [branchAt, placed, List.map_append, Assoc.get?_append]
  rfl

theorem branchAt_cons (branches : List Shape) (place : Label) :
    branchAt (s :: branches) place = if label s = place then some s else branchAt branches place :=
  rfl

theorem branchAt_eq_none {branches : List Shape} {place : Label} :
    branchAt branches place = none ↔ place ∉ branches.map label := by
  rw [branchAt, Assoc.get?_eq_none, keys_placed]

theorem mem_of_branchAt {branches : List Shape} {place : Label} (h : branchAt branches place = some s) :
    s ∈ branches ∧ label s = place := by
  obtain ⟨t, ht, heq⟩ := List.mem_map.1 (Assoc.mem_of_get? h)
  obtain ⟨rfl, rfl⟩ := Prod.mk.inj heq
  exact ⟨ht, rfl⟩

/-- What stands at a place after a branch is added. -/
theorem branchAt_addBranch (place : Label) : branchAt (addBranch below acc s) place =
    if label s = place then Option.merge (mergeObjects below) (branchAt acc place) (some s) else branchAt acc place := by
  rcases addBranch_cases below acc s with ⟨hnew, hadd⟩ | ⟨pre, first, post, rfl, hlabel, hpre, hadd⟩
  · rw [hadd, branchAt_append, branchAt_cons]
    split
    · rename_i hplace
      rw [branchAt_eq_none.2 (hplace ▸ hnew)]
      rfl
    · exact Option.or_none
  · rw [hadd, branchAt_append, branchAt_append, branchAt_cons, branchAt_cons, label_mergeObjects, hlabel]
    split
    · rename_i hplace
      rw [branchAt_eq_none.2 (hplace ▸ hpre)]
      rfl
    · rfl

/-- What stands at a place after branches with different places are added. -/
theorem branchAt_addBranches (hl : (l.map label).Nodup) (place : Label) : branchAt (addBranches below acc l) place =
    Option.merge (mergeObjects below) (branchAt acc place) (branchAt l place) := by
  induction l generalizing acc with
  | nil => exact Option.merge_none_right.symm
  | cons s rest ih =>
    obtain ⟨hnew, hrest⟩ := List.nodup_cons.1 hl
    refine (ih hrest).trans ?_
    rw [branchAt_addBranch, branchAt_cons]
    split
    · rename_i hplace
      rw [branchAt_eq_none.2 (show place ∉ rest.map label from hplace ▸ hnew)]
      exact Option.merge_none_right
    · rfl

/-- Branches with different places are added one after the other. -/
theorem addBranches_of_nodup (acc : List Shape) (h : ((acc ++ l).map label).Nodup) : addBranches below acc l = acc ++ l := by
  induction l generalizing acc with
  | nil => exact (List.append_nil acc).symm
  | cons s rest ih =>
    have hnew : label s ∉ acc.map label := by
      rw [List.map_append, List.map_cons] at h
      exact fun hmem => (List.nodup_append.1 h).2.2 _ hmem _ List.mem_cons_self rfl
    have hadd : addBranch below acc s = acc ++ [s] :=
      (addBranch_cases below acc s).elim And.right fun ⟨pre, first, post, hacc, hlabel, _⟩ =>
        absurd (List.mem_map.2 ⟨first, by simp [hacc], hlabel⟩) hnew
    rw [List.append_cons] at h ⊢
    rw [← ih _ h, ← hadd]
    rfl

/-- Branches that are there already and are merged with themselves to themselves change nothing. -/
theorem addBranches_of_mem (hacc : (acc.map label).Nodup) (hl : ∀ s ∈ l, s ∈ acc ∧ mergeObjects below s s = s) :
    addBranches below acc l = acc := by
  refine List.foldlRecOn (motive := fun acc' => acc' = acc) l _ rfl fun acc' hacc' s hs => ?_
  obtain ⟨hmem, hself⟩ := hl s hs
  subst hacc'
  rcases addBranch_cases below acc' s with ⟨hnew, -⟩ | ⟨pre, first, post, rfl, hlabel, -, hadd⟩
  · exact absurd (List.mem_map_of_mem hmem) hnew
  · have hfirst : first = s := List.inj_on_of_nodup_map hacc (by simp) hmem hlabel
    rw [hadd, hfirst, hself]

/-! ## Merging a shape with itself -/

theorem flatList_of_flat (h : ∀ s ∈ l, s.isUnion = false) : flatList l = l := by
  induction l with
  | nil => rfl
  | cons s rest ih =>
    obtain ⟨hs, hrest⟩ := List.forall_mem_cons.1 h
    rw [flatList, ih hrest]
    cases s with
    | union => cases hs
    | scalar | tag | object | array | inter | ref => rfl

theorem mergeFieldsWith_self {fields : Fields} (hnodup : (Assoc.keys fields).Nodup) (h : ∀ e ∈ fields, below e.2 e.2 = e.2) :
    mergeFieldsWith below fields fields = fields := by
  have hfilter : fields.filter (fun e => !Assoc.has fields e.1) = [] := by
    refine List.filter_eq_nil_iff.2 fun e he => ?_
    simp [Assoc.has_iff.2 (List.mem_map_of_mem he : e.1 ∈ Assoc.keys fields)]
  rw [mergeFieldsWith, hfilter, List.append_nil]
  refine (List.map_congr_left fun e he => ?_).trans (List.map_id fields)
  rw [Assoc.get?_of_mem hnodup he]
  exact Prod.ext rfl (h e he)

theorem appendParts_self (parts : List Shape) : appendParts parts parts = parts := by
  refine List.foldlRecOn (motive := fun acc => acc = parts) parts _ rfl fun acc hacc s hs => ?_
  subst hacc
  exact if_pos (occursIn_iff.2 (List.mem_map_of_mem hs))

theorem mergeObjects_self (h : merge s s = s) : mergeObjects merge s s = s := by
  cases s with
  | object => exact (merge_eq _ _).symm.trans h
  | scalar | tag | array | union | inter | ref => rfl

/-- A settled shape is not changed by being merged with itself. -/
theorem merge_self (s : Shape) (h : s.Formed settled) : merge s s = s := by
  rw [merge_eq]
  induction s using induction with
  | scalar code n => rw [mergeWith, if_pos rfl, keepNote_self, withNote_note]
  | tag t n =>
    rw [mergeWith, uniteTags_self h, mergeNotes_self]
  | object typeName fields n ih =>
    obtain ⟨hfields, hall⟩ := formed_object.1 h
    rw [mergeWith, mergeObjects, keepNote_self, mergeFieldsWith_self hfields.1]
    exact fun e he => (merge_eq _ _).trans (ih e he (hall e he))
  | array element elementNullable n ih =>
    rw [mergeWith, keepNote_self, Bool.or_self, merge_eq, ih h]
    rfl
  | union branches n ih =>
    obtain ⟨⟨hflat, happart⟩, hall⟩ := formed_union.1 h
    have hnodup := pairwise_clash_iff.1 happart
    have hself : ∀ s ∈ branches, s ∈ branches ∧ mergeObjects merge s s = s :=
      fun s hs => ⟨hs, mergeObjects_self ((merge_eq s s).trans (ih s hs (hall s hs)))⟩
    have hadd : addBranches merge [] (branches ++ branches) = branches := by
      rw [addBranches, List.foldl_append]
      exact (congrArg (addBranches merge · branches) (addBranches_of_nodup [] hnodup)).trans (addBranches_of_mem hnodup hself)
    rw [mergeWith, unifyWith_eq, flatList_append, flatList_of_flat hflat, hadd, keepNote_self]
    rfl
  | inter parts n => rw [mergeWith, appendParts_self, keepNote_self]; rfl
  | ref r n => rw [mergeWith, if_pos rfl, keepNote_self, withNote_note]

/-! ## Merging in either order -/

/-- A settled shape, nested no deeper than `k`. -/
structure SettledIn (k : Nat) (s : Shape) : Prop where
  formed : s.Formed settled
  nesting : s.nesting ≤ k

/-- The branches of a settled shape beside another one have different places. -/
theorem settled_branchesBeside (h : SettledIn k a) :
    ((branchesBeside a b).map label).Nodup ∧ ∀ t ∈ branchesBeside a b, SettledIn k t := by
  refine ⟨?_, fun t ht => ⟨(formed_branchesBeside h.formed t ht).2, nesting_branchesBeside h.nesting t ht⟩⟩
  unfold branchesBeside
  split
  · exact List.nodup_singleton _
  · cases a with
    | union branches n =>
      obtain ⟨⟨hflat, happart⟩, -⟩ := formed_union.1 h.formed
      rw [flatBranches, flatList_of_flat hflat]
      exact pairwise_clash_iff.1 happart
    | scalar | tag | object | array | inter | ref => exact List.nodup_singleton _

theorem settled_parts (h : a.Formed settled) : (a.parts.map (key false)).Nodup := by
  cases a with
  | inter parts n => exact pairwise_identical_iff.1 (formed_inter.1 h).1.2
  | scalar | tag | object | array | union | ref => exact List.nodup_singleton _

theorem mem_keys_appendParts {parts more : List Shape} {x : ShapeKey} :
    x ∈ (appendParts parts more).map (key false) ↔ x ∈ parts.map (key false) ∨ x ∈ more.map (key false) := by
  unfold appendParts
  induction more generalizing parts with
  | nil => simp
  | cons s rest ih =>
    rw [List.foldl_cons, ih, List.map_cons, List.mem_cons, ← or_assoc]
    refine or_congr_left ?_
    split
    · rename_i hoccurs
      exact ⟨Or.inl, fun h => h.elim id fun heq => heq ▸ occursIn_iff.1 hoccurs⟩
    · rw [List.map_append, List.mem_append, List.map_singleton, List.mem_singleton]

/-- The parts of an intersection are the same in either order. -/
theorem map_appendParts_perm {parts more : List Shape} (h : (parts.map (key false)).Nodup) (h' : (more.map (key false)).Nodup) :
    ((appendParts parts more).map unorderedKey).Perm ((appendParts more parts).map unorderedKey) := by
  have hperm : ((appendParts parts more).map (key false)).Perm ((appendParts more parts).map (key false)) :=
    (List.perm_ext_iff_of_nodup (nodup_keys_appendParts h) (nodup_keys_appendParts h')).2 fun x => by
      rw [mem_keys_appendParts, mem_keys_appendParts, or_comm]
  have hmap := hperm.map ShapeKey.unordered
  rwa [List.map_map, List.map_map] at hmap

/-- Two values of a map, or of a place, merged in either order. -/
theorem map_merge_comm {x y : Option Shape} (h : ∀ a ∈ x, ∀ b ∈ y, unorderedKey (below a b) = unorderedKey (below b a)) :
    (Option.merge below x y).map unorderedKey = (Option.merge below y x).map unorderedKey := by
  cases x with
  | none => cases y <;> rfl
  | some a =>
    cases y with
    | none => rfl
    | some b => exact congrArg some (h a rfl b rfl)

section Layer

variable (hcomm : ∀ a b, a.Formed settled → b.Formed settled → a.nesting < k → b.nesting < k →
  unorderedKey (merge a b) = unorderedKey (merge b a))

include hcomm

theorem unorderedFields_perm {fields fields' : Fields} (h : settled.fields fields ∧ ∀ e ∈ fields, e.2.Formed settled)
    (h' : settled.fields fields' ∧ ∀ e ∈ fields', e.2.Formed settled) (hk : ∀ e ∈ fields, e.2.nesting < k)
    (hk' : ∀ e ∈ fields', e.2.nesting < k) :
    (unorderedFields (mergeFieldsWith merge fields fields')).Perm (unorderedFields (mergeFieldsWith merge fields' fields)) := by
  have hkeys : ∀ fields : Fields, Assoc.keys (unorderedFields fields) = Assoc.keys fields := by
    intro fields
    rw [Assoc.keys, unorderedFields, List.map_map]
    rfl
  refine Assoc.perm_of_get? (hkeys _ ▸ nodup_mergeFieldsWith h.1.1 h'.1.1) (hkeys _ ▸ nodup_mergeFieldsWith h'.1.1 h.1.1)
    fun key => ?_
  have hget : ∀ fields : Fields, Assoc.get? (unorderedFields fields) key = (Assoc.get? fields key).map unorderedKey :=
    fun fields => Assoc.get?_map (fun e => unorderedKey e.2) fields key
  rw [hget, hget, get?_mergeFieldsWith, get?_mergeFieldsWith]
  refine map_merge_comm fun a ha b hb => ?_
  have ha' := Assoc.mem_of_get? ha
  have hb' := Assoc.mem_of_get? hb
  exact hcomm a b (h.2 _ ha') (h'.2 _ hb') (hk _ ha') (hk' _ hb')

theorem unorderedKey_mergeObjects (ha : SettledIn k a) (hb : SettledIn k b) (hlabel : label a = label b) :
    unorderedKey (mergeObjects merge a b) = unorderedKey (mergeObjects merge b a) := by
  by_cases hobject : ∃ typeName, label b = .object typeName
  · obtain ⟨typeName, hobject⟩ := hobject
    obtain ⟨fields, n, rfl⟩ := exists_object_of_label (hlabel.trans hobject)
    obtain ⟨fields', n', rfl⟩ := exists_object_of_label hobject
    have hfields := formed_object.1 ha.formed
    have hfields' := formed_object.1 hb.formed
    refine unorderedKey_object_congr (Bool.and_comm _ _) (nodup_mergeFieldsWith hfields.1.1 hfields'.1.1) ?_
    exact unorderedFields_perm hcomm hfields hfields' (nesting_object_le.1 ha.nesting).2 (nesting_object_le.1 hb.nesting).2
  · have hother : ∀ typeName, label b ≠ .object typeName := fun typeName h => hobject ⟨typeName, h⟩
    rw [mergeObjects_eq_left hother, mergeObjects_eq_left (hlabel ▸ hother)]
    exact unorderedKey_of_key (key_eq_of_label hlabel hother)

/-- The branches of a union are the same in either order. -/
theorem map_addBranches_perm {l l' : List Shape} (h : (l.map label).Nodup ∧ ∀ t ∈ l, SettledIn k t)
    (h' : (l'.map label).Nodup ∧ ∀ t ∈ l', SettledIn k t) :
    ((addBranches merge [] (l ++ l')).map unorderedKey).Perm ((addBranches merge [] (l' ++ l)).map unorderedKey) := by
  have happend : ∀ {l l' : List Shape}, (l.map label).Nodup →
      addBranches merge [] (l ++ l') = addBranches merge l l' := by
    intro l l' hl
    rw [addBranches, List.foldl_append]
    exact congrArg (addBranches merge · l') (addBranches_of_nodup [] hl)
  have hnodup : ∀ l : List Shape, (Assoc.keys ((placed (addBranches merge [] l)).map fun e => (e.1, unorderedKey e.2))).Nodup := by
    intro l
    have hkeys : Assoc.keys ((placed (addBranches merge [] l)).map fun e => (e.1, unorderedKey e.2)) =
        (addBranches merge [] l).map label := by simp [placed, Assoc.keys]
    exact hkeys ▸ nodup_labels_addBranches
  have hperm := Assoc.perm_of_get? (hnodup (l ++ l')) (hnodup (l' ++ l)) fun place => by
    rw [Assoc.get?_map (fun e => unorderedKey e.2), Assoc.get?_map (fun e => unorderedKey e.2)]
    change (branchAt _ place).map unorderedKey = (branchAt _ place).map unorderedKey
    rw [happend h.1, happend h'.1, branchAt_addBranches h'.1, branchAt_addBranches h.1]
    refine map_merge_comm fun a ha b hb => ?_
    obtain ⟨hmem, hlabel⟩ := mem_of_branchAt ha
    obtain ⟨hmem', hlabel'⟩ := mem_of_branchAt hb
    exact unorderedKey_mergeObjects hcomm (h.2 a hmem) (h'.2 b hmem') (hlabel.trans hlabel'.symm)
  have hmap := hperm.map Prod.snd
  simpa [placed, Function.comp_def] using hmap

theorem unorderedKey_objectRef {typeName : String} {fields : Fields} {r : FragmentRef} {n n' : Note}
    (h : SettledIn k (object typeName fields n)) (hr : (ref r n').Formed settled) :
    unorderedKey (mergeWith merge (object typeName fields n) (ref r n')) =
      unorderedKey (mergeWith merge (ref r n') (object typeName fields n)) := by
  have hfields := formed_object.1 h.formed
  have hk := nesting_object_le.1 h.nesting
  have href : settled.fields [(fragmentKey r.artifact, ref r n')] ∧ ∀ e ∈ [(fragmentKey r.artifact, ref r n')], e.2.Formed settled :=
    ⟨⟨List.nodup_singleton _, refersUnderKeys_ref r n'⟩, List.forall_mem_singleton.2 hr⟩
  rw [mergeWith_objectRef, mergeWith_refObject]
  refine unorderedKey_object_congr (Bool.and_comm _ _) (nodup_mergeFieldsWith hfields.1.1 href.1.1) ?_
  exact unorderedFields_perm hcomm hfields href hk.2 (List.forall_mem_singleton.2 hk.1)

theorem unorderedKey_mergeWith (ha : SettledIn k a) (hb : SettledIn k b) :
    unorderedKey (mergeWith merge a b) = unorderedKey (mergeWith merge b a) := by
  have hnullable : (mergeWith merge a b).nullable = (mergeWith merge b a).nullable := by
    rw [nullable_mergeWith, nullable_mergeWith, Bool.and_comm]
  cases meeting a b with
  | scalars => exact unorderedKey_of_key (by simp [mergeWith, key, withNote, keepNote, Bool.and_comm])
  | tags h =>
    refine unorderedKey_of_key ?_
    have h' := (uniteTags_comm hb.formed ha.formed).trans h
    simp only [mergeWith, h, h', key, mergeNotes, Bool.and_comm]
  | objects =>
    have hfields := formed_object.1 ha.formed
    have hfields' := formed_object.1 hb.formed
    refine unorderedKey_object_congr (Bool.and_comm _ _) (nodup_mergeFieldsWith hfields.1.1 hfields'.1.1) ?_
    exact unorderedFields_perm hcomm hfields hfields' (nesting_object_le.1 ha.nesting).2 (nesting_object_le.1 hb.nesting).2
  | @arrays element element' elementNullable elementNullable' n n' =>
    have helement := hcomm element element' ha.formed hb.formed ha.nesting hb.nesting
    rw [mergeWith, mergeWith, unorderedKey_array, unorderedKey_array, helement, Bool.or_comm]
    simp only [keepNote, Bool.and_comm]
  | @refs r r' n n' h =>
    have hr : r.omitted = [] := ha.formed
    have hr' : r'.omitted = [] := hb.formed
    rw [mergeWith, mergeWith, if_pos h, if_pos h.symm]
    exact unorderedKey_of_key (by simp [key, withNote, keepNote, h, hr, hr', note, Bool.and_comm])
  | objectRef => exact unorderedKey_objectRef hcomm ha hb.formed
  | refObject => exact (unorderedKey_objectRef hcomm hb ha.formed).symm
  | union h =>
    obtain ⟨n, hn⟩ := mergeWith_unites h
    obtain ⟨n', hn'⟩ := mergeWith_unites h.symm
    rw [hn, hn'] at hnullable ⊢
    exact unorderedKey_union_congr hnullable
      (map_addBranches_perm hcomm (settled_branchesBeside ha) (settled_branchesBeside hb))
  | inter h =>
    obtain ⟨n, hn⟩ := mergeWith_crosses h
    obtain ⟨n', hn'⟩ := mergeWith_crosses h.symm
    rw [hn, hn'] at hnullable ⊢
    exact unorderedKey_inter_congr hnullable (map_appendParts_perm (settled_parts ha.formed) (settled_parts hb.formed))

end Layer

/-- Merging two settled shapes in either order gives shapes with one key, but for the order of the parts of intersections. -/
theorem unorderedKey_merge (a b : Shape) (ha : a.Formed settled) (hb : b.Formed settled) :
    unorderedKey (merge a b) = unorderedKey (merge b a) := by
  induction a, b using induction_nesting with
  | h k a b hka hkb ih =>
    rw [merge_eq, merge_eq b a]
    exact unorderedKey_mergeWith (fun x y hx hy hx' hy' => ih x y hx' hy' hx hy) ⟨ha, hka⟩ ⟨hb, hkb⟩

/-- A settled shape that is merged with itself is the shape that it was, its fields in their order; and two that are merged
in either order have one key, once the parts of intersections are compared as unordered. -/
theorem merge_idempotent_commutative :
    (∀ a : Shape, a.Formed settled → merge a a = a) ∧
      ∀ a b : Shape, a.Formed settled → b.Formed settled →
        (key false (merge a b)).unordered = (key false (merge b a)).unordered :=
  ⟨merge_self, unorderedKey_merge⟩

/-- The object goes into the branch for its type, whichever comes first. -/
theorem merge_idempotent_commutative_userOrNames : merge userOrNames userOrNames = userOrNames ∧
    (key false (merge userOrNames (object "User" spreadUser {}))).unordered =
      (key false (merge (object "User" spreadUser {}) userOrNames)).unordered := by
  have huser : (object "User" spreadUser {}).Formed settled := by
    refine formed_object.2 ⟨⟨by decide, ?_⟩, List.forall_mem_cons.2 ⟨trivial, List.forall_mem_singleton.2 rfl⟩⟩
    exact List.forall_mem_cons.2 ⟨nofun, List.forall_mem_singleton.2 fun _ => rfl⟩
  have hunion : userOrNames.Formed settled := by
    refine formed_union.2 ⟨⟨by simp [isUnion], by simp [Clash, identical, key]⟩, List.forall_mem_cons.2 ⟨formed_object.2
      ⟨⟨List.nodup_singleton _, List.forall_mem_singleton.2 nofun⟩, List.forall_mem_singleton.2 trivial⟩, ?_⟩⟩
    refine List.forall_mem_singleton.2 (formed_inter.2 ⟨⟨by simp, by simp [identical, key]⟩, ?_⟩)
    exact List.forall_mem_cons.2 ⟨rfl, List.forall_mem_singleton.2 rfl⟩
  exact ⟨merge_idempotent_commutative.1 _ hunion, merge_idempotent_commutative.2 _ _ hunion huser⟩

end ResponseTypes.Shape
