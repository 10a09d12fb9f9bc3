import ResponseTypes.Proofs.Assoc
import ResponseTypes.Proofs.Shape.Keys
import ResponseTypes.Schema.Basic
import ResponseTypes.Shape.Simplify

/-!
# Combining branches

A tag is read as a set of type names (`TypeTag.Admits`); a branch marks a type under a key if it has a tag there that admits
it (`Shape.Marks`).  Branches whose tags are within one abstract type can be combined when they differ in nothing but tags
(`combine_of_alike`): the tags of the combined branch admit what those of the two do.  So `combineBranches` leaves one branch
for all that are alike, which marks what these mark (`combined_combineBranches`).
-/

namespace ResponseTypes

set_option autoImplicit false

variable {s : Schema} {a : String}

/-- The tag admits the values of a type: it names it, or leaves it out from those of an abstract type. -/
def TypeTag.Admits (s : Schema) (t : TypeTag) (n : String) : Prop :=
  match t.within with
  | none => n ∈ t.names
  | some a => n ∈ s.possible a ∧ n ∉ t.names

/-- A tag for possible types of the abstract type `a`. -/
structure TypeTag.On (s : Schema) (a : String) (t : TypeTag) : Prop where
  within : t.within = none ∨ t.within = some a
  names : ∀ n ∈ t.names, n ∈ s.possible a

theorem TypeTag.On.possible {t : TypeTag} (h : t.On s a) {n : String} (hn : t.Admits s n) : n ∈ s.possible a := by
  unfold Admits at hn
  rcases h.within with hw | hw <;> rw [hw] at hn
  · exact h.names n hn
  · exact hn.1

theorem TypeTag.admits_ofNames {names : List String} {n : String} : (ofNames names none).Admits s n ↔ n ∈ names :=
  Text.mem_sorted.trans Text.mem_distinct

theorem TypeTag.admits_ofNames_within {names : List String} {n : String} :
    (ofNames names (some a)).Admits s n ↔ n ∈ s.possible a ∧ n ∉ names :=
  and_congr_right fun _ => not_congr (Text.mem_sorted.trans Text.mem_distinct)

namespace Shape

/-- The united tag admits what one of the two does. -/
theorem uniteTags_on {t t' : TypeTag} (h : t.On s a) (h' : t'.On s a) :
    ∃ u, uniteTags t t' = some u ∧ u.On s a ∧ ∀ n, u.Admits s n ↔ t.Admits s n ∨ t'.Admits s n := by
  obtain ⟨names, within⟩ := t
  obtain ⟨names', within'⟩ := t'
  obtain ⟨hwithin, hnames⟩ := h
  obtain ⟨hwithin', hnames'⟩ := h'
  dsimp only at hwithin hwithin' hnames hnames'
  rcases hwithin with rfl | rfl <;> rcases hwithin' with rfl | rfl
  · refine ⟨_, rfl, ⟨Or.inl rfl, fun n hn => ?_⟩, fun n => TypeTag.admits_ofNames.trans List.mem_append⟩
    exact (List.mem_append.1 (Text.mem_distinct.1 (Text.mem_sorted.1 hn))).elim (hnames n) (hnames' n)
  · refine ⟨_, rfl, ⟨Or.inr rfl, fun n hn => hnames' n (List.mem_filter.1 hn).1⟩, fun n => ?_⟩
    have hn := hnames n
    simp only [TypeTag.Admits, List.mem_filter, Bool.not_eq_true', List.contains_eq_mem, decide_eq_false_iff_not]
    tauto
  · refine ⟨_, rfl, ⟨Or.inr rfl, fun n hn => hnames n (List.mem_filter.1 hn).1⟩, fun n => ?_⟩
    have hn := hnames' n
    simp only [TypeTag.Admits, List.mem_filter, Bool.not_eq_true', List.contains_eq_mem, decide_eq_false_iff_not]
    tauto
  · refine ⟨_, if_pos rfl, ⟨Or.inr rfl, fun n hn => hnames n (List.mem_filter.1 hn).1⟩, fun n => ?_⟩
    simp only [TypeTag.Admits, List.mem_filter, List.contains_iff_mem]
    tauto

/-! ## Branches -/

/-- The shape has a tag among its own fields. -/
def HasTag (b : Shape) (k : String) (t : TypeTag) : Prop :=
  ∃ n, (k, tag t n) ∈ b.fields

/-- The shape has a tag under a key that admits a type. -/
def Marks (s : Schema) (b : Shape) (k n : String) : Prop :=
  ∃ t, b.HasTag k t ∧ t.Admits s n

/-- The fields that are no tags, with the keys of their shapes. -/
def untagged (fields : Fields) : List (String × ShapeKey) :=
  (fields.filter fun e => !e.2.isTag).map fun e => (e.1, key false e.2)

/-- The shape is an object with distinct keys whose tags are for possible types of `a`. -/
structure Branch (s : Schema) (a : String) (b : Shape) : Prop where
  eq_object : ∃ typeName, b = object typeName b.fields {}
  nodup : (Assoc.keys b.fields).Nodup
  tags : ∀ k t, b.HasTag k t → t.On s a

/-! ### Branches that differ in nothing but tags -/

/-- Nothing has the key that stands for a tag. -/
theorem key_ne_anyTag (s : Shape) : key false s ≠ anyTag := by
  cases s <;> simp [key, anyTag]

/-- The fields that are no tags are those whose key does not stand for a tag. -/
theorem untagged_eq (fields : Fields) :
    untagged fields = (fieldKeys true fields).filter fun e => decide (e.2 ≠ anyTag) := by
  induction fields with
  | nil => rfl
  | cons e rest ih =>
    obtain ⟨k, b⟩ := e
    rw [fieldKeys, List.filter_cons, ← ih, untagged, List.filter_cons]
    cases hb : b.isTag
    · simp [key_ne_anyTag, untagged]
    · simp [untagged]

theorem mem_anyTag {fields : Fields} {k : String} : (k, anyTag) ∈ fieldKeys true fields ↔ ∃ t n, (k, tag t n) ∈ fields := by
  rw [fieldKeys_eq]
  constructor
  · intro h
    obtain ⟨⟨k', b⟩, hb, heq⟩ := List.mem_map.1 h
    injection heq with hk heq
    dsimp only at hk heq
    subst hk
    cases b with
    | tag t n => exact ⟨t, n, hb⟩
    | scalar | object | array | union | inter | ref => exact absurd heq (key_ne_anyTag _)
  · rintro ⟨t, n, h⟩
    exact List.mem_map.2 ⟨_, h, rfl⟩

/-! ### One branch for two -/

/-- A field of a combined branch: a tag is united with that of the other branch, anything else is kept. -/
inductive United (others : Fields) : String × Shape → String × Shape → Prop
  | kept {k : String} {b : Shape} : b.isTag = false → United others (k, b) (k, b)
  | united {k : String} {t t' u : TypeTag} {n n' : Note} : (k, tag t' n') ∈ others → uniteTags t t' = some u →
      United others (k, tag t n) (k, tag u (mergeNotes n n'))

variable {others fields : Fields}

theorem United.fst {e e' : String × Shape} (h : United others e e') : e'.1 = e.1 := by
  cases h <;> rfl

theorem forall₂_uniteFieldTags (others fields : Fields) (h : ∀ k t n, (k, tag t n) ∈ fields →
    ∃ t' n' u, Assoc.get? others k = some (tag t' n') ∧ uniteTags t t' = some u) :
    ∃ united, uniteFieldTags others fields = some united ∧ List.Forall₂ (United others) fields united := by
  induction fields with
  | nil => exact ⟨[], rfl, .nil⟩
  | cons e rest ih =>
    obtain ⟨united, hunited, hall⟩ := ih fun k t n hmem => h k t n (List.mem_cons_of_mem _ hmem)
    obtain ⟨k, b⟩ := e
    cases b with
    | tag t n =>
      obtain ⟨t', n', u, hget, hu⟩ := h k t n List.mem_cons_self
      refine ⟨(k, tag u (mergeNotes n n')) :: united, ?_, .cons (.united (Assoc.mem_of_get? hget) hu) hall⟩
      simp [uniteFieldTags, hget, hu, hunited]
    | scalar | object | array | union | inter | ref =>
      exact ⟨(k, _) :: united, by simp [uniteFieldTags, hunited], .cons (.kept rfl) hall⟩

theorem exists_mem_left {α β : Type} {R : α → β → Prop} {l : List α} {l' : List β} (h : List.Forall₂ R l l') {b : β}
    (hb : b ∈ l') : ∃ a ∈ l, R a b := by
  induction h with
  | nil => cases hb
  | cons hab _ ih =>
    rcases List.mem_cons.1 hb with rfl | hb
    · exact ⟨_, List.mem_cons_self, hab⟩
    · obtain ⟨a, ha, hR⟩ := ih hb
      exact ⟨a, List.mem_cons_of_mem _ ha, hR⟩

theorem exists_mem_right {α β : Type} {R : α → β → Prop} {l : List α} {l' : List β} (h : List.Forall₂ R l l') {a : α}
    (ha : a ∈ l) : ∃ b ∈ l', R a b :=
  exists_mem_left h.flip ha

/-- Uniting tags leaves the keys of the fields, in which tags are ignored. -/
theorem fieldKeys_united {united : Fields} (h : List.Forall₂ (United others) fields united) :
    fieldKeys true united = fieldKeys true fields := by
  induction h with
  | nil => rfl
  | cons he _ ih =>
    cases he with
    | kept hb => rw [fieldKeys, fieldKeys, ih]
    | united hmem hu =>
      rw [fieldKeys, fieldKeys, ih]
      rfl

theorem mem_united {united : Fields} (h : List.Forall₂ (United others) fields united) {k : String} {u : TypeTag} {n : Note}
    (hu : (k, tag u n) ∈ united) : ∃ t m t' m', (k, tag t m) ∈ fields ∧ (k, tag t' m') ∈ others ∧ uniteTags t t' = some u := by
  obtain ⟨e, he, hfield⟩ := exists_mem_left h hu
  cases hfield with
  | kept hplain => cases hplain
  | united ht' hunite => exact ⟨_, _, _, _, he, ht', hunite⟩

theorem Branch.tag_unique {b : Shape} (hb : Branch s a b) {k : String} {t t' : TypeTag} (h : b.HasTag k t)
    (h' : b.HasTag k t') : t = t' := by
  obtain ⟨n, h⟩ := h
  obtain ⟨n', h'⟩ := h'
  have hget : Assoc.get? b.fields k = some (tag t n) := Assoc.get?_of_mem hb.nodup h
  have hget' : Assoc.get? b.fields k = some (tag t' n') := Assoc.get?_of_mem hb.nodup h'
  exact (Shape.tag.inj (Option.some.inj (hget.symm.trans hget'))).1

/-- Branches that differ in nothing but tags have tags under the same keys. -/
theorem exists_hasTag_iff {b b' : Shape} (hb : Branch s a b) (hb' : Branch s a b') (h : key true b = key true b') (k : String) :
    (∃ t, b.HasTag k t) ↔ ∃ t, b'.HasTag k t := by
  obtain ⟨typeName, hobject⟩ := hb.eq_object
  obtain ⟨typeName', hobject'⟩ := hb'.eq_object
  rw [hobject, hobject'] at h
  exact mem_anyTag.symm.trans ((fieldKeys_perm h).mem_iff.trans mem_anyTag)

section United

variable {typeName typeName' : String} {united : Fields} (hb : Branch s a (object typeName fields {}))
  (hb' : Branch s a (object typeName' others {})) (hall : List.Forall₂ (United others) fields united)

include hb hb' hall

theorem branch_united : Branch s a (object typeName united {}) where
  eq_object := ⟨typeName, rfl⟩
  nodup := by
    have hfst := congrArg (List.map Prod.fst) (fieldKeys_united hall)
    have hkeys : Assoc.keys united = Assoc.keys fields := by
      simpa [fieldKeys_eq, Assoc.keys, Function.comp_def] using hfst
    exact (congrArg List.Nodup hkeys).mpr hb.nodup
  tags k u := by
    rintro ⟨n, hu⟩
    obtain ⟨t, m, t', m', ht, ht', heq⟩ := mem_united hall hu
    obtain ⟨u', hu', hon, -⟩ := uniteTags_on (hb.tags k t ⟨m, ht⟩) (hb'.tags k t' ⟨m', ht'⟩)
    cases heq.symm.trans hu'
    exact hon

theorem marks_united (h : key true (object typeName fields {}) = key true (object typeName' others {})) (k n : String) :
    (object typeName united {}).Marks s k n ↔
      (object typeName fields {}).Marks s k n ∨ (object typeName' others {}).Marks s k n := by
  constructor
  · rintro ⟨u, ⟨m, hu⟩, hadmits⟩
    obtain ⟨t, _, t', _, ht, ht', heq⟩ := mem_united hall hu
    obtain ⟨u', hu', -, hboth⟩ := uniteTags_on (hb.tags k t ⟨_, ht⟩) (hb'.tags k t' ⟨_, ht'⟩)
    cases heq.symm.trans hu'
    exact ((hboth n).1 hadmits).imp (fun h => ⟨t, ⟨_, ht⟩, h⟩) fun h => ⟨t', ⟨_, ht'⟩, h⟩
  · have hmarks : ∀ t t', HasTag (object typeName fields {}) k t → HasTag (object typeName' others {}) k t' →
        t.Admits s n ∨ t'.Admits s n → Marks s (object typeName united {}) k n := by
      rintro t t' ⟨m, ht⟩ ht' hadmits
      obtain ⟨e, he, hfield⟩ := exists_mem_right hall ht
      cases hfield with
      | kept hplain => cases hplain
      | united ht'' hu =>
        obtain rfl := hb'.tag_unique ht' ⟨_, ht''⟩
        obtain ⟨u', hu', -, hboth⟩ := uniteTags_on (hb.tags k t ⟨m, ht⟩) (hb'.tags k t' ht')
        cases hu.symm.trans hu'
        exact ⟨_, ⟨_, he⟩, (hboth n).2 hadmits⟩
    rintro (⟨t, ht, hadmits⟩ | ⟨t', ht', hadmits⟩)
    · obtain ⟨t', ht'⟩ := (exists_hasTag_iff hb hb' h k).1 ⟨t, ht⟩
      exact hmarks t t' ht ht' (Or.inl hadmits)
    · obtain ⟨t, ht⟩ := (exists_hasTag_iff hb hb' h k).2 ⟨t', ht'⟩
      exact hmarks t t' ht ht' (Or.inr hadmits)

end United

/-- Branches that differ in nothing but tags are combined: the new branch has the fields of the first apart from tags, and
marks what one of the two marks. -/
theorem combine_of_alike {b b' : Shape} (hb : Branch s a b) (hb' : Branch s a b') (h : key true b = key true b') :
    ∃ both, combine b b' = some both ∧ Branch s a both ∧ key true both = key true b ∧
      ∀ k n, both.Marks s k n ↔ b.Marks s k n ∨ b'.Marks s k n := by
  obtain ⟨typeName, fields, rfl⟩ : ∃ typeName fields, b = object typeName fields {} := ⟨_, _, hb.eq_object.choose_spec⟩
  obtain ⟨typeName', others, rfl⟩ : ∃ typeName fields, b' = object typeName fields {} := ⟨_, _, hb'.eq_object.choose_spec⟩
  obtain ⟨united, hunited, hall⟩ := forall₂_uniteFieldTags others fields fun k t n ht => by
    obtain ⟨t', n', ht'⟩ := (exists_hasTag_iff hb hb' h k).1 ⟨t, n, ht⟩
    obtain ⟨u, hu, -⟩ := uniteTags_on (hb.tags k t ⟨n, ht⟩) (hb'.tags k t' ⟨n', ht'⟩)
    exact ⟨t', n', u, Assoc.get?_of_mem hb'.nodup ht', hu⟩
  refine ⟨object typeName united {}, by simp [combine, hunited], branch_united hb hb' hall, ?_, marks_united hb hb' hall h⟩
  rw [key, key, fieldKeys_united hall]

/-! ### All branches -/

variable {x : Shape} {acc l : List Shape}

theorem alike_iff {b b' : Shape} (hb : Branch s a b) (hb' : Branch s a b') : alike b b' = true ↔ key true b = key true b' := by
  obtain ⟨_, h⟩ := hb.eq_object
  obtain ⟨_, h'⟩ := hb'.eq_object
  rw [h, h']
  exact decide_eq_true_iff

/-- A branch is taken up by the one that is like it, or else stands last. -/
theorem absorb_cases (hx : Branch s a x) (hacc : ∀ b ∈ acc, Branch s a b) :
    (∃ before b after both, acc = before ++ b :: after ∧ absorb x acc = before ++ both :: after ∧
      key true b = key true x ∧ Branch s a both ∧ key true both = key true b ∧
      ∀ k n, both.Marks s k n ↔ b.Marks s k n ∨ x.Marks s k n) ∨
    (∀ b ∈ acc, key true b ≠ key true x) ∧ absorb x acc = acc ++ [x] := by
  induction acc with
  | nil => exact Or.inr ⟨by simp, rfl⟩
  | cons first rest ih =>
    have hfirst := hacc first List.mem_cons_self
    rw [absorb]
    by_cases hkey : key true first = key true x
    · obtain ⟨both, hboth, hbranch, hsame, hmarks⟩ := combine_of_alike hfirst hx hkey
      rw [if_pos ((alike_iff hfirst hx).2 hkey), hboth]
      exact Or.inl ⟨[], first, rest, both, rfl, rfl, hkey, hbranch, hsame, hmarks⟩
    · rw [if_neg fun h => hkey ((alike_iff hfirst hx).1 h)]
      dsimp only
      rcases ih fun b hb => hacc b (List.mem_cons_of_mem _ hb) with
        ⟨before, b, after, both, rfl, habsorb, h⟩ | ⟨hnone, habsorb⟩
      · exact Or.inl ⟨first :: before, b, after, both, rfl, by rw [habsorb]; rfl, h⟩
      · refine Or.inr ⟨fun b hb => ?_, by rw [habsorb]; rfl⟩
        rcases List.mem_cons.1 hb with rfl | hb
        · exact hkey
        · exact hnone b hb

/-- The branches of `acc` stand for those of `l`: one for all that are alike, which marks what these mark. -/
structure Combined (s : Schema) (a : String) (l acc : List Shape) : Prop where
  branch : ∀ b ∈ acc, Branch s a b
  apart : (acc.map (key true)).Nodup
  all : ∀ x ∈ l, key true x ∈ acc.map (key true)
  marks : ∀ b ∈ acc, ∀ k n, b.Marks s k n ↔ ∃ x ∈ l, key true x = key true b ∧ x.Marks s k n

theorem Combined.absorb (h : Combined s a l acc) (hx : Branch s a x) : Combined s a (l ++ [x]) (absorb x acc) := by
  have hmore : ∀ b k n, (∃ y ∈ l ++ [x], key true y = key true b ∧ y.Marks s k n) ↔
      (∃ y ∈ l, key true y = key true b ∧ y.Marks s k n) ∨ key true x = key true b ∧ x.Marks s k n := by
    intro b k n
    simp only [List.mem_append, List.mem_singleton, or_and_right, exists_or, exists_eq_left]
  have hall : ∀ keys : List ShapeKey, (∀ y ∈ l, key true y ∈ keys) → key true x ∈ keys → ∀ y ∈ l ++ [x], key true y ∈ keys :=
    fun keys hl hx y hy => (List.mem_append.1 hy).elim (hl y) fun hy => List.mem_singleton.1 hy ▸ hx
  rcases absorb_cases hx h.branch with ⟨before, b, after, both, rfl, habsorb, hkey, hbranch, hsame, hmarks⟩ | ⟨hnone, habsorb⟩
  · have hmap : (before ++ both :: after).map (key true) = (before ++ b :: after).map (key true) := by simp [hsame]
    have hold : ∀ b' ∈ before ++ after, b' ∈ before ++ b :: after ∧ key true x ≠ key true b' := by
      intro b' hb'
      have hapart := h.apart
      rw [List.map_append, List.map_cons, List.nodup_middle, ← List.map_append, hkey] at hapart
      refine ⟨?_, fun heq => (List.nodup_cons.1 hapart).1 (heq ▸ List.mem_map_of_mem hb')⟩
      exact (List.mem_append.1 hb').elim (List.mem_append_left _) fun h => List.mem_append_right _ (List.mem_cons_of_mem _ h)
    have hnew : ∀ b' ∈ before ++ both :: after, b' = both ∨ b' ∈ before ++ after := fun b' hb' => by
      simpa [or_left_comm] using hb'
    have hb : b ∈ before ++ b :: after := by simp
    rw [habsorb]
    refine ⟨fun b' hb' => ?_, hmap ▸ h.apart, hmap ▸ hall _ h.all (hkey ▸ List.mem_map_of_mem hb), fun b' hb' k n => ?_⟩
    · rcases hnew b' hb' with rfl | hb'
      · exact hbranch
      · exact h.branch b' (hold b' hb').1
    · rw [hmore]
      rcases hnew b' hb' with rfl | hb'
      · rw [hmarks, h.marks b hb, hsame]
        simp [hkey]
      · obtain ⟨hmem, hne⟩ := hold b' hb'
        rw [h.marks b' hmem]
        simp [hne]
  · have hfresh : key true x ∉ acc.map (key true) := fun hmem => by
      obtain ⟨b, hb, heq⟩ := List.mem_map.1 hmem
      exact hnone b hb heq
    rw [habsorb]
    refine ⟨fun b' hb' => ?_, ?_, hall _ (fun y hy => ?_) ?_, fun b' hb' k n => ?_⟩
    · exact (List.mem_append.1 hb').elim (h.branch b') fun hb' => List.mem_singleton.1 hb' ▸ hx
    · rw [List.map_append]
      exact List.nodup_append.2 ⟨h.apart, List.nodup_singleton _, fun y hy y' hy' heq =>
        hfresh (by rw [List.map_singleton, List.mem_singleton] at hy'; exact hy' ▸ heq ▸ hy)⟩
    · rw [List.map_append]
      exact List.mem_append_left _ (h.all y hy)
    · simp
    · rw [hmore]
      rcases List.mem_append.1 hb' with hb' | hb'
      · rw [h.marks b' hb']
        simp [(hnone b' hb').symm]
      · rw [List.mem_singleton.1 hb']
        refine ⟨fun h => Or.inr ⟨rfl, h⟩, ?_⟩
        rintro (⟨y, hy, heq, -⟩ | h)
        · exact absurd (heq ▸ h.all y hy) hfresh
        · exact h.2

/-- Combining branches leaves one for all that are alike. -/
theorem combined_combineBranches (h : ∀ b ∈ l, Branch s a b) : Combined s a l (combineBranches l) := by
  have go : ∀ (more done acc : List Shape), (∀ b ∈ more, Branch s a b) → Combined s a done acc →
      Combined s a (done ++ more) (more.foldl (fun acc b => Shape.absorb b acc) acc) := by
    intro more
    induction more with
    | nil => exact fun done acc _ h => (List.append_nil done).symm ▸ h
    | cons b more ih =>
      intro done acc hmore hacc
      have hrest := ih (done ++ [b]) (Shape.absorb b acc) (fun b' hb' => hmore b' (List.mem_cons_of_mem _ hb'))
        (hacc.absorb (hmore b List.mem_cons_self))
      rwa [List.append_assoc, List.singleton_append] at hrest
  exact go l [] [] h ⟨by simp, List.nodup_nil, by simp, by simp⟩

end Shape

end ResponseTypes
