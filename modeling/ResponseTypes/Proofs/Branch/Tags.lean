import ResponseTypes.Proofs.Branch.Tidy
import ResponseTypes.Proofs.Shape.Combine

/-!
# Type tags discriminate

The tag of the branch of a possible type admits that type, and no other than those whose branches have the same fields
(`branchFields_of_admits`).  So, when the branches of an interface or a union have been combined, no type is admitted by the
tags of two of them, and each type that had a tag is admitted by that of the branch which has its fields
(`tags_discriminate`).
-/

namespace ResponseTypes

set_option autoImplicit false

open GraphQL (Selection TypeDef)

namespace Shape

variable {s : Schema} {a : String}

/-- The branches of a union; anything else is its own branch. -/
def branches : Shape → List Shape
  | union shapes _ => shapes
  | shape => [shape]

/-- The tags under a key discriminate some branches of `a`: they admit its possible types alone, none is admitted in two
branches, and each that had a tag among its own fields is admitted in a branch whose other fields are those it had. -/
structure Discriminates (s : Schema) (a : String) (fields : String → Fields) (branches : List Shape) (k : String) : Prop where
  possible : ∀ b ∈ branches, ∀ n, b.Marks s k n → n ∈ s.possible a
  disjoint : branches.Pairwise fun b b' => ∀ n, ¬(b.Marks s k n ∧ b'.Marks s k n)
  unique : ∀ n ∈ s.possible a, (∃ t m, (k, tag t m) ∈ fields n) → ∃ before b after, branches = before ++ b :: after ∧
    b.Marks s k n ∧ (∀ b' ∈ before ++ after, ¬b'.Marks s k n) ∧ (untagged b.fields).Perm (untagged (simplifyFields (fields n)))

/-! ## Branches and their tags -/

variable {w : Option String} {fields : Fields} {k : String} {t : TypeTag}

/-- Simplifying leaves the tags of fields. -/
theorem hasTag_simplifyFields (h : Tidy w fields) {n : Note} :
    (k, tag t n) ∈ simplifyFields fields ↔ (k, tag t n) ∈ fields := by
  rw [simplifyFields_eq]
  constructor
  · intro hmem
    obtain ⟨⟨k', b⟩, hb, heq⟩ := List.mem_map.1 hmem
    injection heq with hk heq
    dsimp only at hk heq
    have htag : b.isTag = true := by rw [← isTag_simplify (h.fits _ hb), heq]; rfl
    rw [simplify_of_isTag htag] at heq
    rwa [← hk, ← heq]
  · exact fun hmem => List.mem_map.2 ⟨_, hmem, rfl⟩

/-- Tidy fields whose tags are for possible types of `a` form a branch when they are simplified. -/
theorem branch_simplifyFields (h : Tidy w fields) (htags : ∀ k t n, (k, tag t n) ∈ fields → t.On s a) (typeName : String) :
    Branch s a (object typeName (simplifyFields fields) {}) where
  eq_object := ⟨typeName, rfl⟩
  nodup := by
    have hkeys : Assoc.keys (simplifyFields fields) = Assoc.keys fields := by
      simp [simplifyFields_eq, Assoc.keys, Function.comp_def]
    exact (congrArg List.Nodup hkeys).mpr h.nodup
  tags k t := fun ⟨n, ht⟩ => htags k t n ((hasTag_simplifyFields h).1 ht)

theorem untagged_perm {b b' : Shape} (hb : Branch s a b) (hb' : Branch s a b') (h : key true b = key true b') :
    (untagged b.fields).Perm (untagged b'.fields) := by
  obtain ⟨_, hobject⟩ := hb.eq_object
  obtain ⟨_, hobject'⟩ := hb'.eq_object
  rw [hobject, hobject'] at h
  rw [untagged_eq, untagged_eq]
  exact (fieldKeys_perm h).filter _

theorem Branch.possible {b : Shape} (hb : Branch s a b) {n : String} (h : b.Marks s k n) : n ∈ s.possible a := by
  obtain ⟨t, ht, hadmits⟩ := h
  exact (hb.tags k t ht).possible hadmits

/-- A union without a note has the branches that are left. -/
theorem branches_unionOf {l : List Shape} (h : ∀ b ∈ l, Branch s a b) : (unionOf l {}).branches = combineBranches l := by
  have hbranch := (combined_combineBranches h).branch
  unfold unionOf
  split
  · rename_i b hb
    rw [hb] at hbranch
    obtain ⟨typeName, hobject⟩ := (hbranch b (List.mem_singleton_self b)).eq_object
    rw [hb, hobject]
    rfl
  · rfl

/-- Branches that are apart mark no type in common, if those that do are alike before they are combined. -/
theorem Combined.disjoint {l acc : List Shape} (h : Combined s a l acc)
    (hsame : ∀ x ∈ l, ∀ y ∈ l, ∀ n, x.Marks s k n → y.Marks s k n → key true x = key true y) :
    acc.Pairwise fun b b' => ∀ n, ¬(b.Marks s k n ∧ b'.Marks s k n) := by
  have hapart : acc.Pairwise fun b b' => key true b ≠ key true b' := List.pairwise_map.1 h.apart
  refine hapart.imp_of_mem fun {b b'} hb hb' hne n => ?_
  rintro ⟨hmarks, hmarks'⟩
  obtain ⟨x, hx, hkey, hxn⟩ := (h.marks b hb k n).1 hmarks
  obtain ⟨y, hy, hkey', hyn⟩ := (h.marks b' hb' k n).1 hmarks'
  exact hne (hkey.symm.trans ((hsame x hx y hy n hxn hyn).trans hkey'))

/-- Combining the branches of the possible types leaves tags that discriminate, if the tags of a type admit it and the types
whose tags admit one in common have alike branches. -/
theorem discriminates_combineBranches {fields : String → Fields}
    (hbranch : ∀ n ∈ s.possible a, Branch s a (object n (simplifyFields (fields n)) {}))
    (hself : ∀ n ∈ s.possible a, (∃ t m, (k, tag t m) ∈ fields n) → (object n (simplifyFields (fields n)) {}).Marks s k n)
    (hsame : ∀ m ∈ s.possible a, ∀ m' ∈ s.possible a, ∀ n, (object m (simplifyFields (fields m)) {}).Marks s k n →
      (object m' (simplifyFields (fields m')) {}).Marks s k n → fields m = fields m') :
    Discriminates s a fields
      (combineBranches ((s.possible a).map fun n => object n (simplifyFields (fields n)) {})) k := by
  have hcombined := combined_combineBranches (l := (s.possible a).map fun n => object n (simplifyFields (fields n)) {})
    (List.forall_mem_map.2 hbranch)
  generalize combineBranches _ = acc at hcombined ⊢
  have hdisjoint : acc.Pairwise fun b b' => ∀ n, ¬(b.Marks s k n ∧ b'.Marks s k n) := by
    refine hcombined.disjoint (List.forall_mem_map.2 fun m hm => List.forall_mem_map.2 fun m' hm' n hmarks hmarks' => ?_)
    rw [hsame m hm m' hm' n hmarks hmarks']
    rfl
  refine ⟨fun b hb n => (hcombined.branch b hb).possible, hdisjoint, fun n hn htag => ?_⟩
  have hmem := List.mem_map_of_mem (f := fun n => object n (simplifyFields (fields n)) {}) hn
  obtain ⟨b, hb, hkey⟩ := List.mem_map.1 (hcombined.all _ hmem)
  have hmarks : b.Marks s k n := (hcombined.marks b hb k n).2 ⟨_, hmem, hkey.symm, hself n hn htag⟩
  obtain ⟨before, after, rfl⟩ := List.append_of_mem hb
  refine ⟨before, b, after, rfl, hmarks, fun b' hb' hmarks' => ?_, untagged_perm (hcombined.branch b hb) (hbranch n hn) hkey⟩
  rw [List.pairwise_append, List.pairwise_cons] at hdisjoint
  rcases List.mem_append.1 hb' with hb' | hb'
  · exact hdisjoint.2.2 b' hb' b List.mem_cons_self n ⟨hmarks', hmarks⟩
  · exact hdisjoint.2.1.1 b' hb' n ⟨hmarks, hmarks'⟩

end Shape

namespace Compile

open Shape (Tidy)

variable {c : Sources}

/-! ## The tag of a branch -/

section Tag

variable {t : TypeDef} {base : Fields} {per : TypeFields}

theorem admits_single {name n : String} : (TypeTag.single name).Admits c.schema n ↔ n = name :=
  List.mem_singleton

/-- The shared tag admits the possible types that are not targeted. -/
theorem admits_sharedTagOf {targeted : List String} {n : String} :
    (sharedTagOf t (c.schema.possible t.name) targeted).Admits c.schema n ↔
      n ∈ c.schema.possible t.name ∧ n ∉ targeted := by
  unfold sharedTagOf
  dsimp only
  split
  · rename_i hnone
    rw [List.isEmpty_iff.1 hnone]
    exact Iff.rfl
  · split
    · exact TypeTag.admits_ofNames_within
    · rw [TypeTag.admits_ofNames]
      simp

theorem sharedTagOf_on {targeted : List String} (htargeted : ∀ n ∈ targeted, n ∈ c.schema.possible t.name) :
    (sharedTagOf t (c.schema.possible t.name) targeted).On c.schema t.name := by
  have hofNames : ∀ {names w}, w = none ∨ w = some t.name → (∀ n ∈ names, n ∈ c.schema.possible t.name) →
      (TypeTag.ofNames names w).On c.schema t.name := fun hw hnames =>
    ⟨hw, fun n hn => hnames n (Text.mem_distinct.1 (Text.mem_sorted.1 hn))⟩
  unfold sharedTagOf
  dsimp only
  split
  · exact ⟨Or.inr rfl, by simp [TypeTag.allOf]⟩
  · split
    · exact hofNames (Or.inr rfl) htargeted
    · exact hofNames (Or.inl rfl) fun n hn => (List.mem_filter.1 hn).1

theorem branchTag_on {m : String} (hm : m ∈ c.schema.possible t.name) :
    (branchTag c.toConfig t (c.schema.possible t.name) per m).On c.schema t.name := by
  unfold branchTag
  split
  · exact ⟨Or.inl rfl, fun n hn => List.mem_singleton.1 hn ▸ hm⟩
  · exact sharedTagOf_on fun n hn => (List.mem_filter.1 hn).1

/-- The tag of a branch admits its type, and with a type that is not targeted the others that are not. -/
theorem admits_branchTag {m n : String} (hm : m ∈ c.schema.possible t.name) :
    (branchTag c.toConfig t (c.schema.possible t.name) per m).Admits c.schema n ↔ n = m ∨
      n ∈ c.schema.possible t.name ∧ c.output.mergeTags = true ∧ Assoc.has per m = false ∧ Assoc.has per n = false := by
  unfold branchTag
  cases hown : Assoc.has per m <;> cases c.output.mergeTags <;>
    simp only [Bool.or_false, Bool.or_true, Bool.not_true, Bool.not_false, if_true, admits_single, Bool.false_eq_true, if_false,
      false_and, and_false, or_false, admits_sharedTagOf, List.mem_filter, reduceCtorEq, true_and]
  constructor
  · rintro ⟨hn, hnot⟩
    exact Or.inr ⟨hn, by simpa [hn] using hnot⟩
  · rintro (rfl | ⟨hn, hnot⟩)
    · exact ⟨hm, by simp [hown]⟩
    · exact ⟨hn, by simp [hnot]⟩

theorem branchFields_of_untargeted {m : String} (hmerge : c.output.mergeTags = true) (hm : Assoc.has per m = false) :
    branchFields c.toConfig t (c.schema.possible t.name) base per m =
      retag (sharedTagOf t (c.schema.possible t.name) ((c.schema.possible t.name).filter (Assoc.has per)))
        (Shape.mergeFields base []) := by
  have hnone : per.of m = [] := by
    have hget : Assoc.get? per m = none := by simpa [Assoc.has] using hm
    unfold TypeFields.of
    rw [hget]
    rfl
  rw [branchFields, branchTag, hm, hmerge, hnone]
  rfl

/-- Types whose branches have tags that admit one type have the same fields. -/
theorem branchFields_of_admits {m m' n : String} (hm : m ∈ c.schema.possible t.name) (hm' : m' ∈ c.schema.possible t.name)
    (h : (branchTag c.toConfig t (c.schema.possible t.name) per m).Admits c.schema n)
    (h' : (branchTag c.toConfig t (c.schema.possible t.name) per m').Admits c.schema n) :
    branchFields c.toConfig t (c.schema.possible t.name) base per m =
      branchFields c.toConfig t (c.schema.possible t.name) base per m' := by
  rw [admits_branchTag hm] at h
  rw [admits_branchTag hm'] at h'
  rcases h with rfl | ⟨-, hmerge, hown, hn⟩
  · rcases h' with rfl | ⟨-, hmerge, hown', hn⟩
    · rfl
    · rw [branchFields_of_untargeted hmerge hn, branchFields_of_untargeted hmerge hown']
  · have hown' : Assoc.has per m' = false := by
      rcases h' with rfl | ⟨-, -, hown', -⟩
      · exact hn
      · exact hown'
    rw [branchFields_of_untargeted hmerge hown, branchFields_of_untargeted hmerge hown']

theorem tag_of_mem_retag {tag u : TypeTag} {fields : Fields} {k : String} {n : Note} (h : (k, .tag u n) ∈ retag tag fields) :
    u = tag := by
  obtain ⟨e, -, heq⟩ := List.mem_map.1 h
  injection heq with _ heq
  split at heq
  · exact (Shape.tag.inj heq).1.symm
  · rename_i hplain
    rw [heq] at hplain
    exact absurd rfl hplain

end Tag

/-! ## The branches of an abstract type -/

theorem branches_simplify {t : TypeDef} {names : List String} {fields : String → Fields} (hnames : names ≠ [])
    (h : ∀ n ∈ names, Shape.Branch c.schema t.name (.object n (Shape.simplifyFields (fields n)) {})) :
    (ofBranches t (names.map fun n => .object n (fields n) {})).simplify.branches =
      Shape.combineBranches (names.map fun n => .object n (Shape.simplifyFields (fields n)) {}) := by
  match names with
  | [] => exact absurd rfl hnames
  | [n] => rfl
  | n :: n' :: rest =>
    have hsimplified : Shape.simplifyList ((n :: n' :: rest).map fun n => .object n (fields n) {}) =
        (n :: n' :: rest).map fun n => .object n (Shape.simplifyFields (fields n)) {} := by
      rw [Shape.simplifyList_eq, List.map_map]
      rfl
    rw [← Shape.branches_unionOf (List.forall_mem_map.2 h), ← hsimplified]
    rfl

/-- The fields of the branches of selections on an abstract type are tidy. -/
theorem branchFields_tidy {t : TypeDef} {sels : List Selection} {g : Groups fun l => sizeOf l < sizeOf sels} {per : TypeFields}
    (hg : (groups c.toConfig t sels (fun _ h => h) {}).outcome c = .ok g)
    (hper : (typeFields c.toConfig ⟨fun t' s => selection c.toConfig t' s.1, fun t' s => sharedAndOwn c.toConfig t' s.1⟩ t
      (c.schema.possible t.name) g).outcome c = .ok per) {n : String} (hn : n ∈ c.schema.possible t.name) :
    Tidy (some t.name) (branchFields c.toConfig t (c.schema.possible t.name) (baseFields c.toConfig t g) per n) := by
  have htidy := sharedAndOwn_tidy (N := fun _ => True) t sels (fun _ _ => trivial) _ (outcome_sharedAndOwn hg hper)
  exact tidy_retag (Shape.tidy_mergeFields htidy.1 ((htidy.2 n).mono _)) (branchTag_on hn).within

/-- The tags of selections on an interface or a union discriminate. -/
theorem outcome_discriminates {t : TypeDef} (habstract : t.body.isAbstract = true) (hpossible : c.schema.possible t.name ≠ [])
    {sels : List Selection} {shape : Shape} (h : (selection c.toConfig t sels).outcome c = .ok shape)
    (hslow : fastPath? c t sels = none) :
    ∃ fields : String → Fields,
      shape = ofBranches t ((c.schema.possible t.name).map fun n => .object n (fields n) {}) ∧
      ∀ k, Shape.Discriminates c.schema t.name fields shape.simplify.branches k := by
  rcases outcome_selection_abstract habstract h with hfast | ⟨-, g, per, hg, hper, hshape⟩
  · exact absurd (hslow.symm.trans hfast) nofun
  · refine ⟨_, hshape, fun k => ?_⟩
    have htidy := fun n (hn : n ∈ c.schema.possible t.name) => branchFields_tidy hg hper hn
    have hbranch := fun n hn => Shape.branch_simplifyFields (htidy n hn)
      (fun k u m hu => (tag_of_mem_retag hu).symm ▸ branchTag_on hn) n
    have htag : ∀ m ∈ c.schema.possible t.name, ∀ n,
        (Shape.object m (Shape.simplifyFields (branchFields c.toConfig t (c.schema.possible t.name)
          (baseFields c.toConfig t g) per m)) {}).Marks c.schema k n →
        (branchTag c.toConfig t (c.schema.possible t.name) per m).Admits c.schema n := by
      rintro m hm n ⟨u, ⟨note, hu⟩, hadmits⟩
      rwa [tag_of_mem_retag ((Shape.hasTag_simplifyFields (htidy m hm)).1 hu)] at hadmits
    rw [hshape, branches_simplify hpossible hbranch]
    refine Shape.discriminates_combineBranches hbranch (fun n hn => ?_) fun m hm m' hm' n hmarks hmarks' => ?_
    · rintro ⟨u, note, hu⟩
      refine ⟨u, ⟨note, (Shape.hasTag_simplifyFields (htidy n hn)).2 hu⟩, ?_⟩
      rw [tag_of_mem_retag hu]
      exact (admits_branchTag hn).2 (Or.inl rfl)
    · exact branchFields_of_admits hm hm' (htag m hm n hmarks) (htag m' hm' n hmarks')

/-- Compiling selections on an interface or a union that has possible types, if they do not take the fast path, gives
branches whose tags discriminate when they are simplified: under each key, the tags of different branches admit different
possible types, and each type whose branch had a tag there is admitted by that of one branch, the other fields of which are
those that were compiled for the type. -/
theorem tags_discriminate {c : Setup} {t : TypeDef} (ht : Known c.toConfig t) (habstract : t.body.isAbstract = true)
    (hpossible : c.schema.possible t.name ≠ []) {sels : List Selection} {building : List String} {s s' : State} {shape : Shape}
    (hs : Recalls c.toSources s)
    (h : (select c (useFragment c fun name => discard (generateFragment c building name)) t sels).runOn s =
      (.ok shape, s'))
    (hslow : fastPath? c.toSources t sels = none) :
    ∃ fields : String → Fields,
      shape = ofBranches t ((c.schema.possible t.name).map fun n => .object n (fields n) {}) ∧
      ∀ k, Shape.Discriminates c.schema t.name fields shape.simplify.branches k :=
  outcome_discriminates habstract hpossible (outcome_of_select ht hs h) hslow

/-- The tags of what is found discriminate the branches of its three types. -/
theorem tags_discriminate_found :
    ∃ (shape : Shape) (fields : String → Fields), foundRun.1 = .ok shape ∧
      shape = ofBranches foundType (["User", "Guest", "Bot"].map fun n => .object n (fields n) {}) ∧
      ∀ k, Shape.Discriminates finding.schema "Found" fields shape.simplify.branches k := by
  obtain ⟨shape, s', hrun⟩ := eq_ok_of_isOk isOk_foundRun
  obtain ⟨fields, hshape, hdiscriminates⟩ := tags_discriminate (c := finding) (t := foundType) rfl rfl nofun recalls_foundState
    hrun fastPath?_found
  exact ⟨shape, fields, congrArg Prod.fst hrun, hshape, hdiscriminates⟩

end Compile

end ResponseTypes
