import ResponseTypes.Proofs.Branch.Keys
import ResponseTypes.Proofs.Shape.Fits

/-!
# The fields of branches are tidy

What is selected below a field is no tag (`selection_fits`).  So among the fields that are gathered for an object the tags
name single types (`objectSelection_tidy`), and among those that are gathered for an abstract type they name types alone
or within that type (`groups_tidy`); those of single types have their own tags (`sharedAndOwn_tidy`).
-/

namespace ResponseTypes.Compile

set_option autoImplicit false

open GraphQL (FieldHead Selection TypeDef TypeRef)
open Shape (Fits Tidy Plain)

variable {c : Sources} {N : Need → Prop} {w : Option String}

theorem tidy_mergeField {fields : Fields} {s : Shape} (h : Tidy w fields) (hs : s.Fits w) (key : String) :
    Tidy w (mergeField fields key s) :=
  Shape.tidy_insert h (Shape.fits_mergeInto (fun _ ha => h.fits _ (Assoc.mem_of_get? ha)) hs) key

/-- Tags are put in the place of tags. -/
theorem tidy_retag {fields : Fields} (h : Tidy w fields) {w' : Option String} {tag : TypeTag}
    (htag : tag.within = none ∨ tag.within = w') : Tidy w' (retag tag fields) where
  nodup := by
    have hkeys : Assoc.keys (retag tag fields) = Assoc.keys fields := by simp [retag, Assoc.keys, Function.comp_def]
    rw [hkeys]
    exact h.nodup
  fits e he := by
    obtain ⟨e', he', rfl⟩ := List.mem_map.1 he
    have hfits := h.fits e' he'
    dsimp only
    split
    · exact htag
    · rename_i hplain
      cases hs : e'.2 <;> rw [hs] at hfits hplain <;> first | exact hfits | exact absurd rfl hplain

theorem tidy_refFields (f : FragmentDef) (parent : String) : Tidy w (refFields c.toConfig f parent) :=
  ⟨List.nodup_singleton _, fun e he => by rw [List.mem_singleton.1 he]; exact trivial⟩

/-! ## What is selected below a field -/

theorem fits_ofBranches {t : TypeDef} {branches : List Shape} (h : ∀ s ∈ branches, s.Plain) :
    (ofBranches t branches).Fits w := by
  match branches, h with
  | [], _ => exact trivial
  | [s], h => exact Shape.fits_of_plain (h s (List.mem_singleton_self s))
  | s :: _ :: _, h => exact ⟨s, List.mem_cons_self, h s List.mem_cons_self⟩

theorem fits_shortcut? {small : List Selection → Prop} {g : Groups small} {t : TypeDef} {possible : List String}
    {s : Shape} (h : shortcut? c.toConfig t possible g = some s) : s.Fits w := by
  unfold shortcut? at h
  split at h
  · split at h <;> cases h
    exact trivial
  · cases h
  · split at h
    · cases h
    · dsimp only at h
      have hrefs : ∀ r ∈ (g.concreteSpreads.filter (fun e => possible.contains e.1)).flatMap
          (fun e => e.2.map (fun f => refShape c.toConfig f t.name)), r.Plain := by
        intro r hr
        obtain ⟨e, -, hr⟩ := List.mem_flatMap.1 hr
        obtain ⟨f, -, rfl⟩ := List.mem_map.1 hr
        exact trivial
      split at h
      · cases h
      · rename_i r hr _
        cases h
        exact Shape.fits_of_plain (hrefs _ (hr ▸ List.mem_singleton_self _))
      · rename_i hnil _
        cases h
        obtain ⟨r, hr⟩ := List.exists_mem_of_ne_nil _ hnil
        exact ⟨r, List.mem_append_left _ hr, hrefs r hr⟩

open Plan (Gives gives_and gives_bind gives_inlineFields gives_mono gives_pure gives_trivial gives_lack gives_foldlM)

theorem gives_objectSelection_plain (t : TypeDef) (fields : Fields) (tagged : Bool) (sels : List Selection) :
    Gives c N (objectSelection c.toConfig t fields tagged sels) Plain := by
  cases sels with
  | nil =>
    rw [objectSelection]
    unfold objectOf
    split
    · exact gives_bind gives_trivial fun _ _ => gives_pure trivial
    · exact gives_pure trivial
  | cons selection rest =>
    cases selection with
    | field head below =>
      rw [objectSelection]
      split <;> exact gives_bind gives_trivial fun _ _ => gives_objectSelection_plain t _ _ rest
    | spread name directives =>
      rw [objectSelection]
      refine gives_bind gives_trivial fun f _ => ?_
      split <;> exact gives_objectSelection_plain t _ _ rest
    | inline condition directives below =>
      rw [objectSelection]
      split
      · refine gives_bind gives_trivial fun s _ => gives_bind (gives_inlineFields s) fun _ _ => ?_
        exact gives_objectSelection_plain t _ _ rest
      · exact gives_objectSelection_plain t _ _ rest
termination_by sels.length

/-- What is selected is no tag. -/
theorem selection_fits (t : TypeDef) (sels : List Selection) : Gives c N (selection c.toConfig t sels) (Fits none) := by
  by_cases habstract : t.body.isAbstract = true
  · intro _ shape h
    rcases outcome_selection_abstract habstract h with hfast | ⟨-, g, per, -, -, rfl⟩
    · unfold fastPath? at hfast
      split at hfast
      · cases hfast
      · split at hfast
        · exact fits_shortcut? hfast
        · cases hfast
    · refine fits_ofBranches fun s hs => ?_
      obtain ⟨n, -, rfl⟩ := List.mem_map.1 hs
      exact trivial
  · refine gives_kept (selection.eq_1 c.toConfig t sels) ?_
    change Gives c N (if t.body.isAbstract then _ else _) _
    rw [if_neg habstract]
    split
    · exact gives_mono (gives_objectSelection_plain t [] false sels) fun s => Shape.fits_of_plain
    · exact gives_lack

theorem gives_outputShape_fits {below : Option (TypeDef → Plan Shape)}
    (h : ∀ select ∈ below, ∀ t, Gives c N (select t) (Fits none)) (type : TypeRef) (nullable : Bool) :
    Gives c N (outputShape c.toConfig below type nullable) (Fits none) := by
  induction type generalizing nullable with
  | nonNull t ih => exact ih false
  | list t ih => exact gives_bind gives_trivial fun s _ => gives_pure trivial
  | named n =>
    refine gives_bind gives_trivial fun t _ => ?_
    cases t.body with
    | scalar => exact gives_pure trivial
    | enum values | input fields => exact gives_bind (P := fun _ => True) gives_trivial fun _ _ => gives_pure trivial
    | object interfaces fields | interface interfaces fields | union members =>
      cases below with
      | none => exact gives_pure trivial
      | some select => exact gives_bind (h select rfl t) fun s hs => gives_pure ((Shape.fits_withNote _).2 hs)

/-- The shape of a field is no tag. -/
theorem gives_fieldShape_fits (t : TypeDef) (head : FieldHead) (conditional : Bool) (below : List Selection) :
    Gives c N (fieldShape c.toConfig t head conditional
      (if below.isEmpty then none else some (fun t => selection c.toConfig t below))) (Fits none) := by
  unfold fieldShape
  cases t.field? head.name with
  | none => exact gives_lack
  | some field =>
    exact gives_bind (gives_outputShape_fits (gives_below fun t => selection_fits t below) field.type true) fun s hs =>
      gives_pure ((Shape.fits_withNote _).2 hs)

theorem gives_typeTag_fits (name : String) (n : Note) :
    Gives c N (typeTag name) fun tag => (Shape.tag tag n).Fits none := by
  intro _ tag htag
  cases htag
  exact Or.inl rfl

theorem gives_abstractTag_fits (name : String) (n : Note) :
    Gives c N (abstractTag name) fun tag => (Shape.tag tag n).Fits (some name) := by
  intro _ tag htag
  cases htag
  exact Or.inr rfl

/-! ## Gathered fields -/

mutual

/-- The fields of selections on an object type are tidy, and their tags name single types. -/
theorem selection_tidy {t : TypeDef} (hobject : t.body.isObject = true) (sels : List Selection) :
    Gives c N (selection c.toConfig t sels) fun s => Tidy none s.fields := by
  refine gives_kept (selection.eq_1 c.toConfig t sels) ?_
  change Gives c N (if t.body.isAbstract then _ else _) _
  rw [if_neg (GraphQL.TypeBody.not_isAbstract hobject), if_pos hobject]
  exact objectSelection_tidy hobject Shape.tidy_nil false sels
termination_by (sizeOf sels, 1)
decreasing_by exact Prod.Lex.right _ Nat.zero_lt_one

theorem objectSelection_tidy {t : TypeDef} (hobject : t.body.isObject = true) {fields : Fields} (h : Tidy none fields)
    (tagged : Bool) (sels : List Selection) :
    Gives c N (objectSelection c.toConfig t fields tagged sels) fun s => Tidy none s.fields := by
  match sels with
  | [] =>
    rw [objectSelection]
    unfold objectOf
    split
    · exact gives_bind (gives_typeTag_fits t.name {}) fun tag htag =>
        gives_pure (Shape.tidy_insert h htag typenameKey)
    · exact gives_pure h
  | .field head below :: rest =>
    rw [objectSelection]
    split
    · exact gives_bind (gives_typeTag_fits t.name _) fun tag htag =>
        objectSelection_tidy hobject (tidy_mergeField h htag head.key) true rest
    · refine gives_bind (gives_fieldShape_fits t head _ below) fun s hs => ?_
      exact objectSelection_tidy hobject (tidy_mergeField h hs head.key) tagged rest
  | .spread name directives :: rest =>
    rw [objectSelection]
    refine gives_bind gives_trivial fun f _ => ?_
    split
    · exact objectSelection_tidy hobject (Shape.tidy_mergeFields h (tidy_refFields f t.name)) tagged rest
    · exact objectSelection_tidy hobject h tagged rest
  | .inline condition directives below :: rest =>
    rw [objectSelection]
    split
    · refine gives_bind (selection_tidy hobject below) fun s hs => ?_
      refine gives_bind (gives_inlineFields s) fun more hmore => ?_
      exact objectSelection_tidy hobject (Shape.tidy_mergeFields h (hmore ▸ hs)) tagged rest
    · exact objectSelection_tidy hobject h tagged rest
termination_by (sizeOf sels, 0)
decreasing_by
  all_goals first
    | exact Prod.Lex.left _ _ sizeOf_tail_lt
    | exact Prod.Lex.left _ _ sizeOf_below_lt

end

/-- The fields that groups hold for all types are tidy, and their tags name types alone or within the abstract type. -/
theorem groups_tidy {small : List Selection → Prop} (t : TypeDef) (sels : List Selection)
    (h : ∀ l, sizeOf l < sizeOf sels → small l) (g : Groups small) (hg : Tidy (some t.name) g.base) :
    Gives c N (groups c.toConfig t sels h g) fun g' => Tidy (some t.name) g'.base := by
  cases sels with
  | nil =>
    rw [groups]
    unfold closeGroups
    split
    · exact gives_bind (gives_abstractTag_fits t.name {}) fun tag htag =>
        gives_pure (Shape.tidy_insert hg htag typenameKey)
    · exact gives_pure hg
  | cons selection rest =>
    cases selection with
    | field head below =>
      rw [groups]
      split
      · exact gives_bind (gives_abstractTag_fits t.name _) fun tag htag =>
          groups_tidy t rest (small_tail h) _ (tidy_mergeField hg htag head.key)
      · exact gives_bind (gives_fieldShape_fits t head _ below) fun s hs =>
          groups_tidy t rest (small_tail h) _ (tidy_mergeField hg (hs.mono _) head.key)
    | spread name directives =>
      rw [groups]
      refine gives_bind gives_trivial fun f _ => ?_
      split
      · exact groups_tidy t rest (small_tail h) _ hg
      · refine gives_bind gives_trivial fun t' _ => ?_
        split <;> exact groups_tidy t rest (small_tail h) _ hg
    | inline condition directives below =>
      rw [groups]
      refine gives_bind gives_trivial fun t' _ => ?_
      split
      · exact gives_bind (groups_tidy t below (small_inner h) g hg) fun g₁ hg₁ =>
          groups_tidy t rest (small_tail h) g₁ hg₁
      · split <;> exact groups_tidy t rest (small_tail h) _ hg
termination_by sizeOf sels
decreasing_by
  all_goals
    subst_vars
    first
      | exact sizeOf_tail_lt
      | exact sizeOf_below_lt

/-! ## What is kept when fields are gathered -/

/-- What may be said of fields, with the type that their tags may name beside single ones, and is kept while the fields for
the types of an abstract type are gathered: by the fields of fragments, by merging and by giving a type its own tag. -/
structure KeptByGathering (c : Sources) (P : Option String → Fields → Prop) : Prop where
  nil : P none []
  mono : ∀ {fields : Fields}, P none fields → ∀ w, P w fields
  refFields : ∀ (f : FragmentDef) (parent : String), P none (refFields c.toConfig f parent)
  mergeFields : ∀ {w : Option String} {fields fields' : Fields}, P w fields → P w fields' →
    P w (Shape.mergeFields fields fields')
  retag : ∀ {w : Option String} {fields : Fields} {tag : TypeTag}, P w fields → tag.within = none → P none (retag tag fields)

section

variable {P : Option String → Fields → Prop} {small : List Selection → Prop} {t : TypeDef} {g : Groups small}

theorem KeptByGathering.baseFields (hP : KeptByGathering c P) (h : P w g.base) : P w (baseFields c.toConfig t g) := by
  unfold Compile.baseFields
  generalize g.ownSpreads = own, g.base = fields at h
  induction own generalizing fields with
  | nil => exact h
  | cons f own ih => exact ih _ (hP.mergeFields h (hP.mono (hP.refFields f t.name) w))

theorem KeptByGathering.contribute (hP : KeptByGathering c P) {per : TypeFields} (hper : ∀ n, P none (per.of n))
    {fields : Fields} (h : P w fields) (possible : List String) (name : String) :
    Gives c N (contribute possible name fields per) fun per => ∀ n, P none (per.of n) := by
  unfold Compile.contribute
  split
  · exact gives_pure hper
  · intro _ per' hper' n
    rw [Plan.outcome_bind, outcome_resolveTags] at hper'
    cases hper'
    rw [TypeFields.of_insert]
    split
    · exact hP.mergeFields (hper name) (hP.retag h rfl)
    · exact hper n

/-- Fields that are added for possible types, however these are chosen. -/
theorem KeptByGathering.contributeAll (hP : KeptByGathering c P) {per : TypeFields} (hper : ∀ n, P none (per.of n))
    {fields : String → Fields} (h : ∀ n, P w (fields n)) (p : String → Bool) (possible names : List String) :
    Gives c N (names.foldlM (fun per name => if p name then Compile.contribute possible name (fields name) per else pure per) per)
      fun per => ∀ n, P none (per.of n) := by
  refine gives_foldlM (fun name _ per hper => ?_) hper
  split
  · exact hP.contribute hper (h name) possible name
  · exact gives_pure hper

/-- What holds of the selections of the inline fragments among groups holds of the fields that are gathered for each type. -/
theorem KeptByGathering.typeFields (hP : KeptByGathering c P) {below : GroupCompiler small}
    (hconcrete : ∀ n i, At g.concreteInlines n i → Gives c N (below.concrete i.1 i.2) fun s => P none s.fields)
    (habstract : ∀ i ∈ g.abstractInlines,
      Gives c N (below.abstract i.1 i.2) fun r => P (some i.1.name) r.1 ∧ ∀ n, P none (r.2.of n)) (possible : List String) :
    Gives c N (typeFields c.toConfig below t possible g) fun per => ∀ n, P none (per.of n) := by
  unfold Compile.typeFields
  refine gives_bind (P := fun per : TypeFields => ∀ n, P none (per.of n))
    (gives_foldlM (fun e he per hper => ?_) fun n => hP.nil) fun per hper => ?_
  · split
    · refine gives_foldlM (fun i hi per hper => ?_) hper
      refine gives_bind (hconcrete e.1 i ⟨e, he, rfl, hi⟩) fun s hs => gives_bind (gives_inlineFields s) fun fields hfields => ?_
      exact hP.contribute hper (hfields ▸ hs) possible e.1
    · exact gives_pure hper
  refine gives_bind (P := fun per : TypeFields => ∀ n, P none (per.of n))
    (gives_foldlM (fun e _ per hper => ?_) hper) fun per hper => ?_
  · exact gives_foldlM (fun f _ per hper => hP.contribute hper (hP.refFields f t.name) possible e.1) hper
  refine gives_bind (P := fun per : TypeFields => ∀ n, P none (per.of n))
    (gives_foldlM (fun f _ per hper => ?_) hper) fun per hper => ?_
  · exact hP.contributeAll hper (fun n => hP.refFields f t.name) _ possible possible
  refine gives_foldlM (fun i hi per hper => ?_) hper
  refine gives_bind (habstract i hi) fun r hr => ?_
  exact hP.contributeAll hper (fun n => hP.mergeFields hr.1 (hP.mono (hr.2 n) _)) _ possible possible

end

/-- The fields of each type are tidy, and their tags name single types. -/
def TypeFields.Tidy (per : TypeFields) : Prop :=
  ∀ n, Shape.Tidy none (per.of n)

theorem tidy_kept : KeptByGathering c Tidy where
  nil := Shape.tidy_nil
  mono h w := h.mono w
  refFields f parent := tidy_refFields f parent
  mergeFields := Shape.tidy_mergeFields
  retag h htag := tidy_retag h (Or.inl htag)

/-- The fields of selections on an abstract type, those shared among all its types and those of single types, are tidy. -/
theorem sharedAndOwn_tidy (t : TypeDef) (sels : List Selection) :
    Gives c N (sharedAndOwn c.toConfig t sels) fun r => Tidy (some t.name) r.1 ∧ r.2.Tidy := by
  rw [sharedAndOwn]
  refine gives_bind (gives_and (groups_sorted t sels (fun _ h => h) {} Groups.sorted_empty)
    (groups_tidy t sels (fun _ h => h) {} Shape.tidy_nil)) fun g hg => ?_
  refine gives_bind (tidy_kept.typeFields (fun n i hi => selection_tidy (hg.1 n i hi).2.1 i.2.1)
    (fun i _ => sharedAndOwn_tidy i.1 i.2.1) _) fun per hper => gives_pure ⟨tidy_kept.baseFields hg.2, hper⟩
termination_by sizeOf sels
decreasing_by exact i.2.2

end ResponseTypes.Compile
