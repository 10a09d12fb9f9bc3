import ResponseTypes.Proofs.Branch.Tidy
import ResponseTypes.Proofs.Exact.Expand

/-!
# Type tags that every selection has

If every selection has to select its type tag, each branch of an interface or a union has the key of the tag
(`branches_tagged`).  The object of an object type has it unless the selections hide it (`hidesTag`): they select the tag, but
under other keys alone (`object_tagged`).

What stands under the key is a tag that may not be missing if nothing but the tag is selected under the key, and that on no
condition (`areCertain`).
-/

namespace ResponseTypes.Compile

set_option autoImplicit false

open GraphQL (FieldHead Selection TypeDef)
open Plan (Gives gives_and gives_bind gives_inlineFields gives_mono gives_pure gives_trivial)

variable {c : Sources} {N : Need → Prop} {w : Option String} {t : TypeDef} {fields fields' : Fields} {s : Shape}

/-! ## What is selected under the key of the tag -/

/-- The type tag is among some selections, under whatever key. -/
def selectsTag (sels : List Selection) : Bool :=
  sels.any fun
    | .field head _ => head.name == typenameKey
    | _ => false

mutual

/-- A selection on the object type adds nothing under the key of its tag. -/
def leavesOut (c : Config) (name : String) : Selection → Bool
  | .field head _ => head.key != typenameKey
  | .spread _ _ => true
  | .inline condition _ below =>
    !appliesTo c (condition.getD name) name || selectsTag below && allLeaveOut c name below

/-- Selections on the object type add nothing under the key of its tag. -/
def allLeaveOut (c : Config) (name : String) : List Selection → Bool
  | [] => true
  | s :: rest => leavesOut c name s && allLeaveOut c name rest

end

/-- Selections on the object type hide its tag: they select it, but nothing under its key. -/
def hidesTag (c : Config) (name : String) (sels : List Selection) : Bool :=
  selectsTag sels && allLeaveOut c name sels

mutual

/-- What a selection adds under the key of the type tag is the tag itself, on no condition. -/
def isCertain : Selection → Bool
  | .field head below => head.key != typenameKey || head.name == typenameKey && !(Selection.field head below).isConditional
  | .spread _ _ => true
  | .inline _ _ below => areCertain below

/-- The same of all of some selections. -/
def areCertain : List Selection → Bool
  | [] => true
  | s :: rest => isCertain s && areCertain rest

end

theorem areCertain_cons {s : Selection} {rest : List Selection} (h : areCertain (s :: rest) = true) :
    isCertain s = true ∧ areCertain rest = true := by
  rwa [areCertain, Bool.and_eq_true] at h

theorem spreadKey_ne_typenameKey (f : FragmentDef) : spreadKey c f ≠ typenameKey := by
  intro h
  have hkey : isFragmentKey typenameKey = true := h ▸ isFragmentKey_fragmentKey _
  exact absurd hkey (by decide)

/-! ## The key of the tag -/

mutual

/-- The fields of an object type have the key of its tag unless its selections hide it. -/
theorem selection_tagged (halways : c.output.alwaysTag = true) (hobject : t.body.isObject = true) (sels : List Selection) :
    Gives c N (selection c.toConfig t sels) fun s =>
      typenameKey ∈ Assoc.keys s.fields ↔ hidesTag c.toConfig t.name sels = false := by
  refine gives_kept (selection.eq_1 c.toConfig t sels) ?_
  change Gives c N (if t.body.isAbstract then _ else _) _
  rw [if_neg (GraphQL.TypeBody.not_isAbstract hobject), if_pos hobject]
  refine gives_mono (objectSelection_tagged halways hobject [] false sels) fun s hs => hs.trans ?_
  rw [hidesTag, Bool.and_eq_false_iff, or_iff_right (show typenameKey ∉ Assoc.keys ([] : Fields) from List.not_mem_nil),
    and_iff_right rfl, or_comm]
termination_by (sizeOf sels, 1)
decreasing_by exact Prod.Lex.right _ Nat.zero_lt_one

theorem objectSelection_tagged (halways : c.output.alwaysTag = true) (hobject : t.body.isObject = true) (fields : Fields)
    (tagged : Bool) (sels : List Selection) :
    Gives c N (objectSelection c.toConfig t fields tagged sels) fun s => typenameKey ∈ Assoc.keys s.fields ↔
      typenameKey ∈ Assoc.keys fields ∨ allLeaveOut c.toConfig t.name sels = false ∨
        tagged = false ∧ selectsTag sels = false := by
  match sels with
  | [] =>
    rw [objectSelection, objectOf, halways]
    by_cases hhas : typenameKey ∈ Assoc.keys fields
    · have hfalse : (true && !tagged && !Assoc.has fields typenameKey) = false := by simp [Assoc.has_iff.2 hhas]
      rw [hfalse]
      exact gives_pure (iff_of_true hhas (Or.inl hhas))
    · have hnone : Assoc.has fields typenameKey = false := by rwa [← Bool.not_eq_true, Assoc.has_iff]
      cases tagged with
      | false =>
        simp only [hnone, Bool.not_false, Bool.and_self, if_true]
        refine gives_bind gives_trivial fun tag _ => gives_pure (iff_of_true ?_ (Or.inr (Or.inr ⟨trivial, rfl⟩)))
        exact Assoc.mem_keys_insert.2 (Or.inr rfl)
      | true => exact gives_pure (by simp [Shape.fields, hhas, allLeaveOut])
  | .field head below :: rest =>
    have hrest := fun tagged s => objectSelection_tagged halways hobject (mergeField fields head.key s) tagged rest
    rw [objectSelection]
    split
    · rename_i hname
      refine gives_bind gives_trivial fun tag _ => gives_mono (hrest true _) fun s hs => hs.trans ?_
      simp only [mem_keys_mergeField, allLeaveOut, leavesOut, selectsTag, List.any_cons, hname, beq_self_eq_true,
        Bool.and_eq_false_iff, bne_eq_false_iff_eq, Bool.true_or, reduceCtorEq, false_and, and_false, or_false, or_assoc]
      exact or_congr_right (or_congr_left eq_comm)
    · rename_i hname
      refine gives_bind gives_trivial fun s _ => gives_mono (hrest tagged s) fun s hs => hs.trans ?_
      have hname' : (head.name == typenameKey) = false := beq_false_of_ne hname
      simp only [mem_keys_mergeField, allLeaveOut, leavesOut, selectsTag, List.any_cons, hname', Bool.and_eq_false_iff,
        bne_eq_false_iff_eq, Bool.false_or, or_assoc]
      exact or_congr_right (or_congr_left eq_comm)
  | .spread name directives :: rest =>
    have hsame : allLeaveOut c.toConfig t.name (.spread name directives :: rest) = allLeaveOut c.toConfig t.name rest := rfl
    have hselects : selectsTag (.spread name directives :: rest) = selectsTag rest := rfl
    rw [objectSelection, hsame, hselects]
    refine gives_bind gives_trivial fun f _ => ?_
    split
    · refine gives_mono (objectSelection_tagged halways hobject _ tagged rest) fun s hs => hs.trans ?_
      rw [Shape.mem_keys_mergeFields, mem_keys_refFields, or_iff_left (spreadKey_ne_typenameKey f).symm]
    · exact objectSelection_tagged halways hobject _ tagged rest
  | .inline condition directives below :: rest =>
    have hselects : selectsTag (.inline condition directives below :: rest) = selectsTag rest := rfl
    rw [objectSelection, hselects, allLeaveOut, leavesOut]
    split
    · rename_i happlies
      refine gives_bind (selection_tagged halways hobject below) fun s hs => ?_
      refine gives_bind (gives_inlineFields s) fun more hmore => ?_
      subst hmore
      refine gives_mono (objectSelection_tagged halways hobject _ tagged rest) fun s' hs' => hs'.trans ?_
      rw [Shape.mem_keys_mergeFields, hs, happlies, Bool.not_true, Bool.false_or, hidesTag, Bool.and_eq_false_iff (x := _ && _),
        or_assoc, or_assoc]
    · rename_i happlies
      refine gives_mono (objectSelection_tagged halways hobject _ tagged rest) fun s' hs' => hs'.trans ?_
      rw [Bool.not_eq_true] at happlies
      rw [happlies, Bool.not_false, Bool.true_or, Bool.true_and]
termination_by (sizeOf sels, 0)
decreasing_by
  all_goals first
    | exact Prod.Lex.left _ _ sizeOf_tail_lt
    | exact Prod.Lex.left _ _ sizeOf_below_lt

end

/-- The fields of an abstract type have the key of its tag. -/
theorem groups_tagged (halways : c.output.alwaysTag = true) {small : List Selection → Prop} (t : TypeDef)
    (sels : List Selection) (h : ∀ l, sizeOf l < sizeOf sels → small l) (g : Groups small) :
    Gives c N (groups c.toConfig t sels h g) fun g' => typenameKey ∈ Assoc.keys g'.base := by
  cases sels with
  | nil =>
    rw [groups, closeGroups, halways]
    split
    · exact gives_bind gives_trivial fun tag _ => gives_pure (Assoc.mem_keys_insert.2 (Or.inr rfl))
    · rename_i hhas
      exact gives_pure (Assoc.has_iff.1 (by simpa using hhas))
  | cons selection rest =>
    have hrest := groups_tagged halways t rest (small_tail h)
    cases selection with
    | field head below =>
      rw [groups]
      split <;> exact gives_bind gives_trivial fun _ _ => hrest _
    | spread name directives =>
      rw [groups]
      refine gives_bind gives_trivial fun f _ => ?_
      split
      · exact hrest _
      · refine gives_bind gives_trivial fun t' _ => ?_
        split <;> exact hrest _
    | inline condition directives below =>
      rw [groups]
      refine gives_bind gives_trivial fun t' _ => ?_
      split
      · exact gives_bind gives_trivial fun g₁ _ => hrest g₁
      · split <;> exact hrest _
termination_by sizeOf sels
decreasing_by
  subst_vars
  exact sizeOf_tail_lt

/-! ## The value under the key -/

/-- What stands under the key of the type tag, if anything does, is a tag that may not be missing; it names types alone or
within `w`. -/
def Certain (w : Option String) (fields : Fields) : Prop :=
  ∀ s, Assoc.get? fields typenameKey = some s → ∃ u : TypeTag, s = .tag u {} ∧ (u.within = none ∨ u.within = w)

theorem certain_of_not_mem (h : typenameKey ∉ Assoc.keys fields) : Certain w fields :=
  fun _ hs => absurd ((Assoc.get?_eq_none.2 h).symm.trans hs) nofun

theorem certain_nil : Certain w [] := certain_of_not_mem List.not_mem_nil

theorem Certain.mono (h : Certain none fields) (w : Option String) : Certain w fields := by
  intro s hs
  obtain ⟨u, rfl, hu⟩ := h s hs
  exact ⟨u, rfl, Or.inl (hu.elim id id)⟩

/-- Tags that may not be missing are merged to one that may not. -/
theorem merge_certain {u u' : TypeTag} (h : u.within = none ∨ u.within = w) (h' : u'.within = none ∨ u'.within = w) :
    ∃ v : TypeTag, Shape.merge (.tag u {}) (.tag u' {}) = .tag v {} ∧ (v.within = none ∨ v.within = w) := by
  obtain ⟨v, hv, hwithin⟩ := Shape.exists_uniteTags h h'
  refine ⟨v, ?_, hwithin⟩
  unfold Shape.merge
  cases max (Shape.tag u {}).nesting (Shape.tag u' {}).nesting
  all_goals
    unfold Shape.mergeAt Shape.mergeWith
    simp only [hv]
    rfl

theorem certain_mergeFields (h : Certain w fields) (h' : Certain w fields') : Certain w (Shape.mergeFields fields fields') := by
  intro s hs
  rw [Shape.mergeFields, Shape.get?_mergeFieldsWith] at hs
  cases ha : Assoc.get? fields typenameKey with
  | none =>
    rw [ha, Option.merge_none_left] at hs
    exact h' s hs
  | some a =>
    cases hb : Assoc.get? fields' typenameKey with
    | none =>
      rw [ha, hb] at hs
      exact h s (ha.trans hs)
    | some b =>
      rw [ha, hb] at hs
      cases hs
      obtain ⟨u, rfl, hu⟩ := h a ha
      obtain ⟨u', rfl, hu'⟩ := h' b hb
      exact merge_certain hu hu'

theorem certain_mergeField (h : Certain w fields) {key : String}
    (hs : key = typenameKey → ∃ u : TypeTag, s = .tag u {} ∧ (u.within = none ∨ u.within = w)) :
    Certain w (mergeField fields key s) := by
  intro r hr
  rw [mergeField, Assoc.get?_insert] at hr
  split at hr
  · rename_i hkey
    cases hr
    obtain ⟨u, rfl, hu⟩ := hs hkey
    rw [hkey]
    cases ha : Assoc.get? fields typenameKey with
    | none => exact ⟨u, rfl, hu⟩
    | some a =>
      obtain ⟨u', rfl, hu'⟩ := h a ha
      exact merge_certain hu' hu
  · exact h r hr

theorem certain_insert {u : TypeTag} (hu : u.within = none ∨ u.within = w) :
    Certain w (Assoc.insert fields typenameKey (.tag u {})) := by
  intro s hs
  rw [Assoc.get?_insert, if_pos rfl] at hs
  cases hs
  exact ⟨u, rfl, hu⟩

theorem certain_refFields (f : FragmentDef) (parent : String) : Certain w (refFields c.toConfig f parent) :=
  certain_of_not_mem fun hmem => spreadKey_ne_typenameKey f (mem_keys_refFields.1 hmem).symm

theorem certain_retag (h : Certain w fields) {w' : Option String} {tag : TypeTag} (htag : tag.within = none ∨ tag.within = w') :
    Certain w' (retag tag fields) := by
  intro s hs
  rw [retag, Assoc.get?_map (fun e : String × Shape => if e.2.isTag then Shape.tag tag { nullable := e.2.nullable } else e.2)] at hs
  obtain ⟨a, ha, rfl⟩ := Option.map_eq_some_iff.1 hs
  obtain ⟨u, rfl, -⟩ := h a ha
  exact ⟨tag, rfl, htag⟩

theorem certain_kept : KeptByGathering c Certain where
  nil := certain_nil
  mono h w := h.mono w
  refFields f parent := certain_refFields f parent
  mergeFields := certain_mergeFields
  retag h htag := certain_retag h (Or.inl htag)

/-- A field that is no tag stands under another key, and the tag is on no condition where it stands under its own. -/
theorem certain_field {head : FieldHead} {below : List Selection} (h : isCertain (.field head below) = true)
    (hkey : head.key = typenameKey) : head.name = typenameKey ∧ (Selection.field head below).isConditional = false := by
  rw [isCertain, hkey] at h
  simpa using h

theorem gives_typeTag_eq (name : String) : Gives c N (typeTag name) (· = .single name) :=
  fun _ _ htag => (Except.ok.inj htag).symm

theorem gives_abstractTag_eq (name : String) : Gives c N (abstractTag name) (· = .allOf name) :=
  fun _ _ htag => (Except.ok.inj htag).symm

mutual

theorem selection_certain (hobject : t.body.isObject = true) {sels : List Selection} (hsels : areCertain sels = true) :
    Gives c N (selection c.toConfig t sels) fun s => Certain none s.fields := by
  refine gives_kept (selection.eq_1 c.toConfig t sels) ?_
  change Gives c N (if t.body.isAbstract then _ else _) _
  rw [if_neg (GraphQL.TypeBody.not_isAbstract hobject), if_pos hobject]
  exact objectSelection_certain hobject certain_nil false hsels
termination_by (sizeOf sels, 1)
decreasing_by exact Prod.Lex.right _ Nat.zero_lt_one

theorem objectSelection_certain (hobject : t.body.isObject = true) {fields : Fields} (h : Certain none fields) (tagged : Bool)
    {sels : List Selection} (hsels : areCertain sels = true) :
    Gives c N (objectSelection c.toConfig t fields tagged sels) fun s => Certain none s.fields := by
  match sels, hsels with
  | [], _ =>
    rw [objectSelection, objectOf]
    split
    · refine gives_bind (gives_typeTag_eq t.name) fun tag htag => gives_pure ?_
      subst htag
      exact certain_insert (Or.inl rfl)
    · exact gives_pure h
  | .field head below :: rest, hsels =>
    obtain ⟨hfirst, hrest⟩ := areCertain_cons hsels
    rw [objectSelection]
    split
    · refine gives_bind (gives_typeTag_eq t.name) fun tag htag => ?_
      refine objectSelection_certain hobject (certain_mergeField h fun hkey => ?_) true hrest
      rw [(certain_field hfirst hkey).2, htag]
      exact ⟨_, rfl, Or.inl rfl⟩
    · rename_i hname
      refine gives_bind gives_trivial fun s _ => ?_
      exact objectSelection_certain hobject (certain_mergeField h fun hkey => absurd (certain_field hfirst hkey).1 hname) tagged
        hrest
  | .spread name directives :: rest, hsels =>
    obtain ⟨-, hrest⟩ := areCertain_cons hsels
    rw [objectSelection]
    refine gives_bind gives_trivial fun f _ => ?_
    split
    · exact objectSelection_certain hobject (certain_mergeFields h (certain_refFields f t.name)) tagged hrest
    · exact objectSelection_certain hobject h tagged hrest
  | .inline condition directives below :: rest, hsels =>
    obtain ⟨hfirst, hrest⟩ := areCertain_cons hsels
    rw [objectSelection]
    split
    · refine gives_bind (selection_certain hobject hfirst) fun s hs => ?_
      refine gives_bind (gives_inlineFields s) fun more hmore => ?_
      exact objectSelection_certain hobject (certain_mergeFields h (hmore ▸ hs)) tagged hrest
    · exact objectSelection_certain hobject h tagged hrest
termination_by (sizeOf sels, 0)
decreasing_by
  all_goals first
    | exact Prod.Lex.left _ _ sizeOf_tail_lt
    | exact Prod.Lex.left _ _ sizeOf_below_lt

end

/-- What groups hold under the key of the tag for all types is certain, and so is what their inline fragments select. -/
structure Groups.Certain {small : List Selection → Prop} (name : String) (g : Groups small) : Prop where
  base : Compile.Certain (some name) g.base
  concrete : ∀ n i, At g.concreteInlines n i → areCertain i.2.1 = true
  abstract : ∀ i ∈ g.abstractInlines, areCertain i.2.1 = true

theorem Groups.certain_empty {small : List Selection → Prop} (name : String) : Groups.Certain name ({} : Groups small) :=
  ⟨certain_nil, fun _ _ ⟨_, he, _⟩ => absurd he List.not_mem_nil, fun _ hi => absurd hi List.not_mem_nil⟩

theorem groups_certain {small : List Selection → Prop} (t : TypeDef) {sels : List Selection} (hsels : areCertain sels = true)
    (h : ∀ l, sizeOf l < sizeOf sels → small l) {g : Groups small} (hg : g.Certain t.name) :
    Gives c N (groups c.toConfig t sels h g) (Groups.Certain t.name) := by
  cases sels with
  | nil =>
    rw [groups, closeGroups]
    split
    · refine gives_bind (gives_abstractTag_eq t.name) fun tag htag => gives_pure ?_
      subst htag
      exact ⟨certain_insert (Or.inr rfl), hg.concrete, hg.abstract⟩
    · exact gives_pure hg
  | cons selection rest =>
    obtain ⟨hfirst, hrest⟩ := areCertain_cons hsels
    cases selection with
    | field head below =>
      rw [groups]
      split
      · refine gives_bind (gives_abstractTag_eq t.name) fun tag htag => ?_
        refine groups_certain t hrest (small_tail h) ⟨certain_mergeField hg.base fun hkey => ?_, hg.concrete, hg.abstract⟩
        rw [(certain_field hfirst hkey).2, htag]
        exact ⟨_, rfl, Or.inr rfl⟩
      · rename_i hname
        refine gives_bind gives_trivial fun s _ => groups_certain t hrest (small_tail h) ⟨?_, hg.concrete, hg.abstract⟩
        exact certain_mergeField hg.base fun hkey => absurd (certain_field hfirst hkey).1 hname
    | spread name directives =>
      rw [groups]
      refine gives_bind gives_trivial fun f _ => ?_
      split
      · exact groups_certain t hrest (small_tail h) ⟨hg.base, hg.concrete, hg.abstract⟩
      · refine gives_bind gives_trivial fun t' _ => ?_
        split <;> exact groups_certain t hrest (small_tail h) ⟨hg.base, hg.concrete, hg.abstract⟩
    | inline condition directives below =>
      rw [groups]
      refine gives_bind gives_trivial fun t' _ => ?_
      split
      · exact gives_bind (groups_certain t hfirst (small_inner h) hg) fun g₁ hg₁ =>
          groups_certain t hrest (small_tail h) hg₁
      · split
        · refine groups_certain t hrest (small_tail h) ⟨hg.base, fun n i hi => ?_, hg.abstract⟩
          rcases at_appendAt.1 hi with hi | ⟨-, rfl⟩
          · exact hg.concrete n i hi
          · exact hfirst
        · refine groups_certain t hrest (small_tail h) ⟨hg.base, hg.concrete, fun i hi => ?_⟩
          rcases List.mem_append.1 hi with hi | hi
          · exact hg.abstract i hi
          · rw [List.mem_singleton.1 hi]
            exact hfirst
termination_by sizeOf sels
decreasing_by
  all_goals
    subst_vars
    first
      | exact sizeOf_tail_lt
      | exact sizeOf_below_lt

/-- What stands under the key of the tag for single types is certain. -/
def TypeFields.Certain (per : TypeFields) : Prop :=
  ∀ n, Compile.Certain none (per.of n)

/-- What stands under the key of the tag among the fields of selections on an abstract type is certain, among those that all
its types share and among those of single types. -/
theorem sharedAndOwn_certain (t : TypeDef) {sels : List Selection} (hsels : areCertain sels = true) :
    Gives c N (sharedAndOwn c.toConfig t sels) fun r => Certain (some t.name) r.1 ∧ r.2.Certain := by
  rw [sharedAndOwn]
  refine gives_bind (gives_and (groups_sorted t sels (fun _ h => h) {} Groups.sorted_empty)
    (groups_certain t hsels (fun _ h => h) (Groups.certain_empty t.name))) fun g hg => ?_
  refine gives_bind (certain_kept.typeFields
    (fun n i hi => selection_certain (hg.1 n i hi).2.1 (hg.2.concrete n i hi))
    (fun i hi => sharedAndOwn_certain i.1 (hg.2.abstract i hi)) _) fun per hper => ?_
  exact gives_pure ⟨certain_kept.baseFields hg.2.base, hper⟩
termination_by sizeOf sels
decreasing_by exact i.2.2

/-! ## Branches -/

theorem exists_tag {fields : Fields} (hkey : typenameKey ∈ Assoc.keys fields) (h : Certain w fields) :
    ∃ u, Assoc.get? fields typenameKey = some (.tag u {}) := by
  cases hget : Assoc.get? fields typenameKey with
  | none => exact absurd hkey (Assoc.get?_eq_none.1 hget)
  | some s =>
    obtain ⟨u, rfl, -⟩ := h s hget
    exact ⟨u, rfl⟩

/-- Selections that always have their type tag do not take the fast path. -/
theorem fastPath?_of_alwaysTag (halways : c.output.alwaysTag = true) (t : TypeDef) (sels : List Selection) :
    fastPath? c t sels = none := by
  unfold fastPath?
  split
  · rfl
  · rename_i g hg
    have hkey : typenameKey ∈ Assoc.keys g.base :=
      groups_tagged (N := fun _ => True) halways t sels (fun _ h => h) {} (fun _ _ => trivial) g hg
    have hbase : g.base.isEmpty = false := by
      rw [List.isEmpty_eq_false_iff]
      intro hnil
      rw [hnil] at hkey
      cases hkey
    rw [hbase]
    rfl

theorem outcome_tagged (halways : c.output.alwaysTag = true) (habstract : t.body.isAbstract = true) {sels : List Selection}
    {shape : Shape} (h : (selection c.toConfig t sels).outcome c = .ok shape) :
    ∃ fields : String → Fields,
      shape = ofBranches t ((c.schema.possible t.name).map fun n => .object n (fields n) {}) ∧
      ∀ n ∈ c.schema.possible t.name, typenameKey ∈ Assoc.keys (fields n) ∧
        (areCertain sels = true → ∃ u, Assoc.get? (fields n) typenameKey = some (.tag u {})) := by
  rcases outcome_selection_abstract habstract h with hfast | ⟨-, g, per, hg, hper, rfl⟩
  · exact absurd ((fastPath?_of_alwaysTag halways t sels).symm.trans hfast) nofun
  · have hkeys : ∀ n, typenameKey ∈ Assoc.keys
        (branchFields c.toConfig t (c.schema.possible t.name) (baseFields c.toConfig t g) per n) := by
      intro n
      rw [branchFields, keys_retag, Shape.mem_keys_mergeFields, mem_keys_baseFields]
      exact Or.inl (Or.inl (groups_tagged (N := fun _ => True) halways t sels (fun _ h => h) {} (fun _ _ => trivial) g hg))
    refine ⟨_, rfl, fun n _ => ⟨hkeys n, fun hsels => ?_⟩⟩
    have hcertain := sharedAndOwn_certain (N := fun _ => True) t hsels (fun _ _ => trivial) _ (outcome_sharedAndOwn hg hper)
    exact exists_tag (hkeys n) (certain_retag (certain_mergeFields hcertain.1 ((hcertain.2 n).mono _)) (Or.inr rfl))

section Runs

variable {c : Setup} {t : TypeDef} {sels : List Selection} {building : List String} {s s' : State} {shape : Shape}

/-- Compiling selections on an object type that always have its tag gives an object with the key of the tag, unless the
selections hide it.  The tag may not be missing if nothing else is selected under the key. -/
theorem object_tagged (halways : c.output.alwaysTag = true) (ht : Known c.toConfig t) (hobject : t.body.isObject = true)
    (hs : Recalls c.toSources s)
    (h : (select c (useFragment c fun name => discard (generateFragment c building name)) t sels).runOn s =
      (.ok shape, s')) :
    (typenameKey ∈ Assoc.keys shape.fields ↔ hidesTag c.toConfig t.name sels = false) ∧
      (areCertain sels = true → hidesTag c.toConfig t.name sels = false →
        ∃ u, Assoc.get? shape.fields typenameKey = some (.tag u {})) := by
  have hout := outcome_of_select ht hs h
  have hkey : typenameKey ∈ Assoc.keys shape.fields ↔ hidesTag c.toConfig t.name sels = false :=
    selection_tagged (N := fun _ => True) halways hobject sels (fun _ _ => trivial) shape hout
  refine ⟨hkey, fun hsels hshown => exists_tag (hkey.2 hshown) (w := none) ?_⟩
  exact selection_certain (N := fun _ => True) hobject hsels (fun _ _ => trivial) shape hout

/-- Compiling selections on an interface or a union that always have its tag gives branches with the key of the tag.  The tag
may not be missing if nothing else is selected under the key. -/
theorem branches_tagged (halways : c.output.alwaysTag = true) (ht : Known c.toConfig t) (habstract : t.body.isAbstract = true)
    (hs : Recalls c.toSources s)
    (h : (select c (useFragment c fun name => discard (generateFragment c building name)) t sels).runOn s =
      (.ok shape, s')) :
    ∃ fields : String → Fields,
      shape = ofBranches t ((c.schema.possible t.name).map fun n => .object n (fields n) {}) ∧
      ∀ n ∈ c.schema.possible t.name, typenameKey ∈ Assoc.keys (fields n) ∧
        (areCertain sels = true → ∃ u, Assoc.get? (fields n) typenameKey = some (.tag u {})) :=
  outcome_tagged halways habstract (outcome_of_select ht hs h)

end Runs

/-- `{ kind: __typename id }` hides the tag, and `{ ... { kind: __typename } id }` does not. -/
example :
    hidesTag finding.toConfig "User" [.field ⟨some "kind", "__typename", [], []⟩ [], .field ⟨none, "id", [], []⟩ []] = true ∧
    hidesTag finding.toConfig "User"
      [.inline none [] [.field ⟨some "kind", "__typename", [], []⟩ []], .field ⟨none, "id", [], []⟩ []] = false := by
  decide

end ResponseTypes.Compile
