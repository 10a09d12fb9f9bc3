import ResponseTypes.Proofs.Plan.Reading

/-!
# Kept shapes

A shape that is kept while a selection is compiled is that of the selection it is kept for (`selection_keeps`).
-/

namespace ResponseTypes.Compile

set_option autoImplicit false

open GraphQL (FieldHead Selection TypeDef TypeRef)

variable {c : Sources}

/-- The definition is the one that the schema has under its name. -/
def Known (c : Config) (t : TypeDef) : Prop :=
  c.schema.type? t.name = some t

theorem known_of_typeOf {name : String} {t : TypeDef} (h : (Plan.typeOf c.toConfig name).outcome c = .ok t) :
    Known c.toConfig t := by
  have ht := Plan.outcome_typeOf h
  rw [Known, Schema.name_of_type? ht, ht]

theorem known_root {c : Config} {kind : GraphQL.OperationKind} {root : TypeDef}
    (h : c.schema.root? kind = some root) : Known c root := by
  obtain ⟨name, -, htype⟩ := Option.bind_eq_some_iff.1 h
  rw [Known, Schema.name_of_type? htype, htype]

/-- Inline fragments stand among groups with the definitions of the types they are on. -/
structure Groups.Known {small : List Selection → Prop} (c : Config) (g : Groups small) : Prop where
  concrete : ∀ e ∈ g.concreteInlines, ∀ i ∈ e.2, Compile.Known c i.1
  abstract : ∀ i ∈ g.abstractInlines, Compile.Known c i.1

theorem mem_appendAt {α : Type} {m : Assoc String (List α)} {key : String} {a x : α} {e : String × List α}
    (he : e ∈ appendAt m key a) (hx : x ∈ e.2) : x = a ∨ ∃ e' ∈ m, x ∈ e'.2 := by
  rcases Assoc.mem_insert he with rfl | he
  · rcases List.mem_append.1 hx with hx | hx
    · cases hm : Assoc.get? m key with
      | none => simp [hm] at hx
      | some l => exact Or.inr ⟨(key, l), Assoc.mem_of_get? hm, by simpa [hm] using hx⟩
    · exact Or.inl (List.mem_singleton.1 hx)
  · exact Or.inr ⟨e, he, hx⟩

namespace Plan

theorem keeps_typeTag (name : String) : (typeTag name).Keeps c := ⟨fun _ _ => nofun, trivial⟩

theorem keeps_abstractTag (name : String) : (abstractTag name).Keeps c := ⟨fun _ _ => nofun, trivial⟩

theorem keeps_outputShape {below : Option (TypeDef → Plan Shape)}
    (h : ∀ select ∈ below, ∀ t, Known c.toConfig t → (select t).Keeps c) (type : TypeRef) (nullable : Bool)
    (htype : c.schema.OutputTyped → ∀ t, c.schema.type? type.base = some t → ∀ fields, t.body ≠ .input fields) :
    (outputShape c.toConfig below type nullable).Keeps c := by
  induction type generalizing nullable with
  | nonNull t ih => exact ih false htype
  | list t ih => exact keeps_bind (ih true htype) fun _ _ => trivial
  | named n =>
    refine keeps_bind (keeps_typeOf n) fun t ht => ?_
    cases hbody : t.body with
    | scalar => trivial
    | enum values => exact ⟨fun _ _ => nofun, trivial⟩
    | input fields => exact ⟨fun hs => absurd hbody (htype hs t (outcome_typeOf ht) fields), trivial⟩
    | object interfaces fields | interface interfaces fields | union members =>
      cases below with
      | none => trivial
      | some select => exact keeps_bind (h select rfl t (known_of_typeOf ht)) fun _ _ => trivial

theorem keeps_fieldShape {below : Option (TypeDef → Plan Shape)}
    (h : ∀ select ∈ below, ∀ t, Known c.toConfig t → (select t).Keeps c) {t : TypeDef} (ht : Known c.toConfig t)
    (head : FieldHead) (conditional : Bool) : (fieldShape c.toConfig t head conditional below).Keeps c := by
  unfold fieldShape
  cases hfield : t.field? head.name with
  | none => trivial
  | some field =>
    refine keeps_bind (keeps_outputShape h field.type true fun hs => ?_) fun _ _ => trivial
    exact hs t.name t ht field (List.mem_of_find?_eq_some hfield)

theorem keeps_objectOf (t : TypeDef) (fields : Fields) (tagged : Bool) :
    (objectOf c.toConfig t fields tagged).Keeps c := by
  unfold objectOf
  split
  · exact keeps_bind (keeps_typeTag t.name) fun _ _ => trivial
  · trivial

/-- What a plan keeps is right, and what comes of it is as it should be. -/
def KeepsTo {α : Type} (c : Sources) (p : Plan α) (P : α → Prop) : Prop :=
  p.Keeps c ∧ ∀ a, p.outcome c = .ok a → P a

theorem keepsTo_pure {α : Type} {P : α → Prop} {a : α} (h : P a) : (pure a : Plan α).KeepsTo c P :=
  ⟨trivial, fun _ heq => Except.ok.inj heq ▸ h⟩

theorem keepsTo_bind {α β : Type} {p : Plan α} {f : α → Plan β} {P : β → Prop} (h : p.Keeps c)
    (hf : ∀ a, p.outcome c = .ok a → (f a).KeepsTo c P) : (p >>= f).KeepsTo c P := by
  refine ⟨keeps_bind h fun a ha => (hf a ha).1, fun b hb => ?_⟩
  obtain ⟨a, ha, hb⟩ := outcome_bind_ok hb
  exact (hf a ha).2 b hb

theorem keepsTo_closeGroups {small : List Selection → Prop} (t : TypeDef) {g : Groups small} (hg : g.Known c.toConfig) :
    (closeGroups c.toConfig t g).KeepsTo c (Groups.Known c.toConfig) := by
  unfold closeGroups
  split
  · exact keepsTo_bind (keeps_abstractTag t.name) fun _ _ => keepsTo_pure ⟨hg.concrete, hg.abstract⟩
  · exact keepsTo_pure hg

theorem keeps_mapM {α β : Type} {l : List α} {f : α → Plan β} (h : ∀ a ∈ l, (f a).Keeps c) :
    (l.mapM f).Keeps c := by
  have go : ∀ (l : List α) (done : List β), (∀ a ∈ l, (f a).Keeps c) → (List.mapM.loop f l done).Keeps c := by
    intro l
    induction l with
    | nil => exact fun _ _ => trivial
    | cons a l ih =>
      exact fun done h => keeps_bind (h a List.mem_cons_self) fun b _ =>
        ih (b :: done) fun a' ha' => h a' (List.mem_cons_of_mem a ha')
  exact go l [] h

theorem keeps_contribute (possible : List String) (name : String) (fields : Fields) (per : TypeFields) :
    (contribute possible name fields per).Keeps c := by
  unfold contribute
  split
  · trivial
  · refine keeps_bind ?_ fun _ _ => trivial
    unfold resolveTags
    split
    · refine keeps_mapM fun e _ => ?_
      split
      · exact keeps_bind (keeps_typeTag name) fun _ _ => trivial
      · trivial
    · trivial

theorem keeps_inlineFields (s : Shape) : (inlineFields s).Keeps c := by
  cases s <;> trivial

theorem keeps_typeFields {small : List Selection → Prop} {below : GroupCompiler small} {g : Groups small}
    (hconcrete : ∀ t s, Known c.toConfig t → (below.concrete t s).Keeps c)
    (habstract : ∀ t s, Known c.toConfig t → (below.abstract t s).Keeps c) (hg : g.Known c.toConfig) (t : TypeDef)
    (possible : List String) : (typeFields c.toConfig below t possible g).Keeps c := by
  unfold typeFields
  refine keeps_bind (keeps_foldlM (fun e he per => ?_) _) fun per _ => ?_
  · split
    · refine keeps_foldlM (fun i hi per => ?_) _
      refine keeps_bind (hconcrete _ _ (hg.concrete e he i hi)) fun s _ => ?_
      exact keeps_bind (keeps_inlineFields s) fun _ _ => keeps_contribute _ _ _ _
    · trivial
  refine keeps_bind (keeps_foldlM (fun e _ per => ?_) _) fun per _ => ?_
  · exact keeps_foldlM (fun f _ per => keeps_contribute _ _ _ _) _
  refine keeps_bind (keeps_foldlM (fun f _ per => ?_) _) fun per _ => ?_
  · refine keeps_foldlM (fun name _ per => ?_) _
    split
    · exact keeps_contribute _ _ _ _
    · trivial
  refine keeps_foldlM (fun i hi per => ?_) _
  refine keeps_bind (habstract _ _ (hg.abstract i hi)) fun r _ => ?_
  refine keeps_foldlM (fun name _ per => ?_) _
  split
  · exact keeps_contribute _ _ _ _
  · trivial

theorem keeps_sharedTag (t : TypeDef) (possible targeted : List String) :
    (sharedTag t possible targeted).Keeps c := by
  unfold sharedTag
  split
  · exact keeps_abstractTag t.name
  · dsimp only
    split
    · exact ⟨fun _ _ => nofun, trivial⟩
    · exact keeps_bind (keeps_forM fun _ _ => ⟨fun _ _ => nofun, trivial⟩) fun _ _ => trivial

theorem keeps_branchesFrom (t : TypeDef) (possible : List String) (base : Fields) (per : TypeFields)
    (shared : Option TypeTag) (names : List String) :
    (branchesFrom c.toConfig t possible base per shared names).Keeps c := by
  induction names generalizing shared with
  | nil => trivial
  | cons name rest ih =>
    rw [branchesFrom]
    dsimp only
    split
    · exact keeps_bind (ih shared) fun _ _ => trivial
    · split
      · exact keeps_bind (keeps_typeTag name) fun _ _ => keeps_bind (ih shared) fun _ _ => trivial
      · cases shared with
        | none =>
          refine keeps_bind (keeps_sharedTag _ _ _) fun tag _ => ?_
          exact keeps_bind (ih (some tag)) fun _ _ => trivial
        | some tag =>
          refine keeps_bind (p := pure tag) trivial fun tag _ => ?_
          exact keeps_bind (ih (some tag)) fun _ _ => trivial

theorem keeps_ofGroups {small : List Selection → Prop} {below : GroupCompiler small} {g : Groups small}
    (hconcrete : ∀ t s, Known c.toConfig t → (below.concrete t s).Keeps c)
    (habstract : ∀ t s, Known c.toConfig t → (below.abstract t s).Keeps c) (hg : g.Known c.toConfig) (t : TypeDef) :
    (ofGroups c.toConfig below t g).Keeps c := by
  unfold ofGroups
  dsimp only
  split
  · trivial
  · refine keeps_bind (keeps_typeFields hconcrete habstract hg t _) fun per _ => ?_
    exact keeps_bind (keeps_branchesFrom _ _ _ _ _ _) fun _ _ => trivial

end Plan

open Plan

mutual

theorem selection_keeps (t : TypeDef) (sels : List Selection) (ht : Known c.toConfig t) :
    (selection c.toConfig t sels).Keeps c := by
  have hkeep : ∀ body, selection c.toConfig t sels = .keep t.name sels body .done → body.Keeps c →
      (selection c.toConfig t sels).Keeps c := by
    intro body h hbody
    rw [h]
    exact ⟨⟨t, rfl, ht, h⟩, hbody, fun _ _ => trivial⟩
  refine hkeep _ (selection.eq_1 c.toConfig t sels) ?_
  change Plan.Keeps c (if t.body.isAbstract then _ else _)
  split
  · obtain ⟨hgroups, hknown⟩ := groups_keeps t sels (fun _ h => h) {} ht ⟨by simp, by simp⟩
    exact keeps_bind hgroups fun g hg =>
      keeps_ofGroups (fun t' s ht' => selection_keeps t' s.1 ht') (fun t' s ht' => sharedAndOwn_keeps t' s.1 ht')
        (hknown g hg) t
  · split
    · exact objectSelection_keeps t [] false sels ht
    · trivial
termination_by (sizeOf sels, 1)
decreasing_by
  all_goals first
    | exact Prod.Lex.left _ _ s.2
    | exact Prod.Lex.right _ Nat.zero_lt_one

theorem objectSelection_keeps (t : TypeDef) (fields : Fields) (tagged : Bool) (sels : List Selection)
    (ht : Known c.toConfig t) : (objectSelection c.toConfig t fields tagged sels).Keeps c := by
  match sels with
  | [] =>
    rw [objectSelection]
    exact keeps_objectOf t fields tagged
  | .field head below :: rest =>
    rw [objectSelection]
    split
    · exact keeps_bind (keeps_typeTag t.name) fun _ _ => objectSelection_keeps t _ _ rest ht
    · refine keeps_bind (keeps_fieldShape ?_ ht head _) fun _ _ => objectSelection_keeps t _ _ rest ht
      intro select hselect t' ht'
      split at hselect
      · simp at hselect
      · obtain rfl := Option.mem_some_iff.1 hselect
        exact selection_keeps t' below ht'
  | .spread name directives :: rest =>
    rw [objectSelection]
    intro f hf
    change Plan.Keeps c (if appliesTo c.toConfig f.fragment.condition t.name then _ else _)
    split
    · exact objectSelection_keeps t _ _ rest ht
    · exact objectSelection_keeps t _ _ rest ht
  | .inline condition directives below :: rest =>
    rw [objectSelection]
    split
    · refine keeps_bind (selection_keeps t below ht) fun s _ => ?_
      exact keeps_bind (keeps_inlineFields s) fun _ _ => objectSelection_keeps t _ _ rest ht
    · exact objectSelection_keeps t _ _ rest ht
termination_by (sizeOf sels, 0)

theorem groups_keeps {small : List Selection → Prop} (t : TypeDef) (sels : List Selection)
    (h : ∀ l, sizeOf l < sizeOf sels → small l) (g : Groups small)
    (ht : Known c.toConfig t) (hg : g.Known c.toConfig) :
    (groups c.toConfig t sels h g).KeepsTo c (Groups.Known c.toConfig) := by
  match sels with
  | [] =>
    rw [groups]
    exact keepsTo_closeGroups t hg
  | .field head below :: rest =>
    rw [groups]
    split
    · exact keepsTo_bind (keeps_abstractTag t.name) fun _ _ =>
        groups_keeps t rest (small_tail h) _ ht ⟨hg.concrete, hg.abstract⟩
    · refine keepsTo_bind (keeps_fieldShape ?_ ht head _) fun _ _ =>
        groups_keeps t rest (small_tail h) _ ht ⟨hg.concrete, hg.abstract⟩
      intro select hselect t' ht'
      split at hselect
      · simp at hselect
      · obtain rfl := Option.mem_some_iff.1 hselect
        exact selection_keeps t' below ht'
  | .spread name directives :: rest =>
    rw [groups]
    refine keepsTo_bind (p := .spread name .done) (fun _ _ => trivial) fun f _ => ?_
    split
    · exact groups_keeps t rest (small_tail h) _ ht ⟨hg.concrete, hg.abstract⟩
    · refine keepsTo_bind (keeps_typeOf _) fun t' _ => ?_
      split
      · exact groups_keeps t rest (small_tail h) _ ht ⟨hg.concrete, hg.abstract⟩
      · exact groups_keeps t rest (small_tail h) _ ht ⟨hg.concrete, hg.abstract⟩
  | .inline condition directives below :: rest =>
    rw [groups]
    refine keepsTo_bind (keeps_typeOf _) fun t' ht' => ?_
    have hknown := known_of_typeOf ht'
    split
    · obtain ⟨hself, hinner⟩ := groups_keeps t below (small_inner h) g ht hg
      exact keepsTo_bind hself fun g' hg' => groups_keeps t rest (small_tail h) g' ht (hinner g' hg')
    · split
      · refine groups_keeps t rest (small_tail h) _ ht ⟨fun e he i hi => ?_, hg.abstract⟩
        rcases mem_appendAt he hi with rfl | ⟨e', he', hi⟩
        · exact hknown
        · exact hg.concrete e' he' i hi
      · refine groups_keeps t rest (small_tail h) _ ht ⟨hg.concrete, fun i hi => ?_⟩
        rcases List.mem_append.1 hi with hi | hi
        · exact hg.abstract i hi
        · exact List.mem_singleton.1 hi ▸ hknown
termination_by (sizeOf sels, 0)

theorem sharedAndOwn_keeps (t : TypeDef) (sels : List Selection) (ht : Known c.toConfig t) :
    (sharedAndOwn c.toConfig t sels).Keeps c := by
  rw [sharedAndOwn]
  obtain ⟨hgroups, hknown⟩ := groups_keeps t sels (fun _ h => h) {} ht ⟨by simp, by simp⟩
  refine keeps_bind hgroups fun g hg => ?_
  refine keeps_bind ?_ fun _ _ => trivial
  exact keeps_typeFields (fun t' s ht' => selection_keeps t' s.1 ht') (fun t' s ht' => sharedAndOwn_keeps t' s.1 ht')
    (hknown g hg) t _
termination_by (sizeOf sels, 1)
decreasing_by
  all_goals first
    | exact Prod.Lex.left _ _ s.2
    | exact Prod.Lex.right _ Nat.zero_lt_one

end

end ResponseTypes.Compile
