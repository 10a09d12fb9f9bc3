import ResponseTypes.Proofs.Plan.Kept
import ResponseTypes.Proofs.Shape.Refs

/-!
# What selections refer to

The shape of a selection refers to nothing but what its plan asks for, and to scalars of the schema (`selection_refs`).
-/

namespace ResponseTypes.Compile

set_option autoImplicit false

open GraphQL (FieldHead Selection TypeDef TypeRef)
open Shape (Leaves RefsIn ListRefsIn FieldRefsIn fieldRefsIn_iff listRefsIn_iff)

/-- Fragments stand under their names. -/
def Sources.Named (c : Sources) : Prop :=
  ∀ name f, Assoc.get? c.fragments name = some f → f.fragment.name = name

/-- The names that are known from needs in `N`; the tag of an abstract type brings those of its possible types. -/
def Config.leaves (c : Config) (N : Need → Prop) : Leaves where
  scalar code :=
    (∃ t, Known c t ∧ t.body = .scalar ∧ code = c.scalars.typeFor t.name) ∨
    (∃ name, N (.declared (.enum name)) ∧ code = c.naming.enum name) ∨
    ∃ name, N (.declared (.input name)) ∧ code = c.naming.input name
  tag name := N (.declared (.tag name)) ∨
    ∃ abstractName, N (.declared (.tagUnion abstractName)) ∧ name ∈ c.schema.possible abstractName
  tagUnion name := N (.declared (.tagUnion name))
  ref fragment artifact := N (.fragment fragment) ∧ artifact = c.naming.fragment fragment

theorem Config.leaves_le {c : Config} {N N' : Need → Prop} (h : ∀ n, N n → N' n) : (c.leaves N).Le (c.leaves N') where
  scalar _ := Or.imp id (Or.imp (fun ⟨name, hn, hcode⟩ => ⟨name, h _ hn, hcode⟩)
    fun ⟨name, hn, hcode⟩ => ⟨name, h _ hn, hcode⟩)
  tag _ := Or.imp (h _) fun ⟨abstractName, hn, hname⟩ => ⟨abstractName, h _ hn, hname⟩
  tagUnion _ := h _
  ref _ _ := fun ⟨hn, hname⟩ => ⟨h _ hn, hname⟩

variable {c : Sources} {N : Need → Prop}

namespace Plan

variable {α β : Type}

/-- If what a plan asks for is in `N`, then its result satisfies `P`. -/
def Gives (c : Sources) (N : Need → Prop) (p : Plan α) (P : α → Prop) : Prop :=
  (∀ n ∈ p.needs c, N n) → ∀ a, p.outcome c = .ok a → P a

theorem gives_bind {p : Plan α} {f : α → Plan β} {P : α → Prop} {Q : β → Prop} (hp : Gives c N p P)
    (hf : ∀ a, P a → Gives c N (f a) Q) : Gives c N (p >>= f) Q := by
  intro hN b hb
  obtain ⟨a, ha, hb⟩ := outcome_bind_ok hb
  rw [needs_bind, ha] at hN
  have hPa : P a := hp (fun n hn => hN n (List.mem_append_left _ hn)) a ha
  exact hf a hPa (fun n hn => hN n (List.mem_append_right _ hn)) b hb

theorem gives_pure {a : α} {P : α → Prop} (h : P a) : Gives c N (pure a) P := by
  intro _ b hb
  cases hb
  exact h

theorem gives_lack {e : Lack} {P : α → Prop} : Gives c N (lack e) P := by
  intro _ b hb
  cases hb

theorem gives_mono {p : Plan α} {P Q : α → Prop} (hp : Gives c N p P) (h : ∀ a, P a → Q a) : Gives c N p Q :=
  fun hN a ha => h a (hp hN a ha)

theorem gives_and {p : Plan α} {P Q : α → Prop} (hp : Gives c N p P) (hq : Gives c N p Q) :
    Gives c N p (fun a => P a ∧ Q a) :=
  fun hN a ha => ⟨hp hN a ha, hq hN a ha⟩

theorem gives_trivial {p : Plan α} : Gives c N p (fun _ => True) :=
  fun _ _ _ => trivial

theorem gives_spread (hc : c.Named) (name : String) : Gives c N (.spread name .done) (fun f => N (.fragment f.fragment.name)) := by
  intro hN f hf
  cases hname : Assoc.get? c.fragments name with
  | none => simp [outcome, hname] at hf
  | some f' =>
    simp only [outcome, hname, Except.ok.injEq] at hf
    rw [← hf, hc name f' hname]
    exact hN _ (by simp [needs, hname])

theorem gives_fragment (name : String) :
    Gives c N (.spread name .done) fun f => Assoc.get? c.fragments name = some f := by
  intro _ f hf
  cases hname : Assoc.get? c.fragments name with
  | none => simp [outcome, hname] at hf
  | some f' =>
    simp only [outcome, hname, Except.ok.injEq] at hf
    rw [hf]

theorem gives_definition (name : String) :
    Gives c N (typeOf c.toConfig name) fun t => c.schema.type? name = some t :=
  fun _ _ ht => outcome_typeOf ht

theorem gives_foldlM {l : List α} {f : β → α → Plan β} {P : β → Prop} (hf : ∀ a ∈ l, ∀ b, P b → Gives c N (f b a) P)
    {b : β} (hb : P b) : Gives c N (l.foldlM f b) P := by
  induction l generalizing b with
  | nil => exact gives_pure hb
  | cons a l ih =>
    exact gives_bind (hf a List.mem_cons_self b hb) fun b' hb' =>
      ih (fun a' ha' => hf a' (List.mem_cons_of_mem a ha')) hb'

theorem gives_mapM {l : List α} {f : α → Plan β} {P : β → Prop} (hf : ∀ a ∈ l, Gives c N (f a) P) :
    Gives c N (l.mapM f) (fun bs => ∀ b ∈ bs, P b) := by
  have go : ∀ (l : List α) (done : List β), (∀ a ∈ l, Gives c N (f a) P) → (∀ b ∈ done, P b) →
      Gives c N (List.mapM.loop f l done) (fun bs => ∀ b ∈ bs, P b) := by
    intro l
    induction l with
    | nil =>
      intro done _ hdone
      exact gives_pure fun b hb => hdone b (List.mem_reverse.1 hb)
    | cons a l ih =>
      intro done hf hdone
      refine gives_bind (hf a List.mem_cons_self) fun b hb => ?_
      refine ih (b :: done) (fun a' ha' => hf a' (List.mem_cons_of_mem a ha')) fun b' hb' => ?_
      rcases List.mem_cons.1 hb' with rfl | hb'
      · exact hb
      · exact hdone b' hb'
  exact go l [] hf (by simp)

end Plan

/-! ## Selections -/

theorem refsIn_refFields {f : FragmentDef} (hf : N (.fragment f.fragment.name)) (parent : String) :
    FieldRefsIn (c.leaves N) (refFields c.toConfig f parent) :=
  ⟨⟨hf, rfl⟩, trivial⟩

theorem refsIn_mergeField {fields : Fields} {key : String} {s : Shape} (h : FieldRefsIn (c.leaves N) fields) (hs : s.RefsIn (c.leaves N)) :
    FieldRefsIn (c.leaves N) (mergeField fields key s) := by
  refine Shape.fieldRefsIn_insert h ?_
  cases hget : Assoc.get? fields key with
  | none => exact hs
  | some a => exact Shape.refsIn_merge (Shape.refsIn_get? h hget) hs

/-- The names that the fields of all types refer to are in `L`. -/
def TypeFields.RefsIn (L : Leaves) (per : TypeFields) : Prop :=
  ∀ e ∈ per, FieldRefsIn L e.2

theorem TypeFields.refsIn_of {per : TypeFields} (h : per.RefsIn (c.leaves N)) (name : String) : FieldRefsIn (c.leaves N) (per.of name) := by
  unfold TypeFields.of
  cases hget : Assoc.get? per name with
  | none => trivial
  | some fields => exact h _ (Assoc.mem_of_get? hget)

/-- The groups refer to what is in `N`. -/
structure Groups.RefsIn {small : List Selection → Prop} (c : Config) (N : Need → Prop) (g : Groups small) : Prop where
  base : FieldRefsIn (c.leaves N) g.base
  own : ∀ f ∈ g.ownSpreads, N (.fragment f.fragment.name)
  concrete : ∀ e ∈ g.concreteSpreads, ∀ f ∈ e.2, N (.fragment f.fragment.name)
  abstract : ∀ f ∈ g.abstractSpreads, N (.fragment f.fragment.name)

theorem refsIn_baseFields {small : List Selection → Prop} {g : Groups small} (hg : g.RefsIn c.toConfig N) (t : TypeDef) :
    FieldRefsIn (c.leaves N) (baseFields c.toConfig t g) := by
  have go : ∀ (l : List FragmentDef) (fields : Fields), (∀ f ∈ l, N (.fragment f.fragment.name)) → FieldRefsIn (c.leaves N) fields →
      FieldRefsIn (c.leaves N) (l.foldl (fun fields f => Shape.mergeFields fields (refFields c.toConfig f t.name)) fields) := by
    intro l
    induction l with
    | nil => exact fun _ _ h => h
    | cons f l ih =>
      intro fields hl h
      refine ih _ (fun f' hf' => hl f' (List.mem_cons_of_mem f hf')) ?_
      exact Shape.fieldRefsIn_mergeFields h (refsIn_refFields (hl f List.mem_cons_self) t.name)
  exact go _ _ hg.own hg.base

theorem refsIn_retag {fields : Fields} (h : FieldRefsIn (c.leaves N) fields) {tag : TypeTag}
    (ht : (c.leaves N).HasTag tag) : FieldRefsIn (c.leaves N) (retag tag fields) := by
  rw [fieldRefsIn_iff] at h ⊢
  intro e he
  obtain ⟨e', he', rfl⟩ := List.mem_map.1 he
  dsimp only
  split
  · exact ht
  · exact h e' he'

theorem refsIn_ofBranches {t : TypeDef} {branches : List Shape} (h : ListRefsIn (c.leaves N) branches) :
    (ofBranches t branches).RefsIn (c.leaves N) := by
  match branches, h with
  | [], _ => trivial
  | [_], h => exact h.1
  | _ :: _ :: _, h => exact h

theorem refsIn_shortcut? {small : List Selection → Prop} {g : Groups small} (hg : g.RefsIn c.toConfig N) {t : TypeDef}
    {possible : List String} {s : Shape} (hs : shortcut? c.toConfig t possible g = some s) : s.RefsIn (c.leaves N) := by
  unfold shortcut? at hs
  split at hs
  · rename_i own hown
    split at hs
    · cases hs
      exact ⟨hg.own own (hown ▸ List.mem_singleton_self own), rfl⟩
    · cases hs
  · cases hs
  · split at hs
    · cases hs
    · dsimp only at hs
      have hrefs : ListRefsIn (c.leaves N) ((g.concreteSpreads.filter (fun e => possible.contains e.1)).flatMap
          (fun e => e.2.map (fun f => refShape c.toConfig f t.name))) := by
        rw [listRefsIn_iff]
        intro s hs
        obtain ⟨e, he, hs⟩ := List.mem_flatMap.1 hs
        obtain ⟨f, hf, rfl⟩ := List.mem_map.1 hs
        exact ⟨hg.concrete e (List.mem_filter.1 he).1 f hf, rfl⟩
      split at hs
      · cases hs
      · rename_i r hr _
        rw [hr] at hrefs
        cases hs
        exact hrefs.1
      · cases hs
        refine listRefsIn_iff.2 fun s hs => ?_
        rcases List.mem_append.1 hs with hs | hs
        · exact listRefsIn_iff.1 hrefs s hs
        · split at hs
          · exact List.mem_singleton.1 hs ▸ trivial
          · cases hs

namespace Plan

/-! ### Declared types -/

theorem gives_typeOf (name : String) : Gives c N (typeOf c.toConfig name) (Known c.toConfig) :=
  fun _ _ ht => known_of_typeOf ht

theorem gives_typeTag (name : String) : Gives c N (typeTag name) (c.leaves N).HasTag := by
  intro hN t ht
  cases ht
  exact Leaves.hasTag_single (Or.inl (hN _ List.mem_cons_self))

theorem gives_abstractTag (name : String) : Gives c N (abstractTag name) (c.leaves N).HasTag := by
  intro hN t ht
  cases ht
  exact Leaves.hasTag_allOf (hN _ List.mem_cons_self)

theorem gives_enumType (name : String) : Gives c N (enumType c.toConfig name) (c.leaves N).scalar := by
  intro hN code hcode
  cases hcode
  exact Or.inr (Or.inl ⟨name, hN _ List.mem_cons_self, rfl⟩)

theorem gives_inputType (name : String) : Gives c N (inputType c.toConfig name) (c.leaves N).scalar := by
  intro hN code hcode
  cases hcode
  exact Or.inr (Or.inr ⟨name, hN _ List.mem_cons_self, rfl⟩)

/-- The needs of a list of tags. -/
theorem needs_forM_tag (names : List String) :
    (names.forM (fun n => Plan.declare (.tag n) (.done ()))).needs c = names.map (fun n => Need.declared (.tag n)) := by
  induction names with
  | nil => rfl
  | cons a l ih =>
    rw [List.map_cons, ← ih]
    rfl

theorem gives_forM_tag (names : List String) :
    Gives c N (names.forM (fun n => Plan.declare (.tag n) (.done ()))) (fun _ => ∀ n ∈ names, (c.leaves N).tag n) := by
  intro hN _ _ n hn
  refine Or.inl (hN _ ?_)
  rw [needs_forM_tag]
  exact List.mem_map_of_mem hn

theorem gives_sharedTag (t : TypeDef) (possible : List String) {targeted : List String}
    (h : ∀ n ∈ targeted, n ∈ c.schema.possible t.name) :
    Gives c N (sharedTag t possible targeted) (c.leaves N).HasTag := by
  unfold sharedTag
  split
  · exact gives_abstractTag t.name
  · dsimp only
    split
    · intro hN tag htag
      cases htag
      have hunion : N (.declared (.tagUnion t.name)) := hN _ List.mem_cons_self
      exact Leaves.hasTag_ofNames (fun n hn => Or.inr ⟨t.name, hunion, h n hn⟩) fun _ hname =>
        Option.some.inj hname ▸ hunion
    · refine gives_bind (gives_forM_tag _) fun _ h => gives_pure ?_
      exact Leaves.hasTag_ofNames h fun _ => nofun

/-! ### Fields -/

theorem gives_resolveTags {fields : Fields} (h : FieldRefsIn (c.leaves N) fields) (name : String) :
    Gives c N (resolveTags name fields) (FieldRefsIn (c.leaves N)) := by
  unfold resolveTags
  split
  · refine gives_mono (gives_mapM (P := fun e => e.2.RefsIn (c.leaves N)) fun e he => ?_) fun es hes => fieldRefsIn_iff.2 hes
    split
    · exact gives_bind (gives_typeTag name) fun tag htag => gives_pure htag
    · exact gives_pure (fieldRefsIn_iff.1 h e he)
  · exact gives_pure h

theorem gives_contribute {fields : Fields} {per : TypeFields} (h : FieldRefsIn (c.leaves N) fields) (hper : per.RefsIn (c.leaves N))
    (possible : List String) (name : String) :
    Gives c N (contribute possible name fields per) (TypeFields.RefsIn (c.leaves N)) := by
  unfold contribute
  split
  · exact gives_pure hper
  · refine gives_bind (gives_resolveTags h name) fun fields' h' => gives_pure fun e he => ?_
    rcases Assoc.mem_insert he with rfl | he
    · exact Shape.fieldRefsIn_mergeFields (TypeFields.refsIn_of hper name) h'
    · exact hper e he

theorem gives_inlineFields (s : Shape) : Gives c N (inlineFields s) (· = s.fields) := by
  intro _ fields h
  cases s <;> cases h
  rfl

theorem gives_typeFields {small : List Selection → Prop} {below : GroupCompiler small} {g : Groups small}
    (hconcrete : ∀ t s, Gives c N (below.concrete t s) (Shape.RefsIn (c.leaves N)))
    (habstract : ∀ t s, Gives c N (below.abstract t s) (fun r => FieldRefsIn (c.leaves N) r.1 ∧ r.2.RefsIn (c.leaves N))) (hg : g.RefsIn c.toConfig N)
    (t : TypeDef) (possible : List String) :
    Gives c N (typeFields c.toConfig below t possible g) (TypeFields.RefsIn (c.leaves N)) := by
  unfold typeFields
  refine gives_bind (P := TypeFields.RefsIn (c.leaves N)) (gives_foldlM (fun e _ per hper => ?_) (by simp [TypeFields.RefsIn]))
    fun per hper => ?_
  · split
    · refine gives_foldlM (fun i _ per hper => ?_) hper
      refine gives_bind (hconcrete _ _) fun s hs => gives_bind (gives_inlineFields s) fun fields hfields => ?_
      exact gives_contribute (hfields ▸ Shape.refsIn_fields hs) hper _ _
    · exact gives_pure hper
  refine gives_bind (P := TypeFields.RefsIn (c.leaves N)) (gives_foldlM (fun e he per hper => ?_) hper) fun per hper => ?_
  · exact gives_foldlM (fun f hf per hper =>
      gives_contribute (refsIn_refFields (hg.concrete e he f hf) t.name) hper _ _) hper
  refine gives_bind (P := TypeFields.RefsIn (c.leaves N)) (gives_foldlM (fun f hf per hper => ?_) hper) fun per hper => ?_
  · refine gives_foldlM (fun name _ per hper => ?_) hper
    split
    · exact gives_contribute (refsIn_refFields (hg.abstract f hf) t.name) hper _ _
    · exact gives_pure hper
  refine gives_foldlM (fun i _ per hper => ?_) hper
  refine gives_bind (habstract _ _) fun r hr => ?_
  refine gives_foldlM (fun name _ per hper => ?_) hper
  split
  · exact gives_contribute (Shape.fieldRefsIn_mergeFields hr.1 (TypeFields.refsIn_of hr.2 name)) hper _ _
  · exact gives_pure hper

theorem gives_branchesFrom {base : Fields} {per : TypeFields} (hbase : FieldRefsIn (c.leaves N) base) (hper : per.RefsIn (c.leaves N))
    (t : TypeDef) {shared : Option TypeTag} (hshared : ∀ tag ∈ shared, (c.leaves N).HasTag tag) (names : List String) :
    Gives c N (branchesFrom c.toConfig t (c.schema.possible t.name) base per shared names) (ListRefsIn (c.leaves N)) := by
  have hfields := fun name => Shape.fieldRefsIn_mergeFields hbase (TypeFields.refsIn_of hper name)
  induction names generalizing shared with
  | nil => exact gives_pure trivial
  | cons name rest ih =>
    rw [branchesFrom]
    dsimp only
    split
    · exact gives_bind (ih hshared) fun more hmore => gives_pure ⟨hfields name, hmore⟩
    · split
      · refine gives_bind (gives_typeTag name) fun tag htag => ?_
        exact gives_bind (ih hshared) fun more hmore => gives_pure ⟨refsIn_retag (hfields name) htag, hmore⟩
      · have hrest : ∀ tag, (c.leaves N).HasTag tag → Gives c N (do
            let more ← branchesFrom c.toConfig t (c.schema.possible t.name) base per (some tag) rest
            return Shape.object name (retag tag (Shape.mergeFields base (per.of name))) {} :: more)
            (ListRefsIn (c.leaves N)) := by
          intro tag htag
          refine gives_bind (ih fun tag' h => Option.mem_some_iff.1 h ▸ htag) fun more hmore => ?_
          exact gives_pure ⟨refsIn_retag (hfields name) htag, hmore⟩
        cases shared with
        | none => exact gives_bind (gives_sharedTag t _ fun n hn => (List.mem_filter.1 hn).1) hrest
        | some tag => exact gives_bind (p := pure tag) (gives_pure (hshared tag rfl)) hrest

theorem gives_ofGroups {small : List Selection → Prop} {below : GroupCompiler small} {g : Groups small}
    (hconcrete : ∀ t s, Gives c N (below.concrete t s) (Shape.RefsIn (c.leaves N)))
    (habstract : ∀ t s, Gives c N (below.abstract t s) (fun r => FieldRefsIn (c.leaves N) r.1 ∧ r.2.RefsIn (c.leaves N))) (hg : g.RefsIn c.toConfig N)
    (t : TypeDef) : Gives c N (ofGroups c.toConfig below t g) (Shape.RefsIn (c.leaves N)) := by
  unfold ofGroups
  dsimp only
  split
  · rename_i s hs
    split at hs
    · exact gives_pure (refsIn_shortcut? hg hs)
    · cases hs
  · refine gives_bind (gives_typeFields hconcrete habstract hg t _) fun per hper => ?_
    refine gives_bind (gives_branchesFrom (refsIn_baseFields hg t) hper _ (by simp) _) fun branches hbranches => ?_
    exact gives_pure (refsIn_ofBranches hbranches)

theorem gives_outputShape {below : Option (TypeDef → Plan Shape)}
    (h : ∀ select ∈ below, ∀ t, Gives c N (select t) (Shape.RefsIn (c.leaves N))) (type : TypeRef) (nullable : Bool) :
    Gives c N (outputShape c.toConfig below type nullable) (Shape.RefsIn (c.leaves N)) := by
  induction type generalizing nullable with
  | nonNull t ih => exact ih false
  | list t ih => exact gives_bind (ih true) fun s hs => gives_pure hs
  | named n =>
    refine gives_bind (gives_typeOf n) fun t ht => ?_
    cases hbody : t.body with
    | scalar => exact gives_pure (Or.inl ⟨t, ht, hbody, rfl⟩)
    | enum values => exact gives_bind (gives_enumType t.name) fun _ hcode => gives_pure hcode
    | input fields => exact gives_bind (gives_inputType t.name) fun _ hcode => gives_pure hcode
    | object interfaces fields | interface interfaces fields | union members =>
      cases below with
      | none => exact gives_pure trivial
      | some select => exact gives_bind (h select rfl t) fun s hs => gives_pure ((Shape.refsIn_withNullable _ s).2 hs)

theorem gives_fieldShape {below : Option (TypeDef → Plan Shape)}
    (h : ∀ select ∈ below, ∀ t, Gives c N (select t) (Shape.RefsIn (c.leaves N))) (t : TypeDef) (head : FieldHead)
    (conditional : Bool) : Gives c N (fieldShape c.toConfig t head conditional below) (Shape.RefsIn (c.leaves N)) := by
  unfold fieldShape
  cases t.field? head.name with
  | none => exact gives_lack
  | some field =>
    exact gives_bind (gives_outputShape h field.type true) fun s hs => gives_pure ((Shape.refsIn_withNote _ s).2 hs)

end Plan

open Plan

/-- What is selected below a field, if anything is. -/
theorem gives_below {below : List Selection} {select : TypeDef → List Selection → Plan Shape} {P : Shape → Prop}
    (h : ∀ t, Gives c N (select t below) P) :
    ∀ f ∈ (if below.isEmpty then none else some (fun t => select t below)), ∀ t, Gives c N (f t) P := by
  intro f hf t
  split at hf
  · simp at hf
  · obtain rfl := Option.mem_some_iff.1 hf
    exact h t

/-- What the plan of selections gives is what the shape is computed by. -/
theorem gives_kept {t : TypeDef} {sels : List Selection} {body : Plan Shape} {P : Shape → Prop}
    (h : selection c.toConfig t sels = .keep t.name sels body .done) (hbody : Gives c N body P) :
    Gives c N (selection c.toConfig t sels) P := by
  intro hN s hs
  rw [h] at hN hs
  simp only [needs, outcome] at hN hs
  cases hb : body.outcome c with
  | error e => simp [hb] at hs
  | ok s' =>
    rw [hb] at hs hN
    cases hs
    exact hbody (fun n hn => hN n (by simpa using hn)) s hb

mutual

/-- The shape of a selection refers to what its plan asks for. -/
theorem selection_refs (hc : c.Named) (t : TypeDef) (sels : List Selection) :
    Gives c N (selection c.toConfig t sels) (Shape.RefsIn (c.leaves N)) := by
  refine gives_kept (selection.eq_1 c.toConfig t sels) ?_
  change Gives c N (if t.body.isAbstract then _ else _) _
  split
  · refine gives_bind (groups_refs hc t sels (fun _ h => h) {} ⟨trivial, by simp, by simp, by simp⟩) fun g hg => ?_
    exact gives_ofGroups (fun t' s => selection_refs hc t' s.1) (fun t' s => sharedAndOwn_refs hc t' s.1) hg t
  · split
    · exact objectSelection_refs hc t [] false sels trivial
    · exact gives_lack
termination_by (sizeOf sels, 1)
decreasing_by
  all_goals first
    | exact Prod.Lex.left _ _ s.2
    | exact Prod.Lex.right _ Nat.zero_lt_one

theorem objectSelection_refs (hc : c.Named) (t : TypeDef) (fields : Fields) (tagged : Bool) (sels : List Selection)
    (h : FieldRefsIn (c.leaves N) fields) : Gives c N (objectSelection c.toConfig t fields tagged sels) (Shape.RefsIn (c.leaves N)) := by
  match sels with
  | [] =>
    rw [objectSelection]
    unfold objectOf
    split
    · exact gives_bind (gives_typeTag t.name) fun _ htag => gives_pure (Shape.fieldRefsIn_insert h htag)
    · exact gives_pure h
  | .field head below :: rest =>
    rw [objectSelection]
    split
    · exact gives_bind (gives_typeTag t.name) fun _ htag =>
        objectSelection_refs hc t _ _ rest (refsIn_mergeField h htag)
    · refine gives_bind (gives_fieldShape (gives_below fun t' => selection_refs hc t' below) t head _) fun s hs => ?_
      exact objectSelection_refs hc t _ _ rest (refsIn_mergeField h hs)
  | .spread name directives :: rest =>
    rw [objectSelection]
    refine gives_bind (gives_spread hc name) fun f hf => ?_
    split
    · exact objectSelection_refs hc t _ _ rest (Shape.fieldRefsIn_mergeFields h (refsIn_refFields hf t.name))
    · exact objectSelection_refs hc t _ _ rest h
  | .inline condition directives below :: rest =>
    rw [objectSelection]
    split
    · refine gives_bind (selection_refs hc t below) fun s hs => gives_bind (gives_inlineFields s) fun more hmore => ?_
      exact objectSelection_refs hc t _ _ rest (Shape.fieldRefsIn_mergeFields h (hmore ▸ Shape.refsIn_fields hs))
    · exact objectSelection_refs hc t _ _ rest h
termination_by (sizeOf sels, 0)

theorem groups_refs {small : List Selection → Prop} (hc : c.Named) (t : TypeDef) (sels : List Selection)
    (h : ∀ l, sizeOf l < sizeOf sels → small l) (g : Groups small) (hg : g.RefsIn c.toConfig N) :
    Gives c N (groups c.toConfig t sels h g) (Groups.RefsIn c.toConfig N) := by
  match sels with
  | [] =>
    rw [groups]
    unfold closeGroups
    split
    · exact gives_bind (gives_abstractTag t.name) fun _ htag =>
        gives_pure ⟨Shape.fieldRefsIn_insert hg.base htag, hg.own, hg.concrete, hg.abstract⟩
    · exact gives_pure hg
  | .field head below :: rest =>
    rw [groups]
    split
    · exact gives_bind (gives_abstractTag t.name) fun _ htag =>
        groups_refs hc t rest _ _ ⟨refsIn_mergeField hg.base htag, hg.own, hg.concrete, hg.abstract⟩
    · refine gives_bind (gives_fieldShape (gives_below fun t' => selection_refs hc t' below) t head _) fun s hs => ?_
      exact groups_refs hc t rest _ _ ⟨refsIn_mergeField hg.base hs, hg.own, hg.concrete, hg.abstract⟩
  | .spread name directives :: rest =>
    rw [groups]
    refine gives_bind (gives_spread hc name) fun f hf => ?_
    split
    · refine groups_refs hc t rest _ _ ⟨hg.base, fun f' hf' => ?_, hg.concrete, hg.abstract⟩
      rcases List.mem_append.1 hf' with hf' | hf'
      · exact hg.own f' hf'
      · exact List.mem_singleton.1 hf' ▸ hf
    · refine gives_bind gives_trivial fun t' _ => ?_
      split
      · refine groups_refs hc t rest _ _ ⟨hg.base, hg.own, fun e he f' hf' => ?_, hg.abstract⟩
        rcases mem_appendAt he hf' with rfl | ⟨e', he', hf'⟩
        · exact hf
        · exact hg.concrete e' he' f' hf'
      · refine groups_refs hc t rest _ _ ⟨hg.base, hg.own, hg.concrete, fun f' hf' => ?_⟩
        rcases List.mem_append.1 hf' with hf' | hf'
        · exact hg.abstract f' hf'
        · exact List.mem_singleton.1 hf' ▸ hf
  | .inline condition directives below :: rest =>
    rw [groups]
    refine gives_bind gives_trivial fun t' _ => ?_
    split
    · exact gives_bind (groups_refs hc t below _ g hg) fun g' hg' => groups_refs hc t rest _ g' hg'
    · split
      · exact groups_refs hc t rest _ _ ⟨hg.base, hg.own, hg.concrete, hg.abstract⟩
      · exact groups_refs hc t rest _ _ ⟨hg.base, hg.own, hg.concrete, hg.abstract⟩
termination_by (sizeOf sels, 0)

theorem sharedAndOwn_refs (hc : c.Named) (t : TypeDef) (sels : List Selection) :
    Gives c N (sharedAndOwn c.toConfig t sels) (fun r => FieldRefsIn (c.leaves N) r.1 ∧ r.2.RefsIn (c.leaves N)) := by
  rw [sharedAndOwn]
  refine gives_bind (groups_refs hc t sels (fun _ h => h) {} ⟨trivial, by simp, by simp, by simp⟩) fun g hg => ?_
  refine gives_bind (gives_typeFields (fun t' s => selection_refs hc t' s.1) (fun t' s => sharedAndOwn_refs hc t' s.1)
    hg t _) fun per hper => ?_
  exact gives_pure ⟨refsIn_baseFields hg t, hper⟩
termination_by (sizeOf sels, 1)
decreasing_by
  all_goals first
    | exact Prod.Lex.left _ _ s.2
    | exact Prod.Lex.right _ Nat.zero_lt_one

end

end ResponseTypes.Compile
