import ResponseTypes.Proofs.Plan.Kept
import ResponseTypes.Proofs.Shape.Citing

/-!
# References in the results of plans

`Plan.Cites c R P` : whatever the answers, if the references to the fragments that are spread are in `R`, then the result of
the plan satisfies `P`.  A shape that is kept counts for its references alone; it may be older than the fragments, so nothing
else is known of it.  The shapes of selections refer to nothing but the fragments that are spread (`selection_cites`).
-/

namespace ResponseTypes.Compile

set_option autoImplicit false

open GraphQL (FieldHead Selection TypeDef TypeRef)
open Shape (FieldsCite cites_object cites_union cites_inter)

namespace Plan

/-- If the references to fragments that are spread are in `R`, the result satisfies `P`; so it is for what is kept, whatever
`R` is. -/
def Cites (c : Config) (R : FragmentRef → Prop) {α : Type} (P : α → Prop) : Plan α → Prop
  | done a => P a
  | lack _ => True
  | declare _ next => next.Cites c R P
  | code _ next => ∀ text, (next text).Cites c R P
  | spread _ next => ∀ f, (∀ parent, R (fragmentRef c f parent)) → (next f).Cites c R P
  | keep _ _ body next => (∀ R', body.Cites c R' (Shape.Cites R')) ∧ ∀ s, s.Cites R → (next s).Cites c R P
  | count _ next => next.Cites c R P

variable {c : Config} {R : FragmentRef → Prop} {α β : Type} {P : α → Prop} {Q : β → Prop}

theorem cites_bind {p : Plan α} {f : α → Plan β} (hp : p.Cites c R P) (hf : ∀ a, P a → (f a).Cites c R Q) :
    (p >>= f).Cites c R Q := by
  change (p.bind f).Cites c R Q
  induction p with
  | done a => exact hf a hp
  | lack e => trivial
  | declare d next ih => exact ih hp hf
  | code type next ih => exact fun text => ih text (hp text) hf
  | spread name next ih => exact fun fragment h => ih fragment (hp fragment h) hf
  | keep typeName sels body next _ ih => exact ⟨hp.1, fun s hs => ih s (hp.2 s hs) hf⟩
  | count thing next ih => exact ih hp hf

theorem cites_pure {a : α} (h : P a) : (pure a : Plan α).Cites c R P := h

theorem cites_foldlM {l : List α} {f : β → α → Plan β} (hf : ∀ a ∈ l, ∀ b, Q b → (f b a).Cites c R Q) {b : β} (hb : Q b) :
    (l.foldlM f b).Cites c R Q := by
  induction l generalizing b with
  | nil => exact hb
  | cons a l ih =>
    obtain ⟨ha, hl⟩ := List.forall_mem_cons.1 hf
    exact cites_bind (ha b hb) fun b' hb' => ih hl hb'

theorem cites_mapM {l : List α} {f : α → Plan β} (hf : ∀ a ∈ l, (f a).Cites c R Q) :
    (l.mapM f).Cites c R fun bs => ∀ b ∈ bs, Q b := by
  have go : ∀ (l : List α) (done : List β), (∀ a ∈ l, (f a).Cites c R Q) → (∀ b ∈ done, Q b) →
      (List.mapM.loop f l done).Cites c R fun bs => ∀ b ∈ bs, Q b := by
    intro l
    induction l with
    | nil => exact fun done _ hdone b hb => hdone b (List.mem_reverse.1 hb)
    | cons a l ih =>
      intro done hf hdone
      obtain ⟨ha, hl⟩ := List.forall_mem_cons.1 hf
      exact cites_bind ha fun b hb => ih (b :: done) hl (List.forall_mem_cons.2 ⟨hb, hdone⟩)
  exact go l [] hf fun _ hb => absurd hb List.not_mem_nil

theorem cites_forM {l : List α} {f : α → Plan Unit} (hf : ∀ a, (f a).Cites c R fun _ => True) :
    (l.forM f).Cites c R fun _ => True := by
  induction l with
  | nil => trivial
  | cons a l ih => exact cites_bind (hf a) fun _ _ => ih

/-- A plan that spreads no fragment. -/
theorem cites_of_codes {p : Plan α} (h : p.Codes) : p.Cites c R fun _ => True := by
  induction p with
  | done a | lack e => trivial
  | declare d next ih => exact ih h
  | code type next ih => exact fun text => ih text (h text)
  | spread name next => exact h.elim
  | keep typeName sels body next => exact h.elim
  | count thing next ih => exact ih h

theorem cites_typeOf (name : String) : (typeOf c name).Cites c R fun _ => True := by
  unfold typeOf
  cases c.schema.type? name <;> trivial

end Plan

open Plan

variable {c : Config} {R : FragmentRef → Prop} {small : List Selection → Prop} {fields : Fields}

/-! ## Fields -/

/-- All references to the fragment are in `R`. -/
abbrev FragmentDef.CitedIn (c : Config) (R : FragmentRef → Prop) (f : FragmentDef) : Prop :=
  ∀ parent, R (fragmentRef c f parent)

theorem fieldsCite_refFields {f : FragmentDef} (hf : f.CitedIn c R) (parent : String) :
    FieldsCite R (refFields c f parent) :=
  List.forall_mem_singleton.2 (hf parent)

theorem fieldsCite_mergeField {key : String} {s : Shape} (h : FieldsCite R fields) (hs : s.Cites R) :
    FieldsCite R (mergeField fields key s) :=
  Shape.fieldsCite_insert h (Shape.cites_mergeInto (fun _ ha => Shape.cites_get? h ha) hs)

theorem fieldsCite_retag (tag : TypeTag) (h : FieldsCite R fields) : FieldsCite R (retag tag fields) := by
  intro e he
  obtain ⟨e', he', rfl⟩ := List.mem_map.1 he
  dsimp only
  split
  · trivial
  · exact h e' he'

/-- All references in the fields of types are in `R`. -/
def TypeFields.Cite (R : FragmentRef → Prop) (per : TypeFields) : Prop :=
  ∀ e ∈ per, FieldsCite R e.2

theorem TypeFields.cite_of {per : TypeFields} (h : per.Cite R) (name : String) : FieldsCite R (per.of name) := by
  unfold TypeFields.of
  cases hget : Assoc.get? per name with
  | none => exact List.forall_mem_nil _
  | some fields => exact h _ (Assoc.mem_of_get? hget)

/-- All references in groups are in `R`. -/
structure Groups.Cite (c : Config) (R : FragmentRef → Prop) (g : Groups small) : Prop where
  base : FieldsCite R g.base
  own : ∀ f ∈ g.ownSpreads, f.CitedIn c R
  concrete : ∀ e ∈ g.concreteSpreads, ∀ f ∈ e.2, f.CitedIn c R
  abstract : ∀ f ∈ g.abstractSpreads, f.CitedIn c R

theorem Groups.cite_empty : ({} : Groups small).Cite c R :=
  ⟨List.forall_mem_nil _, List.forall_mem_nil _, List.forall_mem_nil _, List.forall_mem_nil _⟩

theorem fieldsCite_baseFields {g : Groups small} (hg : g.Cite c R) (t : TypeDef) : FieldsCite R (baseFields c t g) :=
  List.foldlRecOn (motive := FieldsCite R) g.ownSpreads _ hg.base fun _ h f hf =>
    Shape.fieldsCite_mergeFields h (fieldsCite_refFields (hg.own f hf) t.name)

theorem cites_ofBranches {t : TypeDef} {branches : List Shape} (h : ∀ s ∈ branches, s.Cites R) :
    (ofBranches t branches).Cites R := by
  unfold ofBranches
  split
  · exact cites_object.2 (List.forall_mem_nil _)
  · exact h _ List.mem_cons_self
  · exact cites_union.2 h

theorem cites_shortcut? {g : Groups small} (hg : g.Cite c R) {t : TypeDef} {possible : List String} {s : Shape}
    (hs : shortcut? c t possible g = some s) : s.Cites R := by
  unfold shortcut? at hs
  split at hs
  · rename_i own hown
    split at hs
    · cases hs
      exact hg.own own (hown ▸ List.mem_singleton_self own) t.name
    · cases hs
  · cases hs
  · split at hs
    · cases hs
    · dsimp only at hs
      have hrefs : ∀ s ∈ (g.concreteSpreads.filter (fun e => possible.contains e.1)).flatMap
          (fun e => e.2.map (fun f => refShape c f t.name)), s.Cites R := by
        intro s hs
        obtain ⟨e, he, hs⟩ := List.mem_flatMap.1 hs
        obtain ⟨f, hf, rfl⟩ := List.mem_map.1 hs
        exact hg.concrete e (List.mem_filter.1 he).1 f hf t.name
      split at hs
      · cases hs
      · rename_i r hr _
        cases hs
        exact hrefs s (hr ▸ List.mem_singleton_self s)
      · cases hs
        refine cites_union.2 (List.forall_mem_append.2 ⟨hrefs, fun s hs => ?_⟩)
        split at hs
        · exact List.mem_singleton.1 hs ▸ cites_object.2 (List.forall_mem_nil _)
        · cases hs

/-! ## Selections -/

namespace Plan

theorem cites_typeTag (name : String) : (typeTag name).Cites c R fun _ => True := trivial

theorem cites_abstractTag (name : String) : (abstractTag name).Cites c R fun _ => True := trivial

theorem cites_sharedTag (t : TypeDef) (possible targeted : List String) :
    (sharedTag t possible targeted).Cites c R fun _ => True := by
  unfold sharedTag
  split
  · exact cites_abstractTag t.name
  · dsimp only
    split
    · trivial
    · exact cites_bind (cites_forM fun _ => trivial) fun _ _ => trivial

theorem cites_resolveTags (h : FieldsCite R fields) (name : String) : (resolveTags name fields).Cites c R (FieldsCite R) := by
  unfold resolveTags
  split
  · refine cites_mapM fun e he => ?_
    split
    · exact cites_bind (cites_typeTag name) fun _ _ => trivial
    · exact cites_pure (h e he)
  · exact cites_pure h

theorem cites_contribute {per : TypeFields} (h : FieldsCite R fields) (hper : per.Cite R) (possible : List String)
    (name : String) : (contribute possible name fields per).Cites c R (TypeFields.Cite R) := by
  unfold contribute
  split
  · exact cites_pure hper
  · refine cites_bind (cites_resolveTags h name) fun fields' h' => cites_pure fun e he => ?_
    rcases Assoc.mem_insert he with rfl | he
    · exact Shape.fieldsCite_mergeFields (TypeFields.cite_of hper name) h'
    · exact hper e he

theorem cites_inlineFields {s : Shape} (h : s.Cites R) : (inlineFields s).Cites c R (FieldsCite R) := by
  cases s with
  | object => exact cites_object.1 h
  | scalar | tag | array | union | inter | ref => trivial

theorem cites_branchesFrom {base : Fields} {per : TypeFields} (hbase : FieldsCite R base) (hper : per.Cite R) (t : TypeDef)
    (possible : List String) (shared : Option TypeTag) (names : List String) :
    (branchesFrom c t possible base per shared names).Cites c R fun branches : List Shape => ∀ s ∈ branches, s.Cites R := by
  have hfields := fun name => Shape.fieldsCite_mergeFields hbase (TypeFields.cite_of hper name)
  induction names generalizing shared with
  | nil => exact List.forall_mem_nil _
  | cons name rest ih =>
    have htagged : ∀ tag shared, (do
        let more ← branchesFrom c t possible base per shared rest
        return Shape.object name (retag tag (Shape.mergeFields base (per.of name))) {} :: more).Cites c R
        fun branches : List Shape => ∀ s ∈ branches, s.Cites R :=
      fun tag shared => cites_bind (ih shared) fun more hmore =>
        cites_pure (List.forall_mem_cons.2 ⟨cites_object.2 (fieldsCite_retag tag (hfields name)), hmore⟩)
    rw [branchesFrom]
    dsimp only
    split
    · exact cites_bind (ih shared) fun more hmore =>
        cites_pure (List.forall_mem_cons.2 ⟨cites_object.2 (hfields name), hmore⟩)
    · split
      · exact cites_bind (cites_typeTag name) fun tag _ => htagged tag shared
      · cases shared with
        | none => exact cites_bind (cites_sharedTag t possible _) fun tag _ => htagged tag (some tag)
        | some tag => exact cites_bind (p := pure tag) (P := fun _ => True) trivial fun tag _ => htagged tag (some tag)

section Below

variable {below : GroupCompiler small} {g : Groups small} (hconcrete : ∀ t s, (below.concrete t s).Cites c R (Shape.Cites R))
  (habstract : ∀ t s, (below.abstract t s).Cites c R fun r => FieldsCite R r.1 ∧ r.2.Cite R) (hg : g.Cite c R)

include hconcrete habstract hg

theorem cites_typeFields (t : TypeDef) (possible : List String) :
    (typeFields c below t possible g).Cites c R (TypeFields.Cite R) := by
  unfold typeFields
  refine cites_bind (P := TypeFields.Cite R) (cites_foldlM (fun e _ per hper => ?_) (List.forall_mem_nil _)) fun per hper => ?_
  · split
    · refine cites_foldlM (fun i _ per hper => ?_) hper
      refine cites_bind (hconcrete i.1 i.2) fun s hs => cites_bind (cites_inlineFields hs) fun fields hfields => ?_
      exact cites_contribute hfields hper possible e.1
    · exact cites_pure hper
  refine cites_bind (P := TypeFields.Cite R) (cites_foldlM (fun e he per hper => ?_) hper) fun per hper => ?_
  · exact cites_foldlM (fun f hf per hper =>
      cites_contribute (fieldsCite_refFields (hg.concrete e he f hf) t.name) hper possible e.1) hper
  refine cites_bind (P := TypeFields.Cite R) (cites_foldlM (fun f hf per hper => ?_) hper) fun per hper => ?_
  · refine cites_foldlM (fun name _ per hper => ?_) hper
    split
    · exact cites_contribute (fieldsCite_refFields (hg.abstract f hf) t.name) hper possible name
    · exact cites_pure hper
  refine cites_foldlM (fun i _ per hper => cites_bind (habstract i.1 i.2) fun r hr => ?_) hper
  refine cites_foldlM (fun name _ per hper => ?_) hper
  split
  · exact cites_contribute (Shape.fieldsCite_mergeFields hr.1 (TypeFields.cite_of hr.2 name)) hper possible name
  · exact cites_pure hper

theorem cites_ofGroups (t : TypeDef) : (ofGroups c below t g).Cites c R (Shape.Cites R) := by
  unfold ofGroups
  dsimp only
  split
  · rename_i s hs
    split at hs
    · exact cites_pure (cites_shortcut? hg hs)
    · cases hs
  · refine cites_bind (cites_typeFields hconcrete habstract hg t _) fun per hper => ?_
    refine cites_bind (cites_branchesFrom (fieldsCite_baseFields hg t) hper t _ none _) fun branches hbranches => ?_
    exact cites_pure (cites_ofBranches hbranches)

end Below

theorem cites_outputShape {below : Option (TypeDef → Plan Shape)}
    (h : ∀ select ∈ below, ∀ t, (select t).Cites c R (Shape.Cites R)) (type : TypeRef) (nullable : Bool) :
    (outputShape c below type nullable).Cites c R (Shape.Cites R) := by
  induction type generalizing nullable with
  | nonNull t ih => exact ih false
  | list t ih => exact cites_bind (ih true) fun s hs => cites_pure hs
  | named n =>
    refine cites_bind (cites_typeOf n) fun t _ => ?_
    cases t.body with
    | scalar | enum | input => trivial
    | object | interface | union =>
      cases below with
      | none => exact cites_pure (cites_object.2 (List.forall_mem_nil _))
      | some select => exact cites_bind (h select rfl t) fun s hs => cites_pure ((Shape.formed_withNullable _).2 hs)

theorem cites_fieldShape {below : Option (TypeDef → Plan Shape)}
    (h : ∀ select ∈ below, ∀ t, (select t).Cites c R (Shape.Cites R)) (t : TypeDef) (head : FieldHead) (conditional : Bool) :
    (fieldShape c t head conditional below).Cites c R (Shape.Cites R) := by
  unfold fieldShape
  cases t.field? head.name with
  | none => trivial
  | some field =>
    exact cites_bind (cites_outputShape h field.type true) fun s hs => cites_pure ((Shape.formed_withNote _).2 hs)

theorem cites_objectOf (t : TypeDef) (h : FieldsCite R fields) (tagged : Bool) :
    (objectOf c t fields tagged).Cites c R (Shape.Cites R) := by
  unfold objectOf
  split
  · exact cites_bind (cites_typeTag t.name) fun tag _ => cites_pure (cites_object.2 (Shape.fieldsCite_insert h trivial))
  · exact cites_pure (cites_object.2 h)

theorem cites_closeGroups (t : TypeDef) {g : Groups small} (hg : g.Cite c R) :
    (closeGroups c t g).Cites c R (Groups.Cite c R) := by
  unfold closeGroups
  split
  · exact cites_bind (cites_abstractTag t.name) fun tag _ =>
      cites_pure { hg with base := Shape.fieldsCite_insert hg.base trivial }
  · exact cites_pure hg

/-- What is selected below a field, if anything is. -/
theorem cites_below {below : List Selection} {select : TypeDef → List Selection → Plan Shape}
    (h : ∀ t, (select t below).Cites c R (Shape.Cites R)) :
    ∀ f ∈ (if below.isEmpty then none else some (fun t => select t below)), ∀ t, (f t).Cites c R (Shape.Cites R) := by
  intro f hf t
  split at hf
  · simp at hf
  · obtain rfl := Option.mem_some_iff.1 hf
    exact h t

end Plan

mutual

/-- The shape of a selection refers to nothing but the fragments that are spread. -/
theorem selection_cites (R : FragmentRef → Prop) (t : TypeDef) (sels : List Selection) :
    (selection c t sels).Cites c R (Shape.Cites R) := by
  have hkeep : ∀ body, selection c t sels = .keep t.name sels body .done → (∀ R', body.Cites c R' (Shape.Cites R')) →
      (selection c t sels).Cites c R (Shape.Cites R) := by
    intro body h hbody
    rw [h]
    exact ⟨hbody, fun _ hs => hs⟩
  refine hkeep _ (selection.eq_1 c t sels) fun R' => ?_
  change Plan.Cites c R' _ (if t.body.isAbstract then _ else _)
  split
  · refine cites_bind (groups_cites R' t sels (fun _ h => h) {} Groups.cite_empty) fun g hg => ?_
    exact cites_ofGroups (fun t' s => selection_cites R' t' s.1) (fun t' s => sharedAndOwn_cites R' t' s.1) hg t
  · split
    · exact objectSelection_cites R' t [] false sels (List.forall_mem_nil _)
    · trivial
termination_by (sizeOf sels, 1)
decreasing_by
  all_goals first
    | exact Prod.Lex.left _ _ s.2
    | exact Prod.Lex.right _ Nat.zero_lt_one

theorem objectSelection_cites (R : FragmentRef → Prop) (t : TypeDef) (fields : Fields) (tagged : Bool) (sels : List Selection)
    (h : FieldsCite R fields) : (objectSelection c t fields tagged sels).Cites c R (Shape.Cites R) := by
  match sels with
  | [] =>
    rw [objectSelection]
    exact cites_objectOf t h tagged
  | .field head below :: rest =>
    rw [objectSelection]
    split
    · exact cites_bind (cites_typeTag t.name) fun tag _ => objectSelection_cites R t _ _ rest (fieldsCite_mergeField h trivial)
    · refine cites_bind (cites_fieldShape (cites_below fun t' => selection_cites R t' below) t head _) fun s hs => ?_
      exact objectSelection_cites R t _ _ rest (fieldsCite_mergeField h hs)
  | .spread name directives :: rest =>
    rw [objectSelection]
    intro f hf
    change Plan.Cites c R _ (if appliesTo c f.fragment.condition t.name then _ else _)
    split
    · exact objectSelection_cites R t _ _ rest (Shape.fieldsCite_mergeFields h (fieldsCite_refFields hf t.name))
    · exact objectSelection_cites R t _ _ rest h
  | .inline condition directives below :: rest =>
    rw [objectSelection]
    split
    · refine cites_bind (selection_cites R t below) fun s hs => cites_bind (cites_inlineFields hs) fun more hmore => ?_
      exact objectSelection_cites R t _ _ rest (Shape.fieldsCite_mergeFields h hmore)
    · exact objectSelection_cites R t _ _ rest h
termination_by (sizeOf sels, 0)

theorem groups_cites {small : List Selection → Prop} (R : FragmentRef → Prop) (t : TypeDef) (sels : List Selection)
    (h : ∀ l, sizeOf l < sizeOf sels → small l) (g : Groups small) (hg : g.Cite c R) :
    (groups c t sels h g).Cites c R (Groups.Cite c R) := by
  match sels with
  | [] =>
    rw [groups]
    exact cites_closeGroups t hg
  | .field head below :: rest =>
    rw [groups]
    split
    · exact cites_bind (cites_abstractTag t.name) fun tag _ =>
        groups_cites R t rest _ _ { hg with base := fieldsCite_mergeField hg.base trivial }
    · refine cites_bind (cites_fieldShape (cites_below fun t' => selection_cites R t' below) t head _) fun s hs => ?_
      exact groups_cites R t rest _ _ { hg with base := fieldsCite_mergeField hg.base hs }
  | .spread name directives :: rest =>
    rw [groups]
    intro f hf
    change Plan.Cites c R _ (if f.fragment.condition = t.name then _ else _)
    split
    · refine groups_cites R t rest _ _ { hg with own := ?_ }
      exact List.forall_mem_append.2 ⟨hg.own, List.forall_mem_singleton.2 hf⟩
    · refine cites_bind (cites_typeOf _) fun t' _ => ?_
      split
      · refine groups_cites R t rest _ _ { hg with concrete := fun e he f' hf' => ?_ }
        rcases mem_appendAt he hf' with rfl | ⟨e', he', hf'⟩
        · exact hf
        · exact hg.concrete e' he' f' hf'
      · refine groups_cites R t rest _ _ { hg with abstract := ?_ }
        exact List.forall_mem_append.2 ⟨hg.abstract, List.forall_mem_singleton.2 hf⟩
  | .inline condition directives below :: rest =>
    rw [groups]
    refine cites_bind (cites_typeOf _) fun t' _ => ?_
    split
    · exact cites_bind (groups_cites R t below _ g hg) fun g' hg' => groups_cites R t rest _ g' hg'
    · split
      · exact groups_cites R t rest _ _ { hg with }
      · exact groups_cites R t rest _ _ { hg with }
termination_by (sizeOf sels, 0)

theorem sharedAndOwn_cites (R : FragmentRef → Prop) (t : TypeDef) (sels : List Selection) :
    (sharedAndOwn c t sels).Cites c R fun r => FieldsCite R r.1 ∧ r.2.Cite R := by
  rw [sharedAndOwn]
  refine cites_bind (groups_cites R t sels (fun _ h => h) {} Groups.cite_empty) fun g hg => ?_
  refine cites_bind (cites_typeFields (fun t' s => selection_cites R t' s.1) (fun t' s => sharedAndOwn_cites R t' s.1) hg t _)
    fun per hper => ?_
  exact cites_pure ⟨fieldsCite_baseFields hg t, hper⟩
termination_by (sizeOf sels, 1)
decreasing_by
  all_goals first
    | exact Prod.Lex.left _ _ s.2
    | exact Prod.Lex.right _ Nat.zero_lt_one

end

/-! ## Fragments and operations -/

theorem ensureHelpers_cites : (ensureHelpers c).Cites c R fun _ => True := by
  unfold ensureHelpers
  split <;> trivial

theorem fragmentPlan_cites (R : FragmentRef → Prop) (f : FragmentDef) : (fragmentPlan c f).Cites c R (Shape.Cites R) := by
  refine cites_bind ensureHelpers_cites fun _ _ => cites_bind (cites_typeOf _) fun t _ => ?_
  exact cites_bind (selection_cites R t _) fun s hs => cites_pure (Shape.cites_simplify hs)

theorem inlineRoot_cites (c : Sources) (root : String) (inside : List String) (sels : List Selection) :
    (inlineRoot c root inside sels).Cites c.toConfig R fun _ => True := by
  induction inside, sels using inlineRoot.induct c with
  | case1 inside =>
    rw [inlineRoot]
    trivial
  | case2 inside name directives rest ihf ih =>
    rw [inlineRoot]
    refine fun f _ => ?_
    split
    · trivial
    · rename_i f' hf'
      split
      · split
        · trivial
        · rename_i hi
          exact cites_bind (ihf f' hf' hi) fun _ _ => cites_bind ih fun _ _ => trivial
      · exact cites_bind ih fun _ _ => trivial
  | case3 inside s rest hs ih =>
    rw [inlineRoot]
    · exact cites_bind ih fun _ _ => trivial
    · exact hs

theorem operationPlan_cites (c : Sources) (R : FragmentRef → Prop) (op : GraphQL.Operation) (root : TypeDef) :
    (operationPlan c op root).Cites c.toConfig R (Shape.Cites R) := by
  refine cites_bind (inlineRoot_cites c root.name [] op.selections) fun sels _ => ?_
  exact cites_bind (selection_cites R root sels) fun s hs => cites_pure (Shape.cites_simplify hs)

end ResponseTypes.Compile
