import ResponseTypes.Proofs.Branch.Collected
import ResponseTypes.Proofs.GraphQL.Names
import ResponseTypes.Proofs.Plan.Kept
import ResponseTypes.Proofs.Shape.Regular

/-!
# What plans ensure

The generator keeps books while it works: of open scopes, of the fields of fragments, and of what stands under fragment
keys.  A failure of these books is `Failure.Bookkeeping`.

`Plan.Ensures D P` : whatever the answers, the plan is on the terms `D`, of what may be asked for and what may be lacking, and
its result satisfies `P`.  Shapes that are kept count as any regular shapes of their type, since one may be older than the
fragments.  Plans of selections ensure that shapes are regular, and lack nothing out of the ordinary (`selection_ensures`).
-/

namespace ResponseTypes

set_option autoImplicit false

/-- A failure of the generator's own books: a scope is open or not against expectation, the fields of a fragment are not
there, or a shape is not of the kind that it is used as. -/
def Failure.Bookkeeping : Failure → Prop
  | scopesLeftOpen _ | fieldMapMissing _ | partMissing _ => True
  | breach (.addWithoutScope _ _) _ | breach .mergeWithoutScope _ | breach .endWithoutScope _ => True
  | breach (.fieldsMissing _) _ => True
  | _ => False

/-- A failure that is neither a matter of the books nor of fragments in each other without end. -/
def Failure.Ordinary : Failure → Prop
  | endless => False
  | e => ¬e.Bookkeeping

/-- The shape is an object. -/
def Shape.IsObject : Shape → Prop
  | object _ _ _ => True
  | _ => False

namespace Compile

open GraphQL (FieldHead Selection TypeDef TypeRef)
open GraphQL.Selection (ListKeysNamed)
open Shape (Regular ListRegular FieldsRegular Suits fieldsRegular_iff listRegular_iff)

/-- What is lacking is no matter of the books. -/
def Lack.Harmless (e : Lack) : Prop :=
  ∀ file, ¬(e file).Bookkeeping

def Lack.Ordinary (e : Lack) : Prop :=
  ∀ file, (e file).Ordinary

theorem Lack.Ordinary.harmless {e : Lack} (h : e.Ordinary) : e.Harmless := by
  intro file
  have he := h file
  generalize e file = failure at he
  cases failure <;> first | exact he | exact he.elim

/-- What a plan may ask for, and what it may lack. -/
structure Terms where
  asks : Need → Prop
  lacks : Lack → Prop

/-- Everything ordinary may be lacking. -/
class Terms.Lenient (D : Terms) : Prop where
  lacks : ∀ e : Lack, e.Ordinary → D.lacks e

/-- Anything may be asked for, too. -/
class Terms.Open (D : Terms) : Prop extends D.Lenient where
  asks : ∀ n, D.asks n

/-- Anything may be asked for. -/
abbrev Need.Anything : Need → Prop := fun _ => True

/-- What is lacking may be anything that is no matter of the books. -/
def Terms.harmless (asks : Need → Prop) : Terms :=
  ⟨asks, Lack.Harmless⟩

instance (asks : Need → Prop) : (Terms.harmless asks).Lenient where
  lacks _ := Lack.Ordinary.harmless

instance : (Terms.harmless Need.Anything).Open where
  asks _ := trivial

/-- A shape that may be kept for selections on a type: regular, and an object if the type is an object type. -/
structure Config.Keepable (c : Config) (typeName : String) (s : Shape) : Prop where
  regular : s.Regular
  typed : ∃ t, c.schema.type? typeName = some t ∧ (t.body.isObject = true → s.IsObject)

variable {c : Sources} {D : Terms} {α β : Type}

namespace Plan

/-- The plan asks for types that it may ask for, lacks what it may lack, and comes to a result that satisfies `P`, if to
any. -/
def Ensures (c : Sources) (D : Terms) {α : Type} (P : α → Prop) : Plan α → Prop
  | done a => P a
  | lack e => D.lacks e
  | declare d next => D.asks (.declared d) ∧ next.Ensures c D P
  | code type next => D.asks (.code type) ∧ ∀ text, (next text).Ensures c D P
  | spread name next => ∀ f, Assoc.get? c.fragments name = some f → (next f).Ensures c D P
  | keep typeName _ body next =>
    body.Ensures c D (c.toConfig.Keepable typeName) ∧ ∀ s, c.toConfig.Keepable typeName s → (next s).Ensures c D P
  | count _ next => next.Ensures c D P

variable {P : α → Prop} {Q : β → Prop}

theorem ensures_bind {p : Plan α} {f : α → Plan β} (hp : p.Ensures c D P) (hf : ∀ a, P a → (f a).Ensures c D Q) :
    (p >>= f).Ensures c D Q := by
  change (p.bind f).Ensures c D Q
  induction p with
  | done a => exact hf a hp
  | lack e => exact hp
  | declare d next ih => exact ⟨hp.1, ih hp.2 hf⟩
  | code type next ih => exact ⟨hp.1, fun text => ih text (hp.2 text) hf⟩
  | spread name next ih => exact fun fragment h => ih fragment (hp fragment h) hf
  | keep typeName sels body next _ ih => exact ⟨hp.1, fun s hs => ih s (hp.2 s hs) hf⟩
  | count thing next ih => exact ih hp hf

theorem ensures_pure {a : α} (h : P a) : (pure a : Plan α).Ensures c D P :=
  h

theorem ensures_mono {P' : α → Prop} {p : Plan α} (hp : p.Ensures c D P) (h : ∀ a, P a → P' a) : p.Ensures c D P' := by
  induction p with
  | done a => exact h a hp
  | lack e => exact hp
  | declare d next ih => exact ⟨hp.1, ih hp.2 h⟩
  | code type next ih => exact ⟨hp.1, fun text => ih text (hp.2 text) h⟩
  | spread name next ih => exact fun fragment hf => ih fragment (hp fragment hf) h
  | keep typeName sels body next _ ih => exact ⟨hp.1, fun s hs => ih s (hp.2 s hs) h⟩
  | count thing next ih => exact ih hp h

theorem ensures_foldlM {l : List α} {f : β → α → Plan β} (hf : ∀ a ∈ l, ∀ b, Q b → (f b a).Ensures c D Q) {b : β}
    (hb : Q b) : (l.foldlM f b).Ensures c D Q := by
  induction l generalizing b with
  | nil => exact hb
  | cons a l ih =>
    obtain ⟨ha, hl⟩ := List.forall_mem_cons.1 hf
    exact ensures_bind (ha b hb) fun b' hb' => ih hl hb'

theorem ensures_mapM {l : List α} {f : α → Plan β} (hf : ∀ a ∈ l, (f a).Ensures c D Q) :
    (l.mapM f).Ensures c D fun bs => ∀ b ∈ bs, Q b := by
  have go : ∀ (l : List α) (done : List β), (∀ a ∈ l, (f a).Ensures c D Q) → (∀ b ∈ done, Q b) →
      (List.mapM.loop f l done).Ensures c D fun bs => ∀ b ∈ bs, Q b := by
    intro l
    induction l with
    | nil => exact fun done _ hdone b hb => hdone b (List.mem_reverse.1 hb)
    | cons a l ih =>
      intro done hf hdone
      obtain ⟨ha, hl⟩ := List.forall_mem_cons.1 hf
      exact ensures_bind ha fun b hb => ih (b :: done) hl (List.forall_mem_cons.2 ⟨hb, hdone⟩)
  exact go l [] hf fun _ hb => absurd hb List.not_mem_nil

theorem ensures_forM {l : List α} {f : α → Plan Unit} (hf : ∀ a ∈ l, (f a).Ensures c D fun _ => True) :
    (l.forM f).Ensures c D fun _ => True := by
  induction l with
  | nil => trivial
  | cons a l ih =>
    obtain ⟨ha, hl⟩ := List.forall_mem_cons.1 hf
    exact ensures_bind ha fun _ _ => ih hl

theorem ensures_known [D.Lenient] (name : String) : (typeOf c.toConfig name).Ensures c D (Known c.toConfig) := by
  unfold typeOf
  cases h : c.schema.type? name with
  | none => exact Terms.Lenient.lacks _ fun _ => id
  | some t => exact known_of_typeOf (by rw [typeOf, h, outcome_done])

end Plan

/-! ## Fields -/

theorem regular_refFields (f : FragmentDef) (parent : String) : FieldsRegular (refFields c.toConfig f parent) :=
  ⟨Shape.suits_ref _ _, trivial⟩

theorem regular_mergeField {fields : Fields} {key : String} {s : Shape} (h : FieldsRegular fields) (hs : Suits key s) :
    FieldsRegular (mergeField fields key s) :=
  Shape.fieldsRegular_insert h (Shape.suits_mergeInto (fun _ ha => Shape.suits_get? h ha) hs)

theorem regular_retag (tag : TypeTag) {fields : Fields} (h : FieldsRegular fields) :
    FieldsRegular (retag tag fields) := by
  rw [fieldsRegular_iff] at h ⊢
  intro e he
  obtain ⟨⟨key, s⟩, he', rfl⟩ := List.mem_map.1 he
  have hs := h _ he'
  cases s with
  | tag t n => exact Shape.suits_of_own (hs.own id) trivial
  | scalar | object | array | union | inter | ref => exact hs

/-- The fields of all types are regular. -/
def TypeFields.Regular (per : TypeFields) : Prop :=
  ∀ e ∈ per, FieldsRegular e.2

theorem TypeFields.regular_of {per : TypeFields} (h : per.Regular) (name : String) : FieldsRegular (per.of name) := by
  unfold TypeFields.of
  cases hget : Assoc.get? per name with
  | none => trivial
  | some fields => exact h _ (Assoc.mem_of_get? hget)

/-- What stands in groups is regular, and inline fragments on concrete types are on object types of the schema. -/
structure Groups.Regular {small : List Selection → Prop} (c : Config) (g : Groups small) : Prop where
  base : FieldsRegular g.base
  concrete : ∀ e ∈ g.concreteInlines, ∀ i ∈ e.2, Compile.Known c i.1 ∧ i.1.body.isObject = true ∧ ListKeysNamed i.2.1
  abstract : ∀ i ∈ g.abstractInlines, ListKeysNamed i.2.1

theorem Groups.regular_empty {small : List Selection → Prop} : ({} : Groups small).Regular c.toConfig :=
  ⟨trivial, fun _ he => absurd he List.not_mem_nil, fun _ hi => absurd hi List.not_mem_nil⟩

theorem regular_baseFields {small : List Selection → Prop} {g : Groups small} (hg : g.Regular c.toConfig) (t : TypeDef) :
    FieldsRegular (baseFields c.toConfig t g) := by
  have go : ∀ (l : List FragmentDef) (fields : Fields), FieldsRegular fields →
      FieldsRegular (l.foldl (fun fields f => Shape.mergeFields fields (refFields c.toConfig f t.name)) fields) := by
    intro l
    induction l with
    | nil => exact fun _ h => h
    | cons f l ih => exact fun fields h => ih _ (Shape.fieldsRegular_mergeFields h (regular_refFields f t.name))
  exact go _ _ hg.base

theorem regular_ofBranches {t : TypeDef} {branches : List Shape} (h : ListRegular branches) :
    (ofBranches t branches).Regular := by
  match branches, h with
  | [], _ => trivial
  | [_], h => exact h.1
  | _ :: _ :: _, h => exact h

theorem regular_shortcut? {small : List Selection → Prop} {g : Groups small} {t : TypeDef} {possible : List String}
    {s : Shape} (hs : shortcut? c.toConfig t possible g = some s) : s.Regular := by
  unfold shortcut? at hs
  split at hs
  · split at hs
    · cases hs
      trivial
    · cases hs
  · cases hs
  · split at hs
    · cases hs
    · dsimp only at hs
      split at hs
      · cases hs
      · rename_i r hr _
        cases hs
        have hmem : s ∈ (g.concreteSpreads.filter (fun e => possible.contains e.1)).flatMap
            (fun e => e.2.map (fun f => refShape c.toConfig f t.name)) := hr ▸ List.mem_singleton_self s
        obtain ⟨e, -, hs⟩ := List.mem_flatMap.1 hmem
        obtain ⟨f, -, rfl⟩ := List.mem_map.1 hs
        trivial
      · cases hs
        refine listRegular_iff.2 fun s hs => ?_
        rcases List.mem_append.1 hs with hs | hs
        · obtain ⟨e, -, hs⟩ := List.mem_flatMap.1 hs
          obtain ⟨f, -, rfl⟩ := List.mem_map.1 hs
          trivial
        · split at hs
          · exact List.mem_singleton.1 hs ▸ trivial
          · cases hs

/-! ## Selections -/

namespace Plan

variable [D.Open]

theorem ensures_typeTag (name : String) : (typeTag name).Ensures c D fun _ => True := ⟨Terms.Open.asks _, trivial⟩

theorem ensures_abstractTag (name : String) : (abstractTag name).Ensures c D fun _ => True :=
  ⟨Terms.Open.asks _, trivial⟩

theorem ensures_sharedTag (t : TypeDef) (possible targeted : List String) :
    (sharedTag t possible targeted).Ensures c D fun _ => True := by
  unfold sharedTag
  split
  · exact ensures_abstractTag t.name
  · dsimp only
    split
    · exact ⟨Terms.Open.asks _, trivial⟩
    · exact ensures_bind (ensures_forM fun _ _ => ⟨Terms.Open.asks _, trivial⟩) fun _ _ => trivial

theorem ensures_resolveTags {fields : Fields} (h : FieldsRegular fields) (name : String) :
    (resolveTags name fields).Ensures c D FieldsRegular := by
  unfold resolveTags
  split
  · refine ensures_mono (ensures_mapM (Q := fun e => Suits e.1 e.2) fun e he => ?_) fun es hes => fieldsRegular_iff.2 hes
    have hs := fieldsRegular_iff.1 h e he
    split
    · rename_i htag
      refine ensures_bind (ensures_typeTag name) fun tag _ => ensures_pure (Shape.suits_of_own (hs.own ?_) trivial)
      cases hs' : e.2 <;> rw [hs'] at htag <;> first | exact id | cases htag
    · exact ensures_pure hs
  · exact ensures_pure h

theorem ensures_contribute {fields : Fields} {per : TypeFields} (h : FieldsRegular fields) (hper : per.Regular)
    (possible : List String) (name : String) :
    (contribute possible name fields per).Ensures c D TypeFields.Regular := by
  unfold contribute
  split
  · exact ensures_pure hper
  · refine ensures_bind (ensures_resolveTags h name) fun fields' h' => ensures_pure fun e he => ?_
    rcases Assoc.mem_insert he with rfl | he
    · exact Shape.fieldsRegular_mergeFields (TypeFields.regular_of hper name) h'
    · exact hper e he

omit [D.Open] in
/-- What is merged into an object is an object, so it has fields. -/
theorem ensures_inlineFields {t : TypeDef} (ht : Known c.toConfig t) (hobject : t.body.isObject = true) {s : Shape}
    (hs : c.toConfig.Keepable t.name s) : (inlineFields s).Ensures c D FieldsRegular := by
  obtain ⟨t', ht', hs'⟩ := hs.typed
  cases ht.symm.trans ht'
  replace hs' := hs' hobject
  cases s with
  | object => exact hs.regular
  | scalar | tag | array | union | inter | ref => exact hs'.elim

theorem ensures_typeFields {small : List Selection → Prop} {below : GroupCompiler small} {g : Groups small}
    (hconcrete : ∀ t s, Known c.toConfig t → ListKeysNamed s.1 →
      (below.concrete t s).Ensures c D (c.toConfig.Keepable t.name))
    (habstract : ∀ t s, ListKeysNamed s.1 →
      (below.abstract t s).Ensures c D fun r => FieldsRegular r.1 ∧ r.2.Regular)
    (hg : g.Regular c.toConfig) (t : TypeDef) (possible : List String) :
    (typeFields c.toConfig below t possible g).Ensures c D TypeFields.Regular := by
  have hnone : TypeFields.Regular [] := fun _ he => absurd he List.not_mem_nil
  unfold typeFields
  refine ensures_bind (P := TypeFields.Regular) (ensures_foldlM (fun e he per hper => ?_) hnone) fun per hper => ?_
  · split
    · refine ensures_foldlM (fun i hi per hper => ?_) hper
      obtain ⟨ht, hobject, hnamed⟩ := hg.concrete e he i hi
      refine ensures_bind (hconcrete i.1 i.2 ht hnamed) fun s hs => ?_
      exact ensures_bind (ensures_inlineFields ht hobject hs) fun fields hfields =>
        ensures_contribute hfields hper possible e.1
    · exact ensures_pure hper
  refine ensures_bind (P := TypeFields.Regular) (ensures_foldlM (fun e _ per hper => ?_) hper) fun per hper => ?_
  · exact ensures_foldlM (fun f _ per hper => ensures_contribute (regular_refFields f t.name) hper possible e.1) hper
  refine ensures_bind (P := TypeFields.Regular) (ensures_foldlM (fun f _ per hper => ?_) hper) fun per hper => ?_
  · refine ensures_foldlM (fun name _ per hper => ?_) hper
    split
    · exact ensures_contribute (regular_refFields f t.name) hper possible name
    · exact ensures_pure hper
  refine ensures_foldlM (fun i hi per hper => ?_) hper
  refine ensures_bind (habstract i.1 i.2 (hg.abstract i hi)) fun r hr => ?_
  refine ensures_foldlM (fun name _ per hper => ?_) hper
  split
  · exact ensures_contribute (Shape.fieldsRegular_mergeFields hr.1 (TypeFields.regular_of hr.2 name)) hper possible name
  · exact ensures_pure hper

theorem ensures_branchesFrom {base : Fields} {per : TypeFields} (hbase : FieldsRegular base) (hper : per.Regular)
    (t : TypeDef) (possible : List String) (shared : Option TypeTag) (names : List String) :
    (branchesFrom c.toConfig t possible base per shared names).Ensures c D ListRegular := by
  have hfields := fun name => Shape.fieldsRegular_mergeFields hbase (TypeFields.regular_of hper name)
  induction names generalizing shared with
  | nil => exact ensures_pure trivial
  | cons name rest ih =>
    have htagged : ∀ tag shared, (do
        let more ← branchesFrom c.toConfig t possible base per shared rest
        return Shape.object name (retag tag (Shape.mergeFields base (per.of name))) {} :: more).Ensures c D
        ListRegular :=
      fun tag shared => ensures_bind (ih shared) fun more hmore => ensures_pure ⟨regular_retag tag (hfields name), hmore⟩
    rw [branchesFrom]
    dsimp only
    split
    · exact ensures_bind (ih shared) fun more hmore => ensures_pure ⟨hfields name, hmore⟩
    · split
      · exact ensures_bind (ensures_typeTag name) fun tag _ => htagged tag shared
      · cases shared with
        | none => exact ensures_bind (ensures_sharedTag t possible _) fun tag _ => htagged tag (some tag)
        | some tag => exact ensures_bind (p := pure tag) (P := fun _ => True) trivial fun tag _ => htagged tag (some tag)

theorem ensures_ofGroups {small : List Selection → Prop} {below : GroupCompiler small} {g : Groups small}
    (hconcrete : ∀ t s, Known c.toConfig t → ListKeysNamed s.1 →
      (below.concrete t s).Ensures c D (c.toConfig.Keepable t.name))
    (habstract : ∀ t s, ListKeysNamed s.1 →
      (below.abstract t s).Ensures c D fun r => FieldsRegular r.1 ∧ r.2.Regular)
    (hg : g.Regular c.toConfig) (t : TypeDef) : (ofGroups c.toConfig below t g).Ensures c D Regular := by
  unfold ofGroups
  dsimp only
  split
  · rename_i s hs
    split at hs
    · exact ensures_pure (regular_shortcut? hs)
    · cases hs
  · refine ensures_bind (ensures_typeFields hconcrete habstract hg t _) fun per hper => ?_
    refine ensures_bind (ensures_branchesFrom (regular_baseFields hg t) hper t _ none _) fun branches hbranches => ?_
    exact ensures_pure (regular_ofBranches hbranches)

theorem ensures_outputShape {below : Option (TypeDef → Plan Shape)}
    (h : ∀ select ∈ below, ∀ t, Known c.toConfig t → (select t).Ensures c D Regular) (type : TypeRef)
    (nullable : Bool) : (outputShape c.toConfig below type nullable).Ensures c D Regular := by
  induction type generalizing nullable with
  | nonNull t ih => exact ih false
  | list t ih => exact ensures_bind (ih true) fun s hs => ensures_pure hs
  | named n =>
    refine ensures_bind (ensures_known n) fun t ht => ?_
    cases t.body with
    | scalar => exact ensures_pure trivial
    | enum values => exact ⟨Terms.Open.asks _, trivial⟩
    | input fields => exact ⟨Terms.Open.asks _, trivial⟩
    | object interfaces fields | interface interfaces fields | union members =>
      cases below with
      | none => exact ensures_pure trivial
      | some select =>
        exact ensures_bind (h select rfl t ht) fun s hs => ensures_pure ((Shape.regular_withNullable _ s).2 hs)

theorem ensures_fieldShape {below : Option (TypeDef → Plan Shape)}
    (h : ∀ select ∈ below, ∀ t, Known c.toConfig t → (select t).Ensures c D Regular) (t : TypeDef)
    (head : FieldHead) (conditional : Bool) :
    (fieldShape c.toConfig t head conditional below).Ensures c D Regular := by
  unfold fieldShape
  cases t.field? head.name with
  | none => exact Terms.Lenient.lacks _ fun _ => id
  | some field =>
    exact ensures_bind (ensures_outputShape h field.type true) fun s hs => ensures_pure ((Shape.regular_withNote _ s).2 hs)

/-- The tag of a type is selected under its name. -/
theorem suits_typename (tag : TypeTag) (n : Note) : Suits typenameKey (.tag tag n) :=
  Shape.suits_of_own (by decide) trivial

theorem ensures_objectOf (t : TypeDef) {fields : Fields} (h : FieldsRegular fields) (tagged : Bool) :
    (objectOf c.toConfig t fields tagged).Ensures c D fun s => s.Regular ∧ s.IsObject := by
  unfold objectOf
  split
  · exact ensures_bind (ensures_typeTag t.name) fun tag _ =>
      ensures_pure ⟨Shape.fieldsRegular_insert h (suits_typename tag _), trivial⟩
  · exact ensures_pure ⟨h, trivial⟩

theorem ensures_closeGroups {small : List Selection → Prop} (t : TypeDef) {g : Groups small}
    (hg : g.Regular c.toConfig) : (closeGroups c.toConfig t g).Ensures c D (Groups.Regular c.toConfig) := by
  unfold closeGroups
  split
  · exact ensures_bind (ensures_abstractTag t.name) fun tag _ =>
      ensures_pure ⟨Shape.fieldsRegular_insert hg.base (suits_typename tag _), hg.concrete, hg.abstract⟩
  · exact ensures_pure hg

omit [D.Open] in
/-- What is selected below a field, if anything is. -/
theorem ensures_below {below : List Selection} {select : TypeDef → List Selection → Plan Shape}
    (h : ∀ t, Known c.toConfig t → (select t below).Ensures c D (c.toConfig.Keepable t.name)) :
    ∀ f ∈ (if below.isEmpty then none else some (fun t => select t below)), ∀ t, Known c.toConfig t →
      (f t).Ensures c D Regular := by
  intro f hf t ht
  split at hf
  · simp at hf
  · obtain rfl := Option.mem_some_iff.1 hf
    exact ensures_mono (h t ht) fun s hs => hs.regular

end Plan

open Plan

variable [D.Open]

mutual

/-- The shape of a selection is regular, and an object on an object type. -/
theorem selection_ensures (t : TypeDef) (sels : List Selection) (ht : Known c.toConfig t) (hsels : ListKeysNamed sels) :
    (selection c.toConfig t sels).Ensures c D (c.toConfig.Keepable t.name) := by
  have hkeep : ∀ body, selection c.toConfig t sels = .keep t.name sels body .done →
      body.Ensures c D (c.toConfig.Keepable t.name) →
      (selection c.toConfig t sels).Ensures c D (c.toConfig.Keepable t.name) := by
    intro body h hbody
    rw [h]
    exact ⟨hbody, fun _ hs => hs⟩
  refine hkeep _ (selection.eq_1 c.toConfig t sels) ?_
  change Plan.Ensures c D _ (if t.body.isAbstract then _ else _)
  split
  · rename_i habstract
    refine ensures_bind (groups_ensures t sels (fun _ h => h) {} hsels Groups.regular_empty) fun g hg => ?_
    refine ensures_mono (ensures_ofGroups (fun t' s ht' hs => selection_ensures t' s.1 ht' hs)
      (fun t' s hs => sharedAndOwn_ensures t' s.1 hs) hg t) fun s hs =>
        ⟨hs, t, ht, fun hobject => absurd habstract (GraphQL.TypeBody.not_isAbstract hobject)⟩
  · split
    · rename_i hobject
      exact ensures_mono (objectSelection_ensures t [] false sels ht hobject hsels trivial) fun s hs =>
        ⟨hs.1, t, ht, fun _ => hs.2⟩
    · exact Terms.Lenient.lacks _ fun _ => id
termination_by (sizeOf sels, 1)
decreasing_by
  all_goals first
    | exact Prod.Lex.left _ _ s.2
    | exact Prod.Lex.right _ Nat.zero_lt_one

theorem objectSelection_ensures (t : TypeDef) (fields : Fields) (tagged : Bool) (sels : List Selection)
    (ht : Known c.toConfig t) (hobject : t.body.isObject = true) (hsels : ListKeysNamed sels)
    (h : FieldsRegular fields) :
    (objectSelection c.toConfig t fields tagged sels).Ensures c D fun s => s.Regular ∧ s.IsObject := by
  match sels, hsels with
  | [], _ =>
    rw [objectSelection]
    exact ensures_objectOf t h tagged
  | .field head below :: rest, ⟨⟨hkey, hbelow⟩, hrest⟩ =>
    have hown := GraphQL.isFragmentKey_of_isName hkey
    rw [objectSelection]
    split
    · exact ensures_bind (ensures_typeTag t.name) fun tag _ =>
        objectSelection_ensures t _ _ rest ht hobject hrest (regular_mergeField h (Shape.suits_of_own hown trivial))
    · refine ensures_bind (ensures_fieldShape ?_ t head _) fun s hs => ?_
      · exact ensures_below fun t' ht' => selection_ensures t' below ht' hbelow
      · exact objectSelection_ensures t _ _ rest ht hobject hrest (regular_mergeField h (Shape.suits_of_own hown hs))
  | .spread name directives :: rest, ⟨_, hrest⟩ =>
    rw [objectSelection]
    intro f _
    change Plan.Ensures c D _ (if appliesTo c.toConfig f.fragment.condition t.name then _ else _)
    split
    · exact objectSelection_ensures t _ _ rest ht hobject hrest
        (Shape.fieldsRegular_mergeFields h (regular_refFields f t.name))
    · exact objectSelection_ensures t _ _ rest ht hobject hrest h
  | .inline condition directives below :: rest, ⟨hbelow, hrest⟩ =>
    rw [objectSelection]
    split
    · refine ensures_bind (selection_ensures t below ht hbelow) fun s hs => ?_
      refine ensures_bind (ensures_inlineFields ht hobject hs) fun more hmore => ?_
      exact objectSelection_ensures t _ _ rest ht hobject hrest (Shape.fieldsRegular_mergeFields h hmore)
    · exact objectSelection_ensures t _ _ rest ht hobject hrest h
termination_by (sizeOf sels, 0)

theorem groups_ensures {small : List Selection → Prop} (t : TypeDef) (sels : List Selection)
    (h : ∀ l, sizeOf l < sizeOf sels → small l) (g : Groups small) (hsels : ListKeysNamed sels)
    (hg : g.Regular c.toConfig) :
    (groups c.toConfig t sels h g).Ensures c D (Groups.Regular c.toConfig) := by
  match sels, hsels with
  | [], _ =>
    rw [groups]
    exact ensures_closeGroups t hg
  | .field head below :: rest, ⟨⟨hkey, hbelow⟩, hrest⟩ =>
    have hown := GraphQL.isFragmentKey_of_isName hkey
    rw [groups]
    split
    · exact ensures_bind (ensures_abstractTag t.name) fun tag _ =>
        groups_ensures t rest _ _ hrest
          ⟨regular_mergeField hg.base (Shape.suits_of_own hown trivial), hg.concrete, hg.abstract⟩
    · refine ensures_bind (ensures_fieldShape ?_ t head _) fun s hs => ?_
      · exact ensures_below fun t' ht' => selection_ensures t' below ht' hbelow
      · exact groups_ensures t rest _ _ hrest
          ⟨regular_mergeField hg.base (Shape.suits_of_own hown hs), hg.concrete, hg.abstract⟩
  | .spread name directives :: rest, ⟨_, hrest⟩ =>
    have hmore : ∀ g' : Groups small, g'.base = g.base → g'.concreteInlines = g.concreteInlines →
        g'.abstractInlines = g.abstractInlines →
        (groups c.toConfig t rest (small_tail h) g').Ensures c D (Groups.Regular c.toConfig) :=
      fun g' hbase hconcrete habstract => groups_ensures t rest _ g' hrest
        ⟨hbase ▸ hg.base, hconcrete ▸ hg.concrete, habstract ▸ hg.abstract⟩
    rw [groups]
    refine fun f _ => ?_
    change Plan.Ensures c D _ (if f.fragment.condition = t.name then _ else _)
    split
    · exact hmore _ rfl rfl rfl
    · refine ensures_bind (ensures_known _) fun t' _ => ?_
      split
      · exact hmore _ rfl rfl rfl
      · exact hmore _ rfl rfl rfl
  | .inline condition directives below :: rest, ⟨hbelow, hrest⟩ =>
    rw [groups]
    refine ensures_bind (ensures_known _) fun t' ht' => ?_
    split
    · exact ensures_bind (groups_ensures t below _ g hbelow hg) fun g' hg' => groups_ensures t rest _ g' hrest hg'
    · split
      · rename_i hobject
        refine groups_ensures t rest _ _ hrest ⟨hg.base, fun e he i hi => ?_, hg.abstract⟩
        rcases mem_appendAt he hi with rfl | ⟨e', he', hi⟩
        · exact ⟨ht', hobject, hbelow⟩
        · exact hg.concrete e' he' i hi
      · refine groups_ensures t rest _ _ hrest ⟨hg.base, hg.concrete, fun i hi => ?_⟩
        rcases List.mem_append.1 hi with hi | hi
        · exact hg.abstract i hi
        · exact List.mem_singleton.1 hi ▸ hbelow
termination_by (sizeOf sels, 0)

theorem sharedAndOwn_ensures (t : TypeDef) (sels : List Selection) (hsels : ListKeysNamed sels) :
    (sharedAndOwn c.toConfig t sels).Ensures c D fun r => FieldsRegular r.1 ∧ r.2.Regular := by
  rw [sharedAndOwn]
  refine ensures_bind (groups_ensures t sels (fun _ h => h) {} hsels Groups.regular_empty) fun g hg => ?_
  refine ensures_bind (ensures_typeFields (fun t' s ht' hs => selection_ensures t' s.1 ht' hs)
    (fun t' s hs => sharedAndOwn_ensures t' s.1 hs) hg t _) fun per hper => ?_
  exact ensures_pure ⟨regular_baseFields hg t, hper⟩
termination_by (sizeOf sels, 1)
decreasing_by
  all_goals first
    | exact Prod.Lex.left _ _ s.2
    | exact Prod.Lex.right _ Nat.zero_lt_one

end

/-! ## Fragments and operations -/

/-- The response keys of all fragments are names. -/
def Sources.KeysNamed (c : Sources) : Prop :=
  ∀ name f, Assoc.get? c.fragments name = some f → ListKeysNamed f.fragment.selections

theorem ensureHelpers_ensures : (ensureHelpers c.toConfig).Ensures c D fun _ => True := by
  unfold ensureHelpers
  split
  · exact ⟨Terms.Open.asks _, trivial⟩
  · trivial

theorem fragmentPlan_ensures {f : FragmentDef} (hf : ListKeysNamed f.fragment.selections) :
    (fragmentPlan c.toConfig f).Ensures c D Regular := by
  refine ensures_bind ensureHelpers_ensures fun _ _ => ensures_bind (ensures_known _) fun t ht => ?_
  exact ensures_bind (selection_ensures t _ ht hf) fun s hs => ensures_pure (Shape.regular_simplify s hs.regular)

/-- The selections of fragments come in the places of their spreads. -/
theorem inlineRoot_ensures (hendless : D.lacks fun _ => .endless) (hc : c.KeysNamed) (root : String)
    (inside : List String) (sels : List Selection) (hsels : ListKeysNamed sels) : (inlineRoot c root inside sels).Ensures c D ListKeysNamed := by
  induction inside, sels using inlineRoot.induct c with
  | case1 inside =>
    rw [inlineRoot]
    trivial
  | case2 inside name directives rest ihf ih =>
    rw [inlineRoot]
    refine fun f hf => ?_
    split
    · exact Terms.Lenient.lacks _ fun _ => id
    · rename_i f' hf'
      split
      · split
        · exact hendless
        · rename_i hi
          refine ensures_bind (ihf f' hf' hi (hc name f' hf')) fun inlined hinlined => ?_
          exact ensures_bind (ih hsels.2) fun more hmore =>
            ensures_pure (GraphQL.Selection.listKeysNamed_append hinlined hmore)
      · exact ensures_bind (ih hsels.2) fun more hmore => ensures_pure ⟨trivial, hmore⟩
  | case3 inside s rest hs ih =>
    rw [inlineRoot]
    · exact ensures_bind (ih hsels.2) fun more hmore => ensures_pure ⟨hsels.1, hmore⟩
    · exact hs

theorem operationPlan_ensures (hendless : D.lacks fun _ => .endless) (hc : c.KeysNamed) {op : GraphQL.Operation}
    {root : TypeDef} (hroot : Known c.toConfig root) (hop : ListKeysNamed op.selections) :
    (operationPlan c op root).Ensures c D Regular := by
  refine ensures_bind (inlineRoot_ensures hendless hc root.name [] op.selections hop) fun sels hsels => ?_
  exact ensures_bind (selection_ensures root sels hroot hsels) fun s hs =>
    ensures_pure (Shape.regular_simplify s hs.regular)

theorem variablesPlan_ensures (j : Job) : (variablesPlan c.toConfig j).Ensures c D fun _ => True := by
  refine ensures_bind ensureHelpers_ensures fun _ _ => ?_
  refine ensures_bind (p := .declare (.helper Script.exactName) (.done ())) (P := fun _ => True) ⟨Terms.Open.asks _, trivial⟩
    fun _ _ => ?_
  refine ensures_bind (ensures_mapM (Q := fun _ => True) fun v _ => ?_) fun _ _ => ensures_pure trivial
  unfold variableEntry
  split
  · exact Terms.Lenient.lacks _ fun _ => id
  · exact ⟨Terms.Open.asks _, fun _ => trivial⟩

/-! ## Declared types -/

/-- A declared type of another kind than input types. -/
def Need.Flat : Need → Prop
  | declared (.input _) => False
  | declared _ => True
  | _ => False

omit [D.Open] in
/-- Other types than input types ask for such types alone. -/
theorem draft_ensures_flat [D.Lenient] (hflat : ∀ n : Need, n.Flat → D.asks n) {d : Declared}
    (hd : ∀ n, d = .input n → c.schema.type? n = none) : (draft c.toConfig d).Ensures c D fun _ => True := by
  cases d with
  | helper name => exact ensures_pure trivial
  | tag name | enum name => exact ensures_bind (ensures_known name) fun _ _ => ensures_pure trivial
  | tagUnion name =>
    refine ensures_bind (ensures_forM fun _ _ => ⟨hflat _ trivial, trivial⟩) fun _ _ => ?_
    exact ensures_bind (ensures_known name) fun _ _ => ensures_pure trivial
  | input name =>
    change (inputDraft c.toConfig name).Ensures c D fun _ => True
    unfold inputDraft
    rw [hd name rfl]
    exact Terms.Lenient.lacks _ fun _ => id

theorem inputDraft_ensures (name : String) : (inputDraft c.toConfig name).Ensures c D fun _ => True := by
  unfold inputDraft
  split
  · refine ensures_bind ensureHelpers_ensures fun _ _ => ?_
    exact ensures_bind (ensures_mapM (Q := fun _ => True) fun f _ => ⟨Terms.Open.asks _, fun _ => trivial⟩) fun _ _ =>
      ensures_pure trivial
  · exact Terms.Lenient.lacks _ fun _ => id

theorem draft_ensures (d : Declared) : (draft c.toConfig d).Ensures c D fun _ => True := by
  cases d with
  | input name => exact inputDraft_ensures name
  | helper | tag | tagUnion | enum => exact draft_ensures_flat (fun _ _ => Terms.Open.asks _) fun _ h => by cases h

theorem codePlan_ensures (type : TypeRef) : (codePlan c.toConfig type).Ensures c D fun _ => True := by
  unfold codePlan
  split
  · exact ⟨Terms.Open.asks _, trivial⟩
  · exact ⟨Terms.Open.asks _, trivial⟩
  · trivial
  · exact Terms.Lenient.lacks _ fun _ => id

end Compile

end ResponseTypes
