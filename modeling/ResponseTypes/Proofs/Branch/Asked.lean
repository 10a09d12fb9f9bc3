import ResponseTypes.Proofs.Branch.Keys
import ResponseTypes.Proofs.Exact.Selected
import ResponseTypes.Proofs.Plan.Agreeing

/-!
# Fragments that selections ask for

`seenIn c t sels` : the fragments whose spreads are come across when selections are compiled on a type.  They are those at
any depth of fields and inline fragments, but for what stands below an inline fragment that does not apply to the type on
which it is compiled (`Config.within?`).

If the plan of some selections comes out, it asks for these fragments and no others (`selection_asks`).  So does the plan of
a fragment; that of an operation, which puts fragments on its root type in the places of their spreads first, may ask for
fragments that are followed from these as well (`operationPlan_asks`).
-/

namespace ResponseTypes.Compile

set_option autoImplicit false

open GraphQL (FieldHead Selection TypeDef TypeRef)

/-! ## Spreads -/

/-- The type on which what is selected below a field of a type is compiled. -/
def Config.below? (c : Config) (t : TypeDef) (head : FieldHead) : Option TypeDef :=
  if head.name = typenameKey then none
  else ((t.field? head.name).bind fun field => c.schema.type? field.type.base).filter fun t' =>
    t'.body.isObject || t'.body.isAbstract

/-- The type on which an inline fragment among selections on a type is compiled, if it applies: an object type stays itself, an
abstract type gives way to the type of the condition, which must be one of its possible types if it is an object type. -/
def Config.within? (c : Config) (t : TypeDef) (condition : Option String) : Option TypeDef :=
  let name := condition.getD t.name
  if t.body.isObject then if appliesTo c name t.name then some t else none
  else if name = t.name then some t
  else (c.schema.type? name).filter fun t' => !t'.body.isObject || (c.schema.possible t.name).contains name

mutual

/-- The fragments whose spreads are come across in a selection on a type. -/
def selectionSeen (c : Config) (t : TypeDef) : Selection → List String
  | .field head below =>
    match c.below? t head with
    | some t' => seenIn c t' below
    | none => []
  | .spread name _ => [name]
  | .inline condition _ below =>
    match c.within? t condition with
    | some t' => seenIn c t' below
    | none => []

/-- The fragments whose spreads are come across in selections on a type. -/
def seenIn (c : Config) (t : TypeDef) : List Selection → List String
  | [] => []
  | s :: rest => selectionSeen c t s ++ seenIn c t rest

end

variable {c : Sources} {name name' : String} {t : TypeDef} {α β : Type}

theorem mem_seenIn_cons {s : Selection} {rest : List Selection} :
    name ∈ seenIn c.toConfig t (s :: rest) ↔ name ∈ selectionSeen c.toConfig t s ∨ name ∈ seenIn c.toConfig t rest := by
  rw [seenIn, List.mem_append]

theorem mem_seenIn_spread {directives : List GraphQL.Directive} {rest : List Selection} :
    name ∈ seenIn c.toConfig t (.spread name' directives :: rest) ↔ name = name' ∨ name ∈ seenIn c.toConfig t rest := by
  rw [mem_seenIn_cons, selectionSeen, List.mem_singleton]

theorem mem_seenIn_append {sels more : List Selection} :
    name ∈ seenIn c.toConfig t (sels ++ more) ↔ name ∈ seenIn c.toConfig t sels ∨ name ∈ seenIn c.toConfig t more := by
  induction sels with
  | nil => simp [seenIn]
  | cons s rest ih => rw [List.cons_append, mem_seenIn_cons, ih, mem_seenIn_cons, or_assoc]

theorem mem_selectionSeen_field {head : FieldHead} {below : List Selection} :
    name ∈ selectionSeen c.toConfig t (.field head below) ↔
      ∃ t' ∈ c.below? t head, name ∈ seenIn c.toConfig t' below := by
  rw [selectionSeen]
  cases c.below? t head <;> simp

theorem mem_selectionSeen_inline {condition : Option String} {directives : List GraphQL.Directive} {below : List Selection} :
    name ∈ selectionSeen c.toConfig t (.inline condition directives below) ↔
      ∃ t' ∈ c.within? t condition, name ∈ seenIn c.toConfig t' below := by
  rw [selectionSeen]
  cases c.within? t condition <;> simp

/-! ### Spreads in the text -/

mutual

/-- The fragments whose spreads are passed over in a selection on a type. -/
def selectionMissed (c : Config) (t : TypeDef) : Selection → List String
  | .field head below =>
    match c.below? t head with
    | some t' => missedIn c t' below
    | none => spreadsInAll below
  | .spread _ _ => []
  | .inline condition _ below =>
    match c.within? t condition with
    | some t' => missedIn c t' below
    | none => spreadsInAll below

/-- The fragments whose spreads are passed over in selections on a type. -/
def missedIn (c : Config) (t : TypeDef) : List Selection → List String
  | [] => []
  | s :: rest => selectionMissed c t s ++ missedIn c t rest

end

mutual

/-- What is spread in a selection is come across or passed over. -/
theorem mem_spreadsIn (t : TypeDef) (s : Selection) : name ∈ spreadsIn s ↔
    name ∈ selectionSeen c.toConfig t s ∨ name ∈ selectionMissed c.toConfig t s := by
  cases s with
  | field head below =>
    rw [spreadsIn, selectionSeen, selectionMissed]
    cases c.below? t head with
    | none => simp
    | some t' => exact mem_spreadsInAll t' below
  | spread name' directives => simp [spreadsIn, selectionSeen, selectionMissed]
  | inline condition directives below =>
    rw [spreadsIn, selectionSeen, selectionMissed]
    cases c.within? t condition with
    | none => simp
    | some t' => exact mem_spreadsInAll t' below

theorem mem_spreadsInAll (t : TypeDef) (sels : List Selection) : name ∈ spreadsInAll sels ↔
    name ∈ seenIn c.toConfig t sels ∨ name ∈ missedIn c.toConfig t sels := by
  cases sels with
  | nil => simp [spreadsInAll, seenIn, missedIn]
  | cons s rest =>
    rw [spreadsInAll, seenIn, missedIn]
    simp only [List.mem_append]
    rw [mem_spreadsIn t s, mem_spreadsInAll t rest]
    exact or_or_or_comm

end

/-! ## What plans ask for -/

namespace Plan

/-- If the plan comes out, its result and whether it asked for the fragment are in the relation. -/
def Asks (c : Sources) (name : String) (p : Plan α) (R : α → Prop → Prop) : Prop :=
  ∀ a, p.outcome c = .ok a → R a (.fragment name ∈ p.needs c)

variable {p : Plan α} {f : α → Plan β} {R R' : α → Prop → Prop} {Q : β → Prop → Prop}

theorem asks_mono (h : p.Asks c name R) (hR : ∀ a asked, R a asked → R' a asked) : p.Asks c name R' :=
  fun a ha => hR a _ (h a ha)

theorem asks_bind (hp : p.Asks c name R)
    (hf : ∀ a asked, R a asked → (f a).Asks c name fun b asked' => Q b (asked ∨ asked')) : (p >>= f).Asks c name Q := by
  intro b hb
  obtain ⟨a, ha, hb⟩ := outcome_bind_ok hb
  have hasks := hf a _ (hp a ha) b hb
  rwa [needs_bind, ha, List.mem_append]

theorem asks_pure {a : α} (h : R a False) : (pure a : Plan α).Asks c name R := by
  intro b hb
  cases hb
  rwa [needs_pure, List.mem_nil_iff]

theorem asks_lack {e : Lack} : (lack e : Plan α).Asks c name R :=
  fun _ h => nomatch h

theorem asks_count {thing : String} (h : p.Asks c name R) : (count thing p).Asks c name R :=
  h

/-- A plan that spreads no fragment asks for none. -/
theorem asks_of_codes (h : p.Codes) : p.Asks c name fun a asked => p.outcome c = .ok a ∧ ¬asked := by
  refine fun a ha => ⟨ha, fun hasked => ?_⟩
  rw [← mem_fragmentsIn, fragmentsIn_of_codes h] at hasked
  cases hasked

/-- What spreads no fragment may come first. -/
theorem asks_after (hp : p.Codes) (hf : ∀ a, p.outcome c = .ok a → (f a).Asks c name Q) : (p >>= f).Asks c name Q := by
  refine asks_bind (asks_of_codes hp) fun a asked ⟨ha, hasked⟩ => asks_mono (hf a ha) fun b asked' h => ?_
  rwa [eq_false hasked, false_or]

/-- What spreads no fragment may come last. -/
theorem asks_before {A : Prop} (hp : p.Asks c name fun _ asked => (asked ↔ A)) (hf : ∀ a, (f a).Codes) :
    (p >>= f).Asks c name fun _ asked => (asked ↔ A) := by
  refine asks_bind hp fun a asked hasked => asks_mono (asks_of_codes (hf a)) fun b asked' ⟨_, hasked'⟩ => ?_
  rwa [eq_false hasked', or_false]

theorem asks_none (h : p.Codes) {A : Prop} (hA : ¬A) : p.Asks c name fun _ asked => (asked ↔ A) :=
  asks_mono (asks_of_codes h) fun _ _ h => iff_of_false h.2 hA

/-- A loop asks for what one of its steps asks for. -/
theorem asks_foldlM {A : α → Prop} {l : List α} {step : β → α → Plan β}
    (h : ∀ a ∈ l, ∀ b, (step b a).Asks c name fun _ asked => (asked ↔ A a)) (b : β) :
    (l.foldlM step b).Asks c name fun _ asked => (asked ↔ ∃ a ∈ l, A a) := by
  induction l generalizing b with
  | nil => exact asks_pure (by simp)
  | cons a l ih =>
    refine asks_bind (h a List.mem_cons_self b) fun b' asked hasked => ?_
    refine asks_mono (ih (fun a' ha' => h a' (List.mem_cons_of_mem a ha')) b') fun _ asked' hasked' => ?_
    rw [hasked, hasked', List.exists_mem_cons_iff]

theorem codes_foldlM {l : List α} {step : β → α → Plan β} (h : ∀ a ∈ l, ∀ b, (step b a).Codes) (b : β) :
    (l.foldlM step b).Codes := by
  induction l generalizing b with
  | nil => trivial
  | cons a l ih =>
    exact codes_bind (h a List.mem_cons_self b) fun b' => ih (fun a' ha' => h a' (List.mem_cons_of_mem a ha')) b'

end Plan

open Plan (Asks asks_after asks_before asks_bind asks_foldlM asks_lack asks_mono asks_none asks_of_codes asks_pure codes_bind
  codes_foldlM codes_forM codes_mapM codes_typeOf)

/-! ### Plans that spread nothing -/

theorem codes_typeTag (name : String) : (typeTag name).Codes := trivial

theorem codes_abstractTag (name : String) : (abstractTag name).Codes := trivial

theorem codes_objectOf (t : TypeDef) (fields : Fields) (tagged : Bool) : (objectOf c.toConfig t fields tagged).Codes := by
  unfold objectOf
  split
  · exact codes_bind (codes_typeTag _) fun _ => trivial
  · trivial

theorem codes_inlineFields (s : Shape) : (inlineFields s).Codes := by
  cases s <;> trivial

theorem codes_contribute (possible : List String) (name : String) (fields : Fields) (per : TypeFields) :
    (contribute possible name fields per).Codes := by
  unfold contribute resolveTags
  split
  · trivial
  · refine codes_bind ?_ fun _ => trivial
    split
    · refine codes_mapM fun e _ => ?_
      split
      · exact codes_bind (codes_typeTag _) fun _ => trivial
      · trivial
    · trivial

theorem codes_possible (possible : List String) (condition : String) (fields : String → Fields) (per : TypeFields) :
    (possible.foldlM (fun per name =>
      if c.schema.implements name condition then contribute possible name (fields name) per else pure per) per).Codes := by
  refine codes_foldlM (fun name _ per => ?_) per
  split
  · exact codes_contribute _ _ _ _
  · trivial

theorem codes_sharedTag (t : TypeDef) (possible targeted : List String) : (sharedTag t possible targeted).Codes := by
  unfold sharedTag
  dsimp only
  split
  · exact codes_abstractTag _
  · split
    · trivial
    · exact codes_bind (codes_forM fun _ _ => trivial) fun _ => trivial

theorem codes_branchesFrom (t : TypeDef) (possible : List String) (base : Fields) (per : TypeFields) (shared : Option TypeTag)
    (names : List String) : (branchesFrom c.toConfig t possible base per shared names).Codes := by
  induction names generalizing shared with
  | nil => trivial
  | cons name rest ih =>
    rw [branchesFrom]
    dsimp only
    split
    · exact codes_bind (ih shared) fun _ => trivial
    · split
      · exact codes_bind (codes_typeTag _) fun _ => codes_bind (ih shared) fun _ => trivial
      · cases shared with
        | none => exact codes_bind (codes_sharedTag _ _ _) fun _ => codes_bind (ih _) fun _ => trivial
        | some tag =>
          exact codes_bind (show (pure tag : Plan TypeTag).Codes from trivial) fun _ => codes_bind (ih _) fun _ => trivial

/-! ## What selections ask for -/

theorem asks_next {next : FragmentDef → Plan α} {R : α → Prop → Prop} {f : FragmentDef}
    (hf : Assoc.get? c.fragments name' = some f) (h : (next f).Asks c name fun a asked => R a (name = name' ∨ asked)) :
    Asks c name (.spread name' next) R := by
  intro a ha
  simp only [Plan.outcome, hf] at ha
  have hasks := h a ha
  rwa [Plan.needs, hf, List.mem_cons, Need.fragment.injEq]

theorem asks_spread : Asks c name (.spread name' .done) fun f asked =>
    Assoc.get? c.fragments name' = some f ∧ (asked ↔ name = name') := by
  intro f hf
  cases hname : Assoc.get? c.fragments name' with
  | none => simp [Plan.outcome, hname] at hf
  | some f' =>
    simp only [Plan.outcome, hname, Except.ok.injEq] at hf
    exact ⟨congrArg some hf, by simp [Plan.needs, hname]⟩

theorem outputShape_asks {below : Option (TypeDef → Plan Shape)} {A : TypeDef → Prop}
    (h : ∀ select ∈ below, ∀ t, (select t).Asks c name fun _ asked => (asked ↔ A t)) (type : TypeRef) (nullable : Bool) :
    (outputShape c.toConfig below type nullable).Asks c name fun _ asked => (asked ↔ below.isSome = true ∧
      ∃ t ∈ c.schema.type? type.base, (t.body.isObject || t.body.isAbstract) = true ∧ A t) := by
  induction type generalizing nullable with
  | nonNull type ih => exact ih false
  | list type ih => exact asks_before (ih true) fun _ => trivial
  | named n =>
    refine asks_after (codes_typeOf n) fun t ht => ?_
    have htype : ∀ t', t' ∈ c.schema.type? (TypeRef.named n).base ↔ t' = t := fun t' => by
      rw [show (TypeRef.named n).base = n from rfl, Plan.outcome_typeOf ht, Option.mem_some_iff, eq_comm]
    simp only [htype, exists_eq_left]
    cases hbody : t.body with
    | scalar | enum values | input fields => exact asks_none (by trivial) fun h => Bool.false_ne_true h.2.1
    | object interfaces fields | interface interfaces fields | union members =>
      cases below with
      | none => exact asks_none (by trivial) fun h => Bool.false_ne_true h.1
      | some select =>
        refine asks_mono (asks_before (h select rfl t) fun _ => trivial) fun _ asked hasked => ?_
        rw [hasked]
        simp [GraphQL.TypeBody.isObject, GraphQL.TypeBody.isAbstract]

/-- The plan of selections asks for what its body asks for. -/
theorem asks_kept {sels : List Selection} {body : Plan Shape} {R : Shape → Prop → Prop}
    (h : selection c.toConfig t sels = .keep t.name sels body .done) (hbody : body.Asks c name R) :
    (selection c.toConfig t sels).Asks c name R := by
  intro s hs
  rw [h] at hs ⊢
  simp only [Plan.needs, Plan.outcome] at hs ⊢
  cases hb : body.outcome c with
  | error e => simp [hb] at hs
  | ok s' =>
    rw [hb] at hs
    cases hs
    simpa using hbody s hb

/-- A field asks for what is spread below it. -/
theorem fieldShape_asks {head : FieldHead} {below : List Selection} (hname : head.name ≠ typenameKey) (conditional : Bool)
    (h : ∀ t', (selection c.toConfig t' below).Asks c name fun _ asked => (asked ↔ name ∈ seenIn c.toConfig t' below)) :
    (fieldShape c.toConfig t head conditional (if below.isEmpty then none else some fun t' => selection c.toConfig t' below)).Asks
      c name fun _ asked => (asked ↔ name ∈ selectionSeen c.toConfig t (.field head below)) := by
  unfold fieldShape
  cases hfield : t.field? head.name with
  | none => exact asks_lack
  | some field =>
    have hbelow : ∀ select, select ∈ (if below.isEmpty then none else some fun t' => selection c.toConfig t' below) →
        ∀ t', (select t').Asks c name fun _ asked => (asked ↔ name ∈ seenIn c.toConfig t' below) := by
      intro select hselect
      split at hselect
      · cases hselect
      · cases hselect
        exact h
    refine asks_mono (asks_before (outputShape_asks hbelow field.type true) fun _ => trivial) fun _ asked hasked => ?_
    rw [hasked, mem_selectionSeen_field, Config.below?, if_neg hname, hfield, Option.bind_some]
    cases below with
    | nil => simp [seenIn]
    | cons s rest => simp [Option.filter_eq_some_iff, and_assoc]

/-- Groups hold selections, to be compiled later, in which the fragment is spread. -/
def Groups.Pends {small : List Selection → Prop} (c : Config) (t : TypeDef) (g : Groups small) (name : String) : Prop :=
  (∃ n, (c.schema.possible t.name).contains n = true ∧ ∃ i, At g.concreteInlines n i ∧ name ∈ seenIn c i.1 i.2.1) ∨
    ∃ i ∈ g.abstractInlines, name ∈ seenIn c i.1 i.2.1

theorem typeFields_asks {small : List Selection → Prop} {below : GroupCompiler small} {g : Groups small}
    (hconcrete : ∀ t s, (below.concrete t s).Asks c name fun _ asked => (asked ↔ name ∈ seenIn c.toConfig t s.1))
    (habstract : ∀ i ∈ g.abstractInlines, ∀ s, (below.abstract i.1 s).Asks c name fun _ asked =>
      (asked ↔ name ∈ seenIn c.toConfig i.1 s.1)) (t : TypeDef) :
    (typeFields c.toConfig below t (c.schema.possible t.name) g).Asks c name fun _ asked =>
      (asked ↔ g.Pends c.toConfig t name) := by
  unfold typeFields
  refine asks_bind (asks_foldlM (A := fun e => (c.schema.possible t.name).contains e.1 = true ∧
    ∃ i ∈ e.2, name ∈ seenIn c.toConfig i.1 i.2.1) (fun e _ per => ?_) _) fun per asked hasked => ?_
  · split
    · rename_i hpossible
      refine asks_mono (asks_foldlM (A := fun i => name ∈ seenIn c.toConfig i.1 i.2.1) (fun i _ per => ?_) per)
        fun _ _ h => h.trans (and_iff_right hpossible).symm
      refine asks_before (hconcrete i.1 i.2) fun s => codes_bind (codes_inlineFields s) fun _ => codes_contribute _ _ _ _
    · rename_i hpossible
      exact asks_pure (iff_of_false id fun h => hpossible h.1)
  refine asks_after (codes_foldlM (fun e _ per => codes_foldlM (fun f _ per => codes_contribute _ _ _ _) per) per) fun per _ => ?_
  refine asks_after (codes_foldlM (fun f _ per => codes_possible _ _ _ per) per) fun per _ => ?_
  refine asks_mono (asks_foldlM (A := fun i => name ∈ seenIn c.toConfig i.1 i.2.1) (fun i hi per => ?_) per)
    fun _ asked' hasked' => ?_
  · exact asks_before (habstract i hi i.2) fun r => codes_possible _ _ (fun n => Shape.mergeFields r.1 (r.2.of n)) per
  · rw [hasked, hasked', Groups.Pends]
    refine or_congr_left ⟨?_, ?_⟩
    · rintro ⟨e, he, hpossible, i, hi, hname⟩
      exact ⟨e.1, hpossible, i, ⟨e, he, rfl, hi⟩, hname⟩
    · rintro ⟨_, hpossible, i, ⟨e, he, rfl, hi⟩, hname⟩
      exact ⟨e, he, hpossible, i, hi, hname⟩

/-- Selections that take a short cut leave nothing to be compiled later. -/
theorem ofGroups_asks {small : List Selection → Prop} {below : GroupCompiler small} {g : Groups small}
    (hconcrete : ∀ t s, (below.concrete t s).Asks c name fun _ asked => (asked ↔ name ∈ seenIn c.toConfig t s.1))
    (habstract : ∀ i ∈ g.abstractInlines, ∀ s, (below.abstract i.1 s).Asks c name fun _ asked =>
      (asked ↔ name ∈ seenIn c.toConfig i.1 s.1)) (t : TypeDef) :
    (ofGroups c.toConfig below t g).Asks c name fun _ asked => (asked ↔ g.Pends c.toConfig t name) := by
  unfold ofGroups
  dsimp only
  split
  · rename_i s hs
    refine asks_none (by trivial) ?_
    split at hs
    · rename_i hspreads
      simp only [Bool.and_eq_true, List.isEmpty_iff] at hspreads
      rintro (⟨n, -, i, ⟨e, he, -⟩, -⟩ | ⟨i, hi, -⟩)
      · rw [hspreads.1.2] at he
        cases he
      · rw [hspreads.2] at hi
        cases hi
    · cases hs
  · refine asks_before (typeFields_asks hconcrete habstract t) fun per => ?_
    exact codes_bind (codes_branchesFrom _ _ _ _ _ _) fun _ => trivial

section Pends

variable {small : List Selection → Prop} {g : Groups small}

theorem pends_empty : ¬Groups.Pends c.toConfig t ({} : Groups small) name := by
  simp [Groups.Pends, At]

theorem pends_concreteInline {condition : String} {i : TypeDef × SmallSelections small} :
    Groups.Pends c.toConfig t { g with concreteInlines := appendAt g.concreteInlines condition i } name ↔
      g.Pends c.toConfig t name ∨
        (c.schema.possible t.name).contains condition = true ∧ name ∈ seenIn c.toConfig i.1 i.2.1 := by
  simp only [Groups.Pends, at_appendAt]
  constructor
  · rintro (⟨n, hn, j, hj | ⟨rfl, rfl⟩, hname⟩ | h)
    · exact Or.inl (Or.inl ⟨n, hn, j, hj, hname⟩)
    · exact Or.inr ⟨hn, hname⟩
    · exact Or.inl (Or.inr h)
  · rintro ((⟨n, hn, j, hj, hname⟩ | h) | ⟨hn, hname⟩)
    · exact Or.inl ⟨n, hn, j, Or.inl hj, hname⟩
    · exact Or.inr h
    · exact Or.inl ⟨condition, hn, i, Or.inr ⟨rfl, rfl⟩, hname⟩

theorem pends_abstractInline {i : TypeDef × SmallSelections small} :
    Groups.Pends c.toConfig t { g with abstractInlines := g.abstractInlines ++ [i] } name ↔
      g.Pends c.toConfig t name ∨ name ∈ seenIn c.toConfig i.1 i.2.1 := by
  simp only [Groups.Pends, List.mem_append, List.mem_singleton, or_and_right, exists_or, exists_eq_left, or_assoc]

end Pends

/-- Inline fragments on object types stand apart from the others. -/
def Groups.Apart {small : List Selection → Prop} (g : Groups small) : Prop :=
  ∀ i ∈ g.abstractInlines, ¬i.1.body.isObject = true

mutual

/-- Selections ask for the fragments that are spread in them. -/
theorem selection_asks (name : String) (t : TypeDef) (sels : List Selection) :
    (selection c.toConfig t sels).Asks c name fun _ asked => (asked ↔ name ∈ seenIn c.toConfig t sels) := by
  refine asks_kept (selection.eq_1 c.toConfig t sels) (Plan.asks_count ?_)
  split
  · rename_i habstract
    have hobject : ¬t.body.isObject = true := fun hobject => GraphQL.TypeBody.not_isAbstract hobject habstract
    refine asks_bind (groups_asks name t hobject sels (fun _ h => h) {} (List.forall_mem_nil _))
      fun g asked ⟨hapart, hasked⟩ => ?_
    refine asks_mono (ofGroups_asks (fun t' s => selection_asks name t' s.1)
      (fun i hi s => sharedAndOwn_asks name i.1 (hapart i hi) s.1) t) fun _ asked' hasked' => ?_
    rw [hasked', hasked]
    exact or_iff_right pends_empty
  · split
    · rename_i hobject
      exact objectSelection_asks name t hobject [] false sels
    · exact asks_lack
termination_by (sizeOf sels, 1)
decreasing_by
  all_goals first
    | exact Prod.Lex.left _ _ s.2
    | exact Prod.Lex.right _ Nat.zero_lt_one

theorem objectSelection_asks (name : String) (t : TypeDef) (hobject : t.body.isObject = true) (fields : Fields)
    (tagged : Bool) (sels : List Selection) : (objectSelection c.toConfig t fields tagged sels).Asks c name fun _ asked =>
      (asked ↔ name ∈ seenIn c.toConfig t sels) := by
  match sels with
  | [] =>
    rw [objectSelection]
    exact asks_none (codes_objectOf t fields tagged) (by simp [seenIn])
  | .field head below :: rest =>
    rw [objectSelection]
    split
    · rename_i hname
      refine asks_after (codes_typeTag _) fun _ _ => asks_mono (objectSelection_asks name t hobject _ _ rest) fun _ asked h => ?_
      rw [h, mem_seenIn_cons, mem_selectionSeen_field, Config.below?, if_pos hname]
      simp
    · rename_i hname
      refine asks_bind (fieldShape_asks hname _ fun t' => selection_asks name t' below) fun s asked hasked => ?_
      refine asks_mono (objectSelection_asks name t hobject _ _ rest) fun _ asked' hasked' => ?_
      rw [hasked, hasked', mem_seenIn_cons]
  | .spread name' directives :: rest =>
    rw [objectSelection]
    refine asks_bind asks_spread fun f asked ⟨_, hasked⟩ => ?_
    have hrest : ∀ fields, Asks c name (objectSelection c.toConfig t fields tagged rest) fun _ asked' =>
        (asked ∨ asked' ↔ name ∈ seenIn c.toConfig t (.spread name' directives :: rest)) := by
      refine fun fields => asks_mono (objectSelection_asks name t hobject fields tagged rest) fun _ asked' hasked' => ?_
      rw [hasked, hasked', mem_seenIn_spread]
    split <;> exact hrest _
  | .inline condition directives below :: rest =>
    rw [objectSelection]
    split
    · rename_i happlies
      refine asks_bind (selection_asks name t below) fun s asked hasked => asks_after (codes_inlineFields s) fun more _ => ?_
      refine asks_mono (objectSelection_asks name t hobject _ tagged rest) fun _ asked' hasked' => ?_
      rw [hasked, hasked', mem_seenIn_cons, mem_selectionSeen_inline, Config.within?]
      simp [hobject, happlies]
    · rename_i happlies
      refine asks_mono (objectSelection_asks name t hobject _ tagged rest) fun _ asked hasked => ?_
      rw [hasked, mem_seenIn_cons, mem_selectionSeen_inline, Config.within?]
      simp [hobject, happlies]
termination_by (sizeOf sels, 0)

/-- Sorting selections into groups asks for a fragment or leaves it to be asked for later. -/
theorem groups_asks (name : String) {small : List Selection → Prop} (t : TypeDef) (hobject : ¬t.body.isObject = true)
    (sels : List Selection) (h : ∀ l, sizeOf l < sizeOf sels → small l) (g : Groups small) (hg : g.Apart) :
    (groups c.toConfig t sels h g).Asks c name fun g' asked => g'.Apart ∧
      (asked ∨ g'.Pends c.toConfig t name ↔ g.Pends c.toConfig t name ∨ name ∈ seenIn c.toConfig t sels) := by
  match sels with
  | [] =>
    rw [groups]
    unfold closeGroups
    split
    · exact asks_after (codes_abstractTag _) fun _ _ => asks_pure ⟨hg, by simp [seenIn, Groups.Pends]⟩
    · exact asks_pure ⟨hg, by simp [seenIn]⟩
  | .field head below :: rest =>
    rw [groups]
    split
    · rename_i hname
      refine asks_after (codes_abstractTag _) fun _ _ =>
        asks_mono (groups_asks name t hobject rest _ _ hg) fun g' asked ⟨hapart, hasked⟩ => ⟨hapart, ?_⟩
      rw [hasked, mem_seenIn_cons, mem_selectionSeen_field, Config.below?, if_pos hname]
      simp [Groups.Pends]
    · rename_i hname
      refine asks_bind (fieldShape_asks hname _ fun t' => selection_asks name t' below) fun s asked hasked => ?_
      refine asks_mono (groups_asks name t hobject rest _ _ hg) fun g' asked' ⟨hapart, hasked'⟩ => ⟨hapart, ?_⟩
      rw [or_assoc, hasked', hasked, mem_seenIn_cons]
      exact or_left_comm
  | .spread name' directives :: rest =>
    rw [groups]
    refine asks_bind asks_spread fun f asked ⟨_, hasked⟩ => ?_
    have hrest : ∀ g' : Groups small, g'.Apart → (g'.Pends c.toConfig t name ↔ g.Pends c.toConfig t name) →
        Asks c name (groups c.toConfig t rest (small_tail h) g') fun g'' asked' => g''.Apart ∧
          ((asked ∨ asked') ∨ g''.Pends c.toConfig t name ↔
            g.Pends c.toConfig t name ∨ name ∈ seenIn c.toConfig t (.spread name' directives :: rest)) := by
      refine fun g' hg' hpends =>
        asks_mono (groups_asks name t hobject rest _ g' hg') fun g'' asked' ⟨hapart, hasked'⟩ => ⟨hapart, ?_⟩
      rw [or_assoc, hasked', hasked, hpends, mem_seenIn_spread]
      exact or_left_comm
    split
    · exact hrest _ hg Iff.rfl
    · refine asks_after (codes_typeOf _) fun t' _ => ?_
      split
      · exact hrest _ hg Iff.rfl
      · exact hrest _ hg Iff.rfl
  | .inline condition directives below :: rest =>
    rw [groups]
    refine asks_after (codes_typeOf _) fun t' ht' => ?_
    have htype := Plan.outcome_typeOf ht'
    have hwithin : name ∈ selectionSeen c.toConfig t (.inline condition directives below) ↔
        ∃ t' ∈ c.within? t condition, name ∈ seenIn c.toConfig t' below := mem_selectionSeen_inline
    rw [Config.within?, if_neg hobject, htype] at hwithin
    split
    · rename_i hown
      refine asks_bind (groups_asks name t hobject below (small_inner h) g hg) fun g₁ asked ⟨hg₁, hasked⟩ => ?_
      refine asks_mono (groups_asks name t hobject rest _ g₁ hg₁) fun g' asked' ⟨hapart, hasked'⟩ => ⟨hapart, ?_⟩
      rw [if_pos hown] at hwithin
      rw [or_assoc, hasked', ← or_assoc, hasked, mem_seenIn_cons, hwithin]
      simp [or_assoc]
    · rename_i hother
      rw [if_neg hother] at hwithin
      split
      · rename_i hobject'
        refine asks_mono (groups_asks name t hobject rest _ _ hg) fun g' asked ⟨hapart, hasked⟩ => ⟨hapart, ?_⟩
        rw [hasked, pends_concreteInline, mem_seenIn_cons, hwithin]
        simp [hobject', or_assoc, Option.filter_eq_some_iff]
      · rename_i hobject'
        refine asks_mono (groups_asks name t hobject rest _ _ ?_) fun g' asked ⟨hapart, hasked⟩ => ⟨hapart, ?_⟩
        · exact List.forall_mem_append.2 ⟨hg, List.forall_mem_singleton.2 hobject'⟩
        · rw [hasked, pends_abstractInline, mem_seenIn_cons, hwithin]
          simp [hobject', or_assoc, Option.filter_eq_some_iff]
termination_by (sizeOf sels, 0)

theorem sharedAndOwn_asks (name : String) (t : TypeDef) (hobject : ¬t.body.isObject = true) (sels : List Selection) :
    (sharedAndOwn c.toConfig t sels).Asks c name fun _ asked => (asked ↔ name ∈ seenIn c.toConfig t sels) := by
  rw [sharedAndOwn]
  refine asks_bind (groups_asks name t hobject sels (fun _ h => h) {} (List.forall_mem_nil _))
    fun g asked ⟨hapart, hasked⟩ => ?_
  refine asks_mono (asks_before (typeFields_asks (fun t' s => selection_asks name t' s.1)
    (fun i hi s => sharedAndOwn_asks name i.1 (hapart i hi) s.1) t) fun _ => by trivial) fun _ asked' hasked' => ?_
  rw [hasked', hasked]
  exact or_iff_right pends_empty
termination_by (sizeOf sels, 1)
decreasing_by
  all_goals first
    | exact Prod.Lex.left _ _ s.2
    | exact Prod.Lex.right _ Nat.zero_lt_one

end

/-- What compiled selections asked for is spread in their text. -/
theorem mem_spreadsInAll_of_needs {sels : List Selection} {shape : Shape} (h : (selection c.toConfig t sels).outcome c = .ok shape)
    (hname : .fragment name ∈ (selection c.toConfig t sels).needs c) : name ∈ spreadsInAll sels :=
  (mem_spreadsInAll t sels).2 (Or.inl ((selection_asks name t sels shape h).1 hname))

/-! ## What fragments and operations ask for -/

/-- From one of some fragments another one is come to, by going on to fragments that stand in the relation. -/
def Followed (R : String → String → Prop) (names : List String) (name : String) : Prop :=
  ∃ first ∈ names, Relation.ReflTransGen R first name

section Followed

variable {R R' : String → String → Prop} {names more : List String}

theorem followed_of_mem (h : name ∈ names) : Followed R names name :=
  ⟨name, h, .refl⟩

theorem Followed.mono (h : Followed R names name) (hnames : names ⊆ more) : Followed R more name :=
  h.imp fun _ h => ⟨hnames h.1, h.2⟩

theorem Followed.trans (h : Followed R more name) (hmore : ∀ first ∈ more, Followed R names first) : Followed R names name := by
  obtain ⟨first, hfirst, hname⟩ := h
  obtain ⟨start, hstart, hreach⟩ := hmore first hfirst
  exact ⟨start, hstart, hreach.trans hname⟩

/-- What is come to from fragments that one goes on to is come to from that one. -/
theorem Followed.above {above : String} (h : Followed R more name) (hmore : ∀ first ∈ more, R above first) :
    Followed R [above] name := by
  obtain ⟨first, hfirst, hname⟩ := h
  exact ⟨above, List.mem_singleton_self _, .head (hmore first hfirst) hname⟩

/-- The same is come to if one goes on to the same from all that is come to. -/
theorem Followed.congr (hname : Followed R names name)
    (h : ∀ above, Followed R names above → Followed R' names above → ∀ other, R above other → R' above other) :
    Followed R' names name := by
  obtain ⟨first, hfirst, hname⟩ := hname
  refine ⟨first, hfirst, ?_⟩
  induction hname with
  | refl => exact .refl
  | tail habove hother ih => exact ih.tail (h _ ⟨first, hfirst, habove⟩ ⟨first, hfirst, ih⟩ _ hother)

end Followed

/-- Compiling a fragment comes across the spread of another one. -/
def Sources.Seeing (c : Sources) (name other : String) : Prop :=
  ∃ f t, Assoc.get? c.fragments name = some f ∧ c.schema.type? f.fragment.condition = some t ∧
    other ∈ seenIn c.toConfig t f.fragment.selections

/-- A fragment asks for the fragments whose spreads are come across in it. -/
theorem fragmentPlan_asks {f : FragmentDef} (hf : Assoc.get? c.fragments name' = some f) :
    (fragmentPlan c.toConfig f).Asks c name fun _ asked => (asked ↔ c.Seeing name' name) := by
  refine Plan.asks_count (asks_after codes_ensureHelpers fun _ _ => asks_after (codes_typeOf _) fun t ht => ?_)
  refine asks_mono (asks_before (selection_asks name t f.fragment.selections) fun _ => by trivial) fun _ asked hasked => ?_
  rw [hasked]
  refine ⟨fun h => ⟨f, t, hf, Plan.outcome_typeOf ht, h⟩, ?_⟩
  rintro ⟨f', t', hf', ht', h⟩
  cases hf.symm.trans hf'
  cases (Plan.outcome_typeOf ht).symm.trans ht'
  exact h

/-- Whether a fragment was asked for when fragments were put in the places of spreads: it is asked for or seen in the selections
after if it was seen in those before, and only if it is followed from what was. -/
structure Inlined (c : Sources) (root : TypeDef) (name : String) (sels : List Selection) (inlined : List Selection) (asked : Prop) :
    Prop where
  kept : name ∈ seenIn c.toConfig root sels → asked ∨ name ∈ seenIn c.toConfig root inlined
  followed : asked ∨ name ∈ seenIn c.toConfig root inlined → Followed c.Seeing (seenIn c.toConfig root sels) name

section Inlined

variable {root : TypeDef} {rest inner inlined more : List Selection} {directives : List GraphQL.Directive}
  {asked asked' : Prop}

theorem inlined_nil : Inlined c root name [] [] False :=
  ⟨by simp [seenIn], by simp [seenIn]⟩

/-- A selection that is no spread stays. -/
theorem Inlined.cons (h : Inlined c root name rest inlined asked) (s : Selection) :
    Inlined c root name (s :: rest) (s :: inlined) asked where
  kept hname := by
    rw [mem_seenIn_cons] at hname ⊢
    exact hname.elim (fun h => Or.inr (Or.inl h)) fun hname => (h.kept hname).imp_right Or.inr
  followed hname := by
    have hrest : asked ∨ name ∈ seenIn c.toConfig root inlined → Followed c.Seeing (seenIn c.toConfig root (s :: rest)) name :=
      fun hname => (h.followed hname).mono fun _ hother => mem_seenIn_cons.2 (Or.inr hother)
    rw [mem_seenIn_cons] at hname
    rcases hname with hasked | hname | hname
    · exact hrest (Or.inl hasked)
    · exact followed_of_mem (mem_seenIn_cons.2 (Or.inl hname))
    · exact hrest (Or.inr hname)

/-- A fragment that is spread is asked for. -/
theorem Inlined.spread (h : Inlined c root name (.spread name' directives :: rest) inlined asked) :
    Inlined c root name (.spread name' directives :: rest) inlined (name = name' ∨ asked) where
  kept hname := (h.kept hname).imp_left Or.inr
  followed := by
    rintro ((rfl | hasked) | hname)
    · exact followed_of_mem (mem_seenIn_spread.2 (Or.inl rfl))
    · exact h.followed (Or.inl hasked)
    · exact h.followed (Or.inr hname)

/-- What is put in the place of a spread is followed from it. -/
theorem Inlined.replace (hinner : Inlined c root name inner inlined asked) (h : Inlined c root name rest more asked')
    (hseeing : ∀ other ∈ seenIn c.toConfig root inner, c.Seeing name' other) :
    Inlined c root name (.spread name' directives :: rest) (inlined ++ more) (name = name' ∨ asked ∨ asked') where
  kept hname := by
    rw [mem_seenIn_spread] at hname
    rw [mem_seenIn_append]
    exact hname.elim (fun h => Or.inl (Or.inl h)) fun hname =>
      (h.kept hname).imp (fun h => Or.inr (Or.inr h)) Or.inr
  followed hname := by
    have hfirst : asked ∨ name ∈ seenIn c.toConfig root inlined →
        Followed c.Seeing (seenIn c.toConfig root (.spread name' directives :: rest)) name := fun hname =>
      ((hinner.followed hname).above hseeing).mono fun _ hother => mem_seenIn_spread.2 (Or.inl (List.mem_singleton.1 hother))
    have hrest : asked' ∨ name ∈ seenIn c.toConfig root more →
        Followed c.Seeing (seenIn c.toConfig root (.spread name' directives :: rest)) name := fun hname =>
      (h.followed hname).mono fun _ hother => mem_seenIn_cons.2 (Or.inr hother)
    rw [mem_seenIn_append] at hname
    rcases hname with (rfl | hasked | hasked) | hname | hname
    · exact followed_of_mem (mem_seenIn_spread.2 (Or.inl rfl))
    · exact hfirst (Or.inl hasked)
    · exact hrest (Or.inl hasked)
    · exact hfirst (Or.inr hname)
    · exact hrest (Or.inr hname)

end Inlined

/-- Putting the selections of fragments in the places of their spreads asks for the fragments. -/
theorem inlineRoot_asks {root : TypeDef} (hroot : Known c.toConfig root) (inside : List String) (sels : List Selection) :
    (inlineRoot c root.name inside sels).Asks c name (Inlined c root name sels) := by
  induction inside, sels using inlineRoot.induct c with
  | case1 inside =>
    rw [inlineRoot]
    exact asks_pure inlined_nil
  | case2 inside name' directives rest ihf ih =>
    cases hf : Assoc.get? c.fragments name' with
    | none =>
      intro inlined hinlined
      rw [inlineRoot] at hinlined
      simp [Plan.outcome, hf] at hinlined
    | some f =>
      rw [inlineRoot_spread hf]
      refine asks_next hf ?_
      split
      · rename_i hcondition
        split
        · exact asks_lack
        · rename_i hi
          refine asks_bind (ihf f hf hi) fun inlined asked hinlined => asks_bind ih fun more asked' hmore => asks_pure ?_
          rw [or_false]
          exact hinlined.replace hmore fun other hother => ⟨f, root, hf, hcondition ▸ hroot, hother⟩
      · refine asks_bind ih fun more asked hmore => asks_pure ?_
        rw [or_false]
        exact (hmore.cons _).spread
  | case3 inside s rest hs ih =>
    rw [inlineRoot]
    · refine asks_bind ih fun inlined asked hinlined => asks_pure ?_
      rw [or_false]
      exact hinlined.cons s
    · exact hs

/-- An operation asks for all fragments whose spreads are come across in it, and for such as are come across from these. -/
theorem operationPlan_asks {op : GraphQL.Operation} {root : TypeDef} (hroot : Known c.toConfig root) :
    (operationPlan c op root).Asks c name fun _ asked =>
      (name ∈ seenIn c.toConfig root op.selections → asked) ∧
      (asked → Followed c.Seeing (seenIn c.toConfig root op.selections) name) := by
  refine asks_bind (inlineRoot_asks hroot [] op.selections) fun inlined asked hinlined => ?_
  refine asks_mono (asks_before (selection_asks name root inlined) fun _ => by trivial) fun _ asked' hasked' => ?_
  rw [hasked']
  exact ⟨hinlined.kept, hinlined.followed⟩

end ResponseTypes.Compile
