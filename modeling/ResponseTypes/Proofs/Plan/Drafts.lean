import ResponseTypes.Proofs.Plan.Sound
import ResponseTypes.Compile.Operation

/-!
# Drafts of declared types

What the plans of declared types and of variables ask for, and what they come to.  An input type asks for the type
expressions of its fields (`inputDraft_eq`), variables for those of the variables.
-/

namespace ResponseTypes.Compile

set_option autoImplicit false

open GraphQL (InputDef TypeDef TypeRef VariableDef)

section Drafts

variable {c : Sources}

theorem codes_ensureHelpers : (ensureHelpers c.toConfig).Codes := by
  unfold ensureHelpers
  split <;> trivial

theorem outcome_ensureHelpers : (ensureHelpers c.toConfig).outcome c = .ok () := by
  unfold ensureHelpers
  split <;> rfl

theorem codes_draft (d : Declared) : (draft c.toConfig d).Codes := by
  cases d with
  | helper name => trivial
  | tag name => exact Plan.codes_bind (Plan.codes_typeOf name) fun _ => trivial
  | tagUnion name =>
    refine Plan.codes_bind (Plan.codes_forM fun _ _ => trivial) fun _ => ?_
    exact Plan.codes_bind (Plan.codes_typeOf name) fun _ => trivial
  | enum name => exact Plan.codes_bind (Plan.codes_typeOf name) fun _ => trivial
  | input name =>
    simp only [draft, inputDraft]
    split
    · refine Plan.codes_bind codes_ensureHelpers fun _ => ?_
      refine Plan.codes_bind (Plan.codes_mapM fun f _ => ?_) fun _ => trivial
      exact Plan.codes_bind (p := inputCode f.type) (fun _ => trivial) fun _ => trivial
    · trivial

/-- The needs of a plan that spreads no fragment. -/
theorem Plan.coded_of_codes {α : Type} {p : Plan α} (h : p.Codes) :
    ∀ n ∈ p.needs c, (∃ d, n = .declared d) ∨ ∃ type, n = .code type := by
  induction p with
  | done a | lack e => simp
  | declare d next ih =>
    intro n hn
    rcases List.mem_cons.1 hn with rfl | hn
    · exact Or.inl ⟨d, rfl⟩
    · exact ih h n hn
  | code type next ih =>
    intro n hn
    rcases List.mem_cons.1 hn with rfl | hn
    · exact Or.inr ⟨type, rfl⟩
    · exact ih _ (h _) n hn
  | spread name next ih => exact h.elim
  | keep typeName sels body next _ ih => exact h.elim
  | count thing next ih => exact ih h

theorem fragmentsIn_of_codes {α : Type} {p : Plan α} (h : p.Codes) : fragmentsIn (p.needs c) = [] := by
  refine List.eq_nil_iff_forall_not_mem.2 fun name hname => ?_
  rcases Plan.coded_of_codes h _ (mem_fragmentsIn.1 hname) with ⟨d, hd⟩ | ⟨type, ht⟩
  · cases hd
  · cases ht

theorem spreadsOf_declared (jobOf : String → Option Job) (d : Declared) : spreadsOf c jobOf d.node = [] := by
  rw [spreadsOf, needsAt_eq (needOf_declared jobOf d)]
  exact fragmentsIn_of_codes (codes_draft d)

/-- One declared type refers to another. -/
def Declared.Asks (c : Sources) (d d' : Declared) : Prop :=
  .declared d' ∈ (draft c.toConfig d).needs c ∨
    ∃ type, .code type ∈ (draft c.toConfig d).needs c ∧ .declared d' ∈ (codePlan c.toConfig type).needs c

theorem needs_tagDraft (name : String) : (draft c.toConfig (.tag name)).needs c = [] := by
  change (Plan.typeOf c.toConfig name >>= _).needs c = []
  unfold Plan.typeOf
  cases c.schema.type? name <;> rfl

theorem needs_enumDraft (name : String) : (draft c.toConfig (.enum name)).needs c = [] := by
  change (Plan.typeOf c.toConfig name >>= _).needs c = []
  unfold Plan.typeOf
  cases c.schema.type? name <;> rfl

theorem tag_of_needs_tagUnion {name : String} {n : Need} (h : n ∈ (draft c.toConfig (.tagUnion name)).needs c) :
    ∃ t, n = .declared (.tag t) := by
  simp only [draft, tagUnionDraft] at h
  rw [Plan.needs_bind, Plan.needs_forM_tag] at h
  rcases List.mem_append.1 h with h | h
  · obtain ⟨t, -, ht⟩ := List.mem_map.1 h
    exact ⟨t, ht.symm⟩
  · exfalso
    revert h
    split
    · exact List.not_mem_nil
    · unfold Plan.typeOf
      cases c.schema.type? name <;> exact List.not_mem_nil

theorem needs_of_unknown_input {name : String} (h : c.schema.type? name = none) :
    (draft c.toConfig (.input name)).needs c = [] := by
  simp only [draft, inputDraft, h]
  rfl

/-! ## Type expressions of fields -/

/-- Plans that come to a result for each element do so for all of them. -/
theorem Plan.mapM_eq {α β : Type} {l : List α} {f : α → Plan β} {g : α → β}
    (h : ∀ a ∈ l, (f a).outcome c = .ok (g a)) :
    (l.mapM f).outcome c = .ok (l.map g) ∧ (l.mapM f).needs c = l.flatMap (fun a => (f a).needs c) := by
  have go : ∀ (l : List α) (done : List β), (∀ a ∈ l, (f a).outcome c = .ok (g a)) →
      (List.mapM.loop f l done).outcome c = .ok (done.reverse ++ l.map g) ∧
      (List.mapM.loop f l done).needs c = l.flatMap (fun a => (f a).needs c) := by
    intro l
    induction l with
    | nil =>
      intro done _
      exact ⟨by rw [List.map_nil, List.append_nil]; rfl, rfl⟩
    | cons a l ih =>
      intro done h
      obtain ⟨hout, hneeds⟩ := ih (g a :: done) fun a' ha' => h a' (List.mem_cons_of_mem a ha')
      have hloop : List.mapM.loop f (a :: l) done = f a >>= fun b => List.mapM.loop f l (b :: done) := rfl
      rw [hloop, Plan.outcome_bind, Plan.needs_bind, h a List.mem_cons_self]
      refine ⟨hout.trans ?_, ?_⟩
      · simp
      · rw [List.flatMap_cons]
        exact congrArg (_ ++ ·) hneeds
  obtain ⟨hout, hneeds⟩ := go l [] h
  exact ⟨hout.trans (by simp), hneeds⟩

/-- What is asked for for a list is asked for for one of its elements. -/
theorem Plan.mem_needs_mapM {α β : Type} {l : List α} {f : α → Plan β} {n : Need} (h : n ∈ (l.mapM f).needs c) :
    ∃ a ∈ l, n ∈ (f a).needs c := by
  have go : ∀ (l : List α) (done : List β), n ∈ (List.mapM.loop f l done).needs c → ∃ a ∈ l, n ∈ (f a).needs c := by
    intro l
    induction l with
    | nil => exact fun _ h => absurd h List.not_mem_nil
    | cons a l ih =>
      intro done h
      change n ∈ (f a >>= fun b => List.mapM.loop f l (b :: done)).needs c at h
      rw [Plan.needs_bind] at h
      rcases List.mem_append.1 h with h | h
      · exact ⟨a, List.mem_cons_self, h⟩
      · split at h
        · cases h
        · obtain ⟨a', ha', h⟩ := ih _ h
          exact ⟨a', List.mem_cons_of_mem a ha', h⟩
  exact go l [] h

/-- A field of an input type. -/
def inputEntry (c : Config) (f : InputDef) : Script.Entry :=
  ⟨f.name, ⟨!f.type.isNonNull, f.description⟩, codeText c f.type⟩

/-- What declaring an input type asks for and comes to. -/
theorem inputDraft_eq {name name' : String} {fields : List InputDef} {description : Option String}
    (h : c.schema.type? name = some ⟨name', .input fields, description⟩) :
    (inputDraft c.toConfig name).outcome c =
      .ok (schemaDraft c.toConfig (c.naming.input name)
        (Script.renderInputFields c.output (fields.map (inputEntry c.toConfig))) name description) ∧
    (inputDraft c.toConfig name).needs c =
      (ensureHelpers c.toConfig).needs c ++ fields.map (fun f => Need.code f.type) := by
  obtain ⟨hout, hneeds⟩ := Plan.mapM_eq (c := c) (l := fields) (f := fun f => do
    let code ← inputCode f.type
    return (⟨f.name, ⟨!f.type.isNonNull, f.description⟩, code⟩ : Script.Entry)) (g := inputEntry c.toConfig)
    fun f _ => rfl
  have hflat : (fields.flatMap fun f => (do
      let code ← inputCode f.type
      return (⟨f.name, ⟨!f.type.isNonNull, f.description⟩, code⟩ : Script.Entry) : Plan Script.Entry).needs c) =
      fields.map (fun f => Need.code f.type) :=
    (List.map_eq_flatMap ..).symm
  unfold inputDraft
  rw [h]
  dsimp only
  rw [Plan.outcome_bind, Plan.needs_bind, outcome_ensureHelpers]
  dsimp only
  rw [Plan.outcome_bind, Plan.needs_bind, hout, hneeds, hflat]
  exact ⟨rfl, by simp⟩

/-- Only input types ask for type expressions. -/
theorem input_of_code_mem {d : Declared} {type : TypeRef} (h : .code type ∈ (draft c.toConfig d).needs c) :
    ∃ m, d = .input m := by
  cases d with
  | helper name => cases h
  | tag name =>
    rw [needs_tagDraft] at h
    cases h
  | tagUnion name =>
    obtain ⟨t, ht⟩ := tag_of_needs_tagUnion h
    cases ht
  | enum name =>
    rw [needs_enumDraft] at h
    cases h
  | input name => exact ⟨name, rfl⟩

theorem outcome_codePlan {type : TypeRef} {text : String} (h : (codePlan c.toConfig type).outcome c = .ok text) :
    text = codeText c.toConfig type := by
  unfold codePlan at h
  split at h <;> cases h <;> rfl

theorem declared_of_codePlan {type : TypeRef} {n : Need} (h : n ∈ (codePlan c.toConfig type).needs c) :
    ∃ d, n = .declared d := by
  unfold codePlan at h
  split at h <;> simp at h
  all_goals exact ⟨_, h⟩

theorem codes_codePlan (type : TypeRef) : (codePlan c.toConfig type).Codes := by
  unfold codePlan
  split <;> trivial

/-- A type expression asks for one type at most. -/
theorem declared_unique {type : TypeRef} {d d' : Declared} (h : .declared d ∈ (codePlan c.toConfig type).needs c)
    (h' : .declared d' ∈ (codePlan c.toConfig type).needs c) : d' = d := by
  unfold codePlan at h h'
  split at h <;> simp_all

/-- Input types are asked for through type expressions alone. -/
theorem input_notMem_draft (d : Declared) (m : String) : Need.declared (.input m) ∉ (draft c.toConfig d).needs c := by
  intro h
  cases d with
  | helper name => cases h
  | tag name =>
    rw [needs_tagDraft] at h
    cases h
  | tagUnion name =>
    obtain ⟨t, ht⟩ := tag_of_needs_tagUnion h
    cases ht
  | enum name =>
    rw [needs_enumDraft] at h
    cases h
  | input name =>
    simp only [draft] at h
    cases ht : c.schema.type? name with
    | none =>
      unfold inputDraft at h
      rw [ht] at h
      cases h
    | some t =>
      obtain ⟨name', body, description⟩ := t
      cases body with
      | input fields =>
        rw [(inputDraft_eq ht).2] at h
        rcases List.mem_append.1 h with h | h
        · unfold ensureHelpers at h
          split at h
          · simp at h
          · cases h
        · obtain ⟨f, -, hf⟩ := List.mem_map.1 h
          cases hf
      | scalar | object | interface | union | enum =>
        unfold inputDraft at h
        rw [ht] at h
        cases h

end Drafts

/-! ## Variables -/

section Variables

variable {c : Sources}

theorem codes_variablesPlan (j : Job) : (variablesPlan c.toConfig j).Codes := by
  refine Plan.codes_bind codes_ensureHelpers fun _ => ?_
  refine Plan.codes_bind (p := .declare _ (.done ())) trivial fun _ => ?_
  refine Plan.codes_bind (Plan.codes_mapM fun v _ => ?_) fun _ => trivial
  unfold variableEntry
  split
  · trivial
  · exact Plan.codes_bind (p := inputCode v.type) (fun _ => trivial) fun _ => trivial

/-- What variables ask for: helper types and type expressions. -/
theorem needs_variablesPlan {j : Job} {n : Need} (h : n ∈ (variablesPlan c.toConfig j).needs c) :
    (∃ name, n = .declared (.helper name)) ∨ ∃ type, n = .code type := by
  unfold variablesPlan at h
  rw [Plan.needs_bind, outcome_ensureHelpers] at h
  rcases List.mem_append.1 h with h | h
  · unfold ensureHelpers at h
    split at h
    · exact Or.inl ⟨_, List.mem_singleton.1 h⟩
    · cases h
  rcases List.mem_cons.1 h with rfl | h
  · exact Or.inl ⟨_, rfl⟩
  change n ∈ ((j.op.variableDefs.mapM (variableEntry c.toConfig)) >>= _).needs c at h
  rw [Plan.needs_bind] at h
  rcases List.mem_append.1 h with h | h
  · obtain ⟨v, -, h⟩ := Plan.mem_needs_mapM h
    unfold variableEntry at h
    split at h
    · cases h
    · exact Or.inr ⟨v.type, List.mem_singleton.1 h⟩
  · split at h <;> cases h

end Variables

/-! ## Inner needs -/

section Inner

variable {c : Sources}

/-- The need may be that of a plan. -/
def Need.Inner : Need → Prop
  | declared _ | code _ | fragment _ => True
  | operation _ | arguments _ => False

theorem Plan.inner_of_mem_needs {α : Type} {p : Plan α} : ∀ n ∈ p.needs c, n.Inner := by
  induction p with
  | done a | lack e => simp
  | declare d next ih => simpa using ⟨trivial, ih⟩
  | code type next ih => exact List.forall_mem_cons.2 ⟨trivial, ih _⟩
  | spread name next ih =>
    simp only [Plan.needs]
    cases Assoc.get? c.fragments name with
    | none => simp
    | some f => exact List.forall_mem_cons.2 ⟨trivial, ih f⟩
  | keep typeName sels body next ihb ih =>
    simp only [Plan.needs]
    cases body.outcome c with
    | error e => exact ihb
    | ok s => exact List.forall_mem_append.2 ⟨ihb, ih s⟩
  | count thing next ih => exact ih

theorem Need.inner_needs (n : Need) : ∀ m ∈ n.needs c, m.Inner := by
  cases n with
  | declared d | code type | arguments j => exact Plan.inner_of_mem_needs
  | fragment name =>
    simp only [Need.needs]
    cases Assoc.get? c.fragments name with
    | none => simp
    | some f => exact Plan.inner_of_mem_needs
  | operation j => exact List.forall_mem_append.2 ⟨Plan.inner_of_mem_needs, Plan.inner_of_mem_needs⟩

end Inner

end ResponseTypes.Compile
