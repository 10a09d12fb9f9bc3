import ResponseTypes.Compile.Operation

/-!
# Reading plans

What a plan comes to is known before it is carried out:

* `Plan.outcome` : its result, or what is lacking;
* `Plan.needs` : what it asks for, in order;
* `Query.answer` : the result of a query, given the fields of fragments.

`Plan.Keeps` and `Plan.Codes` tell plans of selections, which keep shapes, from those of input types, which write type
expressions of input values.
-/

namespace ResponseTypes

set_option autoImplicit false

/-- The types of fields are output types: no field of an object or an interface is of an input type. -/
def Schema.OutputTyped (s : Schema) : Prop :=
  ∀ name t, s.type? name = some t → ∀ f ∈ t.body.fields, ∀ t', s.type? f.type.base = some t' →
    ∀ fields, t'.body ≠ .input fields

namespace Compile

open GraphQL (FieldHead Selection TypeDef TypeRef)

/-- Something that a plan or a build asks for. -/
inductive Need where
  | declared (d : Declared)
  | code (type : TypeRef)
  | fragment (name : String)
  | operation (j : Job)
  | arguments (j : Job)

/-- Selections need declared types and fragments. -/
def Need.Selected : Need → Prop
  | declared _ | fragment _ => True
  | code _ | operation _ | arguments _ => False

namespace Plan

variable (c : Sources)

/-- The result of a plan. -/
def outcome {α : Type} : Plan α → Except Lack α
  | done a => .ok a
  | lack e => .error e
  | declare _ next => next.outcome
  | code type next => (next (codeText c.toConfig type)).outcome
  | spread name next =>
    match Assoc.get? c.fragments name with
    | none => .error (.fragmentNotFound name)
    | some f => (next f).outcome
  | keep _ _ body next =>
    match body.outcome with
    | .error e => .error e
    | .ok s => (next s).outcome
  | count _ next => next.outcome

/-- What a plan asks for. -/
def needs {α : Type} : Plan α → List Need
  | done _ | lack _ => []
  | declare d next => .declared d :: next.needs
  | code type next => .code type :: (next (codeText c.toConfig type)).needs
  | spread name next =>
    match Assoc.get? c.fragments name with
    | none => []
    | some f => .fragment name :: (next f).needs
  | keep _ _ body next =>
    match body.outcome c with
    | .error _ => body.needs
    | .ok s => body.needs ++ (next s).needs
  | count _ next => next.needs

/-! ## One plan after the other -/

variable {c} {α β : Type}

theorem outcome_bind (p : Plan α) (f : α → Plan β) :
    (p >>= f).outcome c = match p.outcome c with
      | .error e => .error e
      | .ok a => (f a).outcome c := by
  change (p.bind f).outcome c = _
  induction p with
  | done a => rfl
  | lack e => rfl
  | declare d next ih => exact ih f
  | code type next ih => exact ih _ f
  | spread name next ih =>
    simp only [bind, outcome]
    cases Assoc.get? c.fragments name with
    | none => rfl
    | some fragment => exact ih fragment f
  | keep typeName sels body next _ ih =>
    simp only [bind, outcome]
    cases body.outcome c with
    | error e => rfl
    | ok s => exact ih s f
  | count thing next ih => exact ih f

theorem needs_bind (p : Plan α) (f : α → Plan β) :
    (p >>= f).needs c = p.needs c ++ match p.outcome c with
      | .error _ => []
      | .ok a => (f a).needs c := by
  change (p.bind f).needs c = _
  induction p with
  | done a => rfl
  | lack e => rfl
  | declare d next ih => exact congrArg (_ :: ·) (ih f)
  | code type next ih => exact congrArg (_ :: ·) (ih _ f)
  | spread name next ih =>
    simp only [bind, outcome, needs]
    cases Assoc.get? c.fragments name with
    | none => rfl
    | some fragment => exact congrArg (_ :: ·) (ih fragment f)
  | keep typeName sels body next _ ih =>
    simp only [bind, outcome, needs]
    cases body.outcome c with
    | error e => simp
    | ok s => simp only [ih s f, List.append_assoc]
  | count thing next ih => exact ih f

theorem outcome_bind_ok {p : Plan α} {f : α → Plan β} {b : β} (h : (p >>= f).outcome c = .ok b) :
    ∃ a, p.outcome c = .ok a ∧ (f a).outcome c = .ok b := by
  rw [outcome_bind] at h
  cases hp : p.outcome c with
  | error e => simp [hp] at h
  | ok a => exact ⟨a, rfl, by simpa [hp] using h⟩

@[simp] theorem outcome_pure (a : α) : (pure a : Plan α).outcome c = .ok a := rfl

@[simp] theorem needs_pure (a : α) : (pure a : Plan α).needs c = [] := rfl

@[simp] theorem outcome_done (a : α) : (done a).outcome c = .ok a := rfl

@[simp] theorem needs_done (a : α) : (done a).needs c = [] := rfl

@[simp] theorem outcome_lack (e : Lack) : (lack e : Plan α).outcome c = .error e := rfl

@[simp] theorem needs_lack (e : Lack) : (lack e : Plan α).needs c = [] := rfl

@[simp] theorem outcome_declare (d : Declared) (p : Plan α) : (declare d p).outcome c = p.outcome c := rfl

@[simp] theorem needs_declare (d : Declared) (p : Plan α) : (declare d p).needs c = .declared d :: p.needs c := rfl

@[simp] theorem outcome_count (thing : String) (p : Plan α) : (count thing p).outcome c = p.outcome c := rfl

@[simp] theorem needs_count (thing : String) (p : Plan α) : (count thing p).needs c = p.needs c := rfl

end Plan

/-- The result of a query, given the fields of fragments. -/
def Query.answer (fieldsOf : String → Option Fields) {α : Type} : Query α → Except Lack α
  | .done a => .ok a
  | .lack e => .error e
  | .fields fragment next =>
    match fieldsOf fragment with
    | none => .error (.breach (.fieldsMissing fragment))
    | some found => (next found).answer fieldsOf

/-! ## What is kept -/

/-- Shapes that a plan keeps are those of the selections they are kept for, and it writes no type expressions of input
values; it declares no input types if fields are of output types. -/
def Plan.Keeps (c : Sources) {α : Type} : Plan α → Prop
  | done _ | lack _ => True
  | declare d next => (c.schema.OutputTyped → ∀ m, d ≠ .input m) ∧ next.Keeps c
  | code _ _ => False
  | spread name next => ∀ f, Assoc.get? c.fragments name = some f → (next f).Keeps c
  | keep typeName sels body next =>
    (∃ t, t.name = typeName ∧ c.schema.type? typeName = some t ∧
      selection c.toConfig t sels = .keep typeName sels body .done) ∧
    body.Keeps c ∧ ∀ s, body.outcome c = .ok s → (next s).Keeps c
  | count _ next => next.Keeps c

/-- A plan keeps no shape and spreads no fragment. -/
def Plan.Codes {α : Type} : Plan α → Prop
  | done _ | lack _ => True
  | declare _ next => next.Codes
  | code _ next => ∀ text, (next text).Codes
  | spread _ _ | keep _ _ _ _ => False
  | count _ next => next.Codes

namespace Plan

variable {c : Sources} {α β : Type}

theorem codes_bind {p : Plan α} {f : α → Plan β} (hp : p.Codes) (hf : ∀ a, (f a).Codes) : (p >>= f).Codes := by
  change (p.bind f).Codes
  induction p with
  | done a => exact hf a
  | lack e => trivial
  | declare d next ih => exact ih hp hf
  | code type next ih => exact fun text => ih text (hp text) hf
  | spread name next ih => exact hp.elim
  | keep typeName sels body next _ ih => exact hp.elim
  | count thing next ih => exact ih hp hf

theorem codes_mapM {l : List α} {f : α → Plan β} (h : ∀ a ∈ l, (f a).Codes) : (l.mapM f).Codes := by
  have go : ∀ (l : List α) (done : List β), (∀ a ∈ l, (f a).Codes) → (List.mapM.loop f l done).Codes := by
    intro l
    induction l with
    | nil => exact fun _ _ => trivial
    | cons a l ih =>
      exact fun done h => codes_bind (h a List.mem_cons_self) fun b =>
        ih (b :: done) fun a' ha' => h a' (List.mem_cons_of_mem a ha')
  exact go l [] h

theorem codes_forM {l : List α} {f : α → Plan Unit} (h : ∀ a ∈ l, (f a).Codes) : (l.forM f).Codes := by
  induction l with
  | nil => trivial
  | cons a l ih =>
    exact codes_bind (h a List.mem_cons_self) fun _ => ih fun b hb => h b (List.mem_cons_of_mem a hb)

theorem codes_typeOf (name : String) : (typeOf c.toConfig name).Codes := by
  unfold typeOf
  cases c.schema.type? name <;> trivial

theorem keeps_bind {p : Plan α} {f : α → Plan β} (hp : p.Keeps c)
    (hf : ∀ a, p.outcome c = .ok a → (f a).Keeps c) : (p >>= f).Keeps c := by
  change (p.bind f).Keeps c
  induction p with
  | done a => exact hf a rfl
  | lack e => trivial
  | declare d next ih => exact ⟨hp.1, ih hp.2 hf⟩
  | code type next ih => exact hp.elim
  | spread name next ih =>
    intro fragment hfragment
    refine ih fragment (hp fragment hfragment) fun a ha => hf a ?_
    simp only [outcome, hfragment]
    exact ha
  | keep typeName sels body next _ ih =>
    refine ⟨hp.1, hp.2.1, fun s hs => ih s (hp.2.2 s hs) fun a ha => hf a ?_⟩
    simp only [outcome, hs]
    exact ha
  | count thing next ih => exact ih hp hf

theorem selected_of_keeps {p : Plan α} (h : p.Keeps c) : ∀ n ∈ p.needs c, n.Selected := by
  induction p with
  | done a | lack e => simp
  | declare d next ih => simpa using ⟨trivial, ih h.2⟩
  | code type next ih => exact h.elim
  | spread name next ih =>
    simp only [needs]
    cases hf : Assoc.get? c.fragments name with
    | none => simp
    | some fragment => simpa using ⟨trivial, ih fragment (h fragment hf)⟩
  | keep typeName sels body next ihb ih =>
    simp only [needs]
    cases hb : body.outcome c with
    | error e => exact ihb h.2.1
    | ok s =>
      intro n hn
      exact (List.mem_append.1 hn).elim (ihb h.2.1 n) (ih s (h.2.2 s hb) n)
  | count thing next ih => exact ih h

/-- Selections on fields of output types need no input types. -/
theorem input_notMem_of_keeps {p : Plan α} (h : p.Keeps c) (hs : c.schema.OutputTyped) (m : String) :
    Need.declared (.input m) ∉ p.needs c := by
  induction p with
  | done a | lack e => exact List.not_mem_nil
  | declare d next ih =>
    rw [needs_declare, List.mem_cons, not_or]
    exact ⟨fun heq => h.1 hs m (Need.declared.inj heq).symm, ih h.2⟩
  | code type next ih => exact h.elim
  | spread name next ih =>
    simp only [needs]
    cases hf : Assoc.get? c.fragments name with
    | none => exact List.not_mem_nil
    | some fragment => simpa using ih fragment (h fragment hf)
  | keep typeName sels body next ihb ih =>
    simp only [needs]
    cases hb : body.outcome c with
    | error e => exact ihb h.2.1
    | ok s => exact fun hn => (List.mem_append.1 hn).elim (ihb h.2.1) (ih s (h.2.2 s hb))
  | count thing next ih => exact ih h

theorem keeps_typeOf (name : String) : (typeOf c.toConfig name).Keeps c := by
  unfold typeOf
  cases c.schema.type? name <;> trivial

theorem outcome_typeOf {name : String} {t : TypeDef} (h : (typeOf c.toConfig name).outcome c = .ok t) :
    c.schema.type? name = some t := by
  unfold typeOf at h
  cases ht : c.schema.type? name with
  | none => simp [ht] at h
  | some t' => simpa [ht] using h

theorem keeps_forM {l : List α} {f : α → Plan Unit} (h : ∀ a ∈ l, (f a).Keeps c) : (l.forM f).Keeps c := by
  induction l with
  | nil => trivial
  | cons a l ih =>
    exact keeps_bind (h a List.mem_cons_self) fun _ _ => ih fun b hb => h b (List.mem_cons_of_mem a hb)

theorem keeps_foldlM {l : List α} {f : β → α → Plan β} (h : ∀ a ∈ l, ∀ b, (f b a).Keeps c) (b : β) :
    (l.foldlM f b).Keeps c := by
  induction l generalizing b with
  | nil => trivial
  | cons a l ih =>
    exact keeps_bind (h a List.mem_cons_self b) fun b' _ => ih (fun a' ha' => h a' (List.mem_cons_of_mem a ha')) b'

end Plan

end Compile

end ResponseTypes
