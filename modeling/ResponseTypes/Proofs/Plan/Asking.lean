import Mathlib.Logic.Relation
import ResponseTypes.Proofs.Plan.Operating

/-!
# What plans request

`Plan.Requests P Q` : a plan asks for declared types in `P` and for type expressions of types in `Q` at most, whatever the answers
are.  The draft of an input type asks for the types of its fields (`requests_inputDraft`), so an input type that is asked for
while it is being made refers to itself; the drafts of other types ask for tags at most (`requests_draft`).
-/

namespace ResponseTypes.Compile

set_option autoImplicit false

open GraphQL (TypeRef)

/-- A field of an input type is of another type. -/
def Config.Refers (c : Config) (name other : String) : Prop :=
  ∃ t fields, c.schema.type? name = some t ∧ t.body = .input fields ∧ ∃ f ∈ fields, f.type.base = other

/-- An input type refers to itself, directly or through others. -/
def Config.SelfReferring (c : Config) (name : String) : Prop :=
  Relation.TransGen c.Refers name name

namespace Plan

variable {P P' : Declared → Prop} {Q Q' : TypeRef → Prop} {α β : Type}

/-- A plan requests nothing but declared types in `P` and type expressions of types in `Q`. -/
def Requests (P : Declared → Prop) (Q : TypeRef → Prop) {α : Type} : Plan α → Prop
  | done _ | lack _ => True
  | declare d next => P d ∧ next.Requests P Q
  | code type next => Q type ∧ ∀ text, (next text).Requests P Q
  | spread _ next => ∀ f, (next f).Requests P Q
  | keep _ _ body next => body.Requests P Q ∧ ∀ s, (next s).Requests P Q
  | count _ next => next.Requests P Q

/-- A plan asks for declared types and type expressions. -/
theorem requests_any (hP : ∀ d, P d) (hQ : ∀ type, Q type) (p : Plan α) : p.Requests P Q := by
  induction p with
  | done | lack => trivial
  | declare d next ih => exact ⟨hP d, ih⟩
  | code type next ih => exact ⟨hQ type, ih⟩
  | spread name next ih => exact ih
  | keep typeName sels body next ihb ih => exact ⟨ihb, ih⟩
  | count thing next ih => exact ih

theorem Requests.mono {p : Plan α} (h : p.Requests P Q) (hP : ∀ d, P d → P' d) (hQ : ∀ type, Q type → Q' type) :
    p.Requests P' Q' := by
  induction p with
  | done | lack => trivial
  | declare d next ih => exact ⟨hP d h.1, ih h.2⟩
  | code type next ih => exact ⟨hQ type h.1, fun text => ih text (h.2 text)⟩
  | spread name next ih => exact fun f => ih f (h f)
  | keep typeName sels body next ihb ih => exact ⟨ihb h.1, fun s => ih s (h.2 s)⟩
  | count thing next ih => exact ih h

theorem requests_pure {a : α} : (pure a : Plan α).Requests P Q := trivial

theorem requests_bind {p : Plan α} {f : α → Plan β} (hp : p.Requests P Q) (hf : ∀ a, (f a).Requests P Q) : (p >>= f).Requests P Q := by
  change (p.bind f).Requests P Q
  induction p with
  | done a => exact hf a
  | lack e => trivial
  | declare d next ih => exact ⟨hp.1, ih hp.2 hf⟩
  | code type next ih => exact ⟨hp.1, fun text => ih text (hp.2 text) hf⟩
  | spread name next ih => exact fun f' => ih f' (hp f') hf
  | keep typeName sels body next _ ih => exact ⟨hp.1, fun s => ih s (hp.2 s) hf⟩
  | count thing next ih => exact ih hp hf

theorem requests_mapM {l : List α} {f : α → Plan β} (h : ∀ a ∈ l, (f a).Requests P Q) : (l.mapM f).Requests P Q := by
  have go : ∀ (l : List α) (done : List β), (∀ a ∈ l, (f a).Requests P Q) → (List.mapM.loop f l done).Requests P Q := by
    intro l
    induction l with
    | nil => exact fun _ _ => trivial
    | cons a l ih =>
      exact fun done h => requests_bind (h a List.mem_cons_self) fun b =>
        ih (b :: done) fun a' ha' => h a' (List.mem_cons_of_mem a ha')
  exact go l [] h

theorem requests_forM {l : List α} {f : α → Plan Unit} (h : ∀ a ∈ l, (f a).Requests P Q) : (l.forM f).Requests P Q := by
  induction l with
  | nil => exact requests_pure
  | cons a l ih => exact requests_bind (h a List.mem_cons_self) fun _ => ih fun a' ha' => h a' (List.mem_cons_of_mem a ha')

theorem requests_typeOf {c : Config} {name : String} : (typeOf c name).Requests P Q := by
  unfold typeOf
  split <;> trivial

end Plan

/-! ## Drafts -/

section Drafts

variable {c : Config}

theorem requests_ensureHelpers {P : Declared → Prop} {Q : TypeRef → Prop} (hP : ∀ name, P (.helper name)) :
    (ensureHelpers c).Requests P Q := by
  unfold ensureHelpers
  split
  · exact ⟨hP _, trivial⟩
  · trivial

/-- The draft of an input type refers to input types that its fields are of. -/
theorem requests_inputDraft (name : String) :
    (inputDraft c name).Requests (fun d => ∀ other, d = .input other → c.Refers name other)
      (fun type => c.Refers name type.base) := by
  unfold inputDraft
  split
  · rename_i fields description ht
    refine Plan.requests_bind (requests_ensureHelpers fun _ _ => Declared.noConfusion) fun _ => ?_
    refine Plan.requests_bind (Plan.requests_mapM fun f hf => ?_) fun _ => Plan.requests_pure
    exact Plan.requests_bind ⟨⟨_, fields, ht, rfl, f, hf, rfl⟩, fun _ => trivial⟩ fun _ => Plan.requests_pure
  · trivial

/-- A type expression refers to the type in its lists. -/
theorem requests_codePlan (type : TypeRef) :
    (codePlan c type).Requests (fun d => ∀ other, d = .input other → other = type.base) (fun _ => False) := by
  unfold codePlan
  split
  · exact ⟨fun other h => (Declared.input.inj h).symm, trivial⟩
  · exact ⟨fun _ => Declared.noConfusion, trivial⟩
  · trivial
  · trivial

/-- The drafts of other types refer to tags, if they are unions of tags, or to nothing. -/
theorem requests_draft {d : Declared} (hd : ∀ name, d = .input name → c.schema.type? name = none) :
    (draft c d).Requests (fun d' => ∃ u n, d = .tagUnion u ∧ d' = .tag n) (fun _ => False) := by
  cases d with
  | helper name => trivial
  | tag name => exact Plan.requests_bind Plan.requests_typeOf fun _ => Plan.requests_pure
  | tagUnion name =>
    refine Plan.requests_bind (Plan.requests_forM fun n _ => ⟨⟨name, n, rfl, rfl⟩, trivial⟩) fun _ => ?_
    exact Plan.requests_bind Plan.requests_typeOf fun _ => Plan.requests_pure
  | enum name => exact Plan.requests_bind Plan.requests_typeOf fun _ => Plan.requests_pure
  | input name =>
    rw [draft, inputDraft, hd name rfl]
    trivial

end Drafts

end ResponseTypes.Compile
