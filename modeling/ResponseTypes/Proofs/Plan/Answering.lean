import ResponseTypes.Proofs.Plan.Asking
import ResponseTypes.Proofs.Plan.Walking

/-!
# Answering plans

`Answering c Leads H` : the steps by which plans are answered have a property while some artifacts are being made, and what is
put together from steps that have it.  Declared types that are being made are input types in `building` (`Clear`), and none of
those is made again; so declaring types has the property (`Answering.declare`), and carrying out any plan, if generating
fragments has it (`Answering.perform`).
-/

namespace ResponseTypes.Compile

set_option autoImplicit false

open GraphQL (Selection TypeRef)

/-- The steps by which plans are answered have a property, and what is put together from steps that have it.  `Leads` holds of
an input type and those that are made because of it, so that one which is asked for while it is being made leads to itself. -/
structure Answering (c : Setup) (Leads : String → String → Prop) (H : ∀ {α : Type}, List Node → Step α → Prop) : Prop where
  pure : ∀ {α : Type} (stack : List Node) (a : α), H stack (pure a : Step α)
  failHere : ∀ {α : Type} (stack : List Node) (e : Option String → Failure), H stack (Tracking.failHere e : Step α)
  bind : ∀ {α β : Type} {stack : List Node} {act : Step α} {f : α → Step β},
    H stack act → (∀ a, H stack (f a)) → H stack (act >>= f)
  count : ∀ (stack : List Node) (thing : String), H stack (count thing)
  use : ∀ (stack : List Node) (fragment : String), H stack (Tracking.addFragmentUse fragment : Step Unit)
  leads : ∀ {n m : String}, c.toConfig.Refers n m → Leads n m
  leadsOn : ∀ {n m k : String}, Leads n m → c.toConfig.Refers m k → Leads n k
  self : ∀ (stack : List Node) {n : String}, Leads n n →
    H stack (Tracking.add ⟨ArtifactKind.inputType.name, c.naming.input n⟩ : Step Unit)
  shape : ∀ {stack : List Node} (key : String × List Selection) {compute : Step Shape}, H stack compute →
    H stack (Memo.memoized State.shapesPart c.cached key compute)
  code : ∀ {stack : List Node} (type : TypeRef) {compute : Step String}, H stack compute →
    H stack (Memo.memoized State.inputsPart c.cached type compute)
  declared : ∀ {stack : List Node} (d : Declared) {build : Step Draft}, d.node ∉ stack → H (d.node :: stack) build →
    H stack (artifact d.kind d.key none (markingInput d build))

/-- The declared types that are being made are the input types in `building`. -/
def Clear (building : List String) (stack : List Node) : Prop :=
  ∀ d : Declared, d.node ∈ stack → ∃ n ∈ building, d = .input n

namespace Clear

variable {building : List String} {stack : List Node} {d : Declared}

theorem cons (h : Clear building stack) (n : String) : Clear (n :: building) ((Declared.input n).node :: stack) := by
  intro d hmem
  rcases List.mem_cons.1 hmem with heq | hmem
  · exact ⟨n, List.mem_cons_self, Declared.node_inj heq⟩
  · obtain ⟨m, hm, heq⟩ := h d hmem
    exact ⟨m, List.mem_cons_of_mem n hm, heq⟩

/-- What is no input type in `building` is not being made. -/
theorem not_mem (h : Clear building stack) (hd : ∀ n, d = .input n → n ∉ building) : d.node ∉ stack := by
  intro hmem
  obtain ⟨n, hn, heq⟩ := h d hmem
  exact hd n heq hn

end Clear

namespace Answering

variable {c : Setup} {Leads : String → String → Prop} {H : ∀ {α : Type}, List Node → Step α → Prop}
  (h : Answering c Leads H) {stack : List Node} {P : Declared → Prop} {Q : TypeRef → Prop}

include h

/-- Carrying out a plan, if what answers its requests has the property. -/
theorem performWith {host : Host} (hdeclare : ∀ d, P d → H stack (host.declare d))
    (hcode : ∀ type, Q type → H stack (host.code type)) (hspread : ∀ name, H stack (host.spread name)) {α : Type} {p : Plan α}
    (hp : p.Requests P Q) : H stack (p.perform c.cached host) := by
  induction p with
  | done a => exact h.pure stack a
  | lack e => exact h.failHere stack e
  | declare d next ih => exact h.bind (hdeclare d hp.1) fun _ => ih hp.2
  | code type next ih => exact h.bind (hcode type hp.1) fun text => ih text (hp.2 text)
  | spread name next ih => exact h.bind (hspread name) fun f => ih f (hp f)
  | keep typeName sels body next ihb ih => exact h.bind (h.shape _ (ihb hp.1)) fun s => ih s (hp.2 s)
  | count thing next ih => exact h.bind (h.count stack thing) fun _ => ih hp

/-! ## Declaring types -/

section Inner

variable {inner : Declared → Step Unit} (hinner : ∀ d, P d → H stack (inner d))

include hinner

/-- Writing a type expression, if declaring the types in it has the property. -/
theorem codeWith {type : TypeRef} (htype : (codePlan c.toConfig type).Requests P fun _ => False) :
    H stack ((inputHost c inner).code type) :=
  h.code type (h.performWith hinner (fun _ => False.elim) (fun _ => h.failHere stack _) htype)

/-- Drafting a declared type, if declaring those that it refers to has the property. -/
theorem draftWith {d : Declared} (hdraft : (draft c.toConfig d).Requests P Q)
    (hcode : ∀ type, Q type → (codePlan c.toConfig type).Requests P fun _ => False) :
    H stack ((draft c.toConfig d).perform c.cached (inputHost c inner)) :=
  h.performWith hinner (fun type htype => h.codeWith hinner (hcode type htype)) (fun _ => h.failHere stack _) hdraft

end Inner

theorem declareWith {inner : Declared → Step Unit} {d : Declared} (hnode : d.node ∉ stack)
    (hdraft : H (d.node :: stack) ((draft c.toConfig d).perform c.cached (inputHost c inner))) :
    H stack (declareWith c inner d) :=
  h.bind (h.declared d hnode hdraft) fun _ => h.pure stack ()

/-- Tags refer to nothing. -/
theorem draftTag (n : String) : H stack ((draft c.toConfig (.tag n)).perform c.cached (inputHost c fun _ => Pure.pure ())) :=
  h.draftWith (P := fun _ => False) (fun _ => False.elim)
    (Plan.requests_bind Plan.requests_typeOf fun _ => Plan.requests_pure) fun _ => False.elim

/-- Types other than input types refer to tags at most, and tags to nothing. -/
theorem draftFlat (htags : ∀ n, (Declared.tag n).node ∉ stack) {d : Declared}
    (hd : ∀ name, d = .input name → c.schema.type? name = none) :
    H (d.node :: stack) ((draft c.toConfig d).perform c.cached (inputHost c (Compile.declareWith c fun _ => Pure.pure ()))) := by
  refine h.draftWith (fun d' hd' => ?_) (requests_draft hd) fun _ => False.elim
  obtain ⟨u, n, rfl, rfl⟩ := hd'
  refine h.declareWith (fun hmem => ?_) (h.draftTag n)
  rcases List.mem_cons.1 hmem with heq | hmem
  · cases Declared.node_inj heq
  · exact htags n hmem

/-- The input types that an input type refers to are made while it is, unless they are being made already. -/
theorem draftInput {n : String} {inner : Declared → Step Unit}
    (hinner : ∀ d, (∀ m, d = .input m → c.toConfig.Refers n m) → H stack (inner d)) :
    H stack ((draft c.toConfig (.input n)).perform c.cached (inputHost c inner)) := by
  refine h.draftWith hinner (requests_inputDraft n) fun type htype => ?_
  exact (requests_codePlan type).mono (fun d hd m hm => hd m hm ▸ htype) fun _ => id

theorem declareFlat {building : List String} (hclear : Clear building stack) {d : Declared}
    (hd : ∀ n, d = .input n → n ∉ building ∧ c.schema.type? n = none) : H stack (declareFlat c d) := by
  refine h.declareWith (hclear.not_mem fun n hn => (hd n hn).1) (h.draftFlat (fun n => ?_) fun n hn => (hd n hn).2)
  exact hclear.not_mem nofun

/-- Declaring a type, if the input types that are being made lead to it. -/
theorem declare (building : List String) (d : Declared) (hclear : Clear building stack)
    (hleads : ∀ n ∈ building, ∀ m, d = .input m → Leads n m) : H stack (declare c building d) := by
  refine declare_rec (H := fun building d act => ∀ stack, Clear building stack →
      (∀ n ∈ building, ∀ m, d = .input m → Leads n m) → H stack act)
    (fun building n hb stack _ hleads => h.self stack (hleads n hb n rfl))
    (fun building n hb ih stack hclear hleads => ?_) (fun building d hd stack hclear _ => h.declareFlat hclear hd)
    building d stack hclear hleads
  refine h.declareWith (hclear.not_mem ?_) (h.draftInput fun d' hd' => ih d' _ (hclear.cons n) fun n' hn' m hm => ?_)
  · rintro m ⟨⟩
    exact hb
  · rcases List.mem_cons.1 hn' with rfl | hn'
    · exact h.leads (hd' m hm)
    · exact h.leadsOn (hleads n' hn' n rfl) (hd' m hm)

/-! ## Carrying out plans -/

/-- Carrying out a plan when no declared type is being made, if generating fragments has the property. -/
theorem perform {generate : Generator} (hstack : ∀ d : Declared, d.node ∉ stack) (hgenerate : ∀ name, H stack (generate name))
    {α : Type} (p : Plan α) : H stack (p.perform c.cached (host c (useFragment c generate))) := by
  have hclear : Clear [] stack := fun d hd => absurd hd (hstack d)
  have hdeclare : ∀ d, True → H stack (Compile.declare c [] d) := fun d _ =>
    h.declare [] d hclear fun _ hn => absurd hn List.not_mem_nil
  refine h.performWith (P := fun _ => True) (Q := fun _ => True) hdeclare (fun type _ => ?_) (fun name => ?_)
    (Plan.requests_any (fun _ => trivial) (fun _ => trivial) p)
  · exact h.codeWith hdeclare ((requests_codePlan type).mono (fun _ _ => trivial) fun _ => id)
  · change H stack (useFragment c generate name)
    unfold useFragment
    split
    · exact h.failHere stack _
    · exact h.bind (h.use stack name) fun _ => h.bind (hgenerate name) fun _ => h.pure stack _

end Answering

end ResponseTypes.Compile
