import ResponseTypes.Proofs.Plan.Drafts
import ResponseTypes.Proofs.Plan.Sound

/-!
# What input types wait for

Input types may refer to each other in a circle.  One that is referred to while it is being made is not made yet, so that
what refers to it cannot depend on the files that it depends on.  `Link` tells how such a reference stands:

* it is `Strong` : what is referred to was made, and the reference depends on the files that this depends on;
* it waits for an input type that is made meanwhile;
* it stands on a type expression that was kept before.

An input type that was made meanwhile hangs on what was needed through references that are all strong (`Need.Hangs`), so
that it is made again together with what needs it.
-/

namespace ResponseTypes.Compile

set_option autoImplicit false

open GraphQL (TypeRef)

/-- What was made stays. -/
structure Extends (s s' : State) : Prop where
  enabled : s'.tracker.enabled = s.tracker.enabled
  store : ∀ node a, Assoc.get? s.store node = some a → Assoc.get? s'.store node = some a

/-- What was made stays, and so do the type expressions that were kept. -/
structure Preserves (s s' : State) : Prop extends Extends s s' where
  codes : ∀ type e, Assoc.get? s.inputs.entries type = some e → Assoc.get? s'.inputs.entries type = some e

namespace Extends

variable {s s' s'' : State}

theorem refl (s : State) : Extends s s :=
  ⟨rfl, fun _ _ h => h⟩

theorem trans (h : Extends s s') (h' : Extends s' s'') : Extends s s'' :=
  ⟨h'.enabled.trans h.enabled, fun node a ha => h'.store node a (h.store node a ha)⟩

theorem has (h : Extends s s') {node : Node} (hn : Assoc.has s.store node) : Assoc.has s'.store node := by
  obtain ⟨a, ha⟩ := Option.isSome_iff_exists.1 hn
  rw [Assoc.has, h.store _ a ha]
  rfl

/-- What was not made in the second state was not made in the first. -/
theorem unmade (h : Extends s s') {node : Node} (hn : Assoc.get? s'.store node = none) :
    Assoc.get? s.store node = none :=
  Option.eq_none_iff_forall_ne_some.2 fun a ha => by cases hn.symm.trans (h.store node a ha)

end Extends

theorem Preserves.refl (s : State) : Preserves s s :=
  ⟨.refl s, fun _ _ h => h⟩

theorem Preserves.trans {s s' s'' : State} (h : Preserves s s') (h' : Preserves s' s'') : Preserves s s'' :=
  ⟨h.toExtends.trans h'.toExtends, fun type e he => h'.codes type e (h.codes type e he)⟩

theorem Covers.trans {o o' o'' : Origin} (h : Covers o o') (h' : Covers o' o'') : Covers o o'' :=
  fun file hne hdep => h file hne (h' file hne hdep)

theorem Backed.mono {s s' : State} {o : Origin} {node : Node} (h : Backed s o node) (he : Extends s s') :
    Backed s' o node := by
  obtain ⟨a, ha, hc⟩ := h
  exact ⟨a, he.store _ a ha, he.enabled ▸ hc⟩

theorem Backed.of_covers {s : State} {o o' : Origin} {node : Node} (h : Backed s o' node)
    (hc : s.tracker.enabled → Covers o o') : Backed s o node := by
  obtain ⟨a, ha, hc'⟩ := h
  exact ⟨a, ha, fun henabled => (hc henabled).trans (hc' henabled)⟩

/-! ## Strong references -/

section Strong

variable {c : Setup} {s s' : State} {o o' : Origin} {type : TypeRef} {n : Need} {m : String}

/-- A type expression refers to an input type. -/
def Names (c : Sources) (type : TypeRef) (m : String) : Prop :=
  .declared (.input m) ∈ (Need.code type).needs c

/-- What a type expression refers to was made, and a result of an origin depends on the files that it depends on. -/
def Strong (c : Sources) (s : State) (o : Origin) (type : TypeRef) : Prop :=
  ∀ d, .declared d ∈ (Need.code type).needs c → Backed s o d.node

theorem Strong.mono {c : Sources} (h : Strong c s o type) (he : Extends s s') : Strong c s' o type :=
  fun d hd => (h d hd).mono he

theorem Strong.of_covers {c : Sources} (h : Strong c s o' type) (hc : s.tracker.enabled → Covers o o') :
    Strong c s o type :=
  fun d hd => (h d hd).of_covers hc

/-- What a type expression refers to was made, and if it is kept, it depends on the files that this depends on. -/
structure Tight (c : Setup) (s : State) (type : TypeRef) : Prop where
  made : ∀ d, .declared d ∈ (Need.code type).needs c.toSources → Assoc.has s.store d.node
  kept : c.cached → ∀ text o, Assoc.get? s.inputs.entries type = some (text, o) → Strong c.toSources s o type

/-- The artifact of a need refers to something through a strong reference. -/
structure FirmStep (c : Setup) (s : State) (n : Need) (type : TypeRef) : Prop where
  tight : Tight c s type
  strong : ∃ node a, n.node? = some node ∧ Assoc.get? s.store node = some a ∧ Strong c.toSources s a.origin type

/-- The references that lead from a need to an input type. -/
inductive Chain (c : Sources) : Need → List (Need × TypeRef) → String → Prop
  | last {n : Need} {type : TypeRef} {m : String} :
      .code type ∈ n.needs c → Names c type m → Chain c n [(n, type)] m
  | step {n : Need} {type : TypeRef} {k m : String} {path : List (Need × TypeRef)} :
      .code type ∈ n.needs c → Names c type k → Chain c (.declared (.input k)) path m →
      Chain c n ((n, type) :: path) m

/-- Strong references lead from a need to an input type. -/
def Firm (c : Setup) (s : State) (n : Need) (m : String) : Prop :=
  ∃ path, Chain c.toSources n path m ∧ ∀ step ∈ path, FirmStep c s step.1 step.2

theorem Firm.has {node : Node} (h : Firm c s n m) (hn : n.node? = some node) : Assoc.has s.store node := by
  obtain ⟨path, hchain, hsteps⟩ := h
  have hhead : ∃ type, FirmStep c s n type := by
    cases hchain with
    | last => exact ⟨_, hsteps _ List.mem_cons_self⟩
    | step => exact ⟨_, hsteps _ List.mem_cons_self⟩
  obtain ⟨type, -, node', a, hn', ha, -⟩ := hhead
  cases hn.symm.trans hn'
  rw [Assoc.has, ha]
  rfl

/-- Only input types and operations lead anywhere. -/
theorem Firm.head (h : Firm c s n m) : ∃ type, .code type ∈ n.needs c.toSources := by
  obtain ⟨path, hchain, -⟩ := h
  cases hchain with
  | last ht => exact ⟨_, ht⟩
  | step ht => exact ⟨_, ht⟩

/-- An input type is what is needed, or strong references lead to it from there. -/
def Need.Hangs (c : Setup) (s : State) (m : String) : Need → Prop
  | declared d => d = .input m ∨ Firm c s (.declared d) m
  | code type => Tight c s type ∧ ∃ k, Names c.toSources type k ∧ (k = m ∨ Firm c s (.declared (.input k)) m)
  | arguments j => Firm c s (.arguments j) m
  | fragment _ | operation _ => False

theorem FirmStep.mono (h : FirmStep c s n type) (he : Extends s s') (ht : Tight c s type → Tight c s' type) :
    FirmStep c s' n type := by
  obtain ⟨node, a, hn, ha, hs⟩ := h.strong
  exact ⟨ht h.tight, node, a, hn, he.store _ a ha, hs.mono he⟩

theorem Firm.mono (h : Firm c s n m) (he : Extends s s') (ht : ∀ type, Tight c s type → Tight c s' type) :
    Firm c s' n m := by
  obtain ⟨path, hchain, hsteps⟩ := h
  exact ⟨path, hchain, fun step hstep => (hsteps step hstep).mono he (ht _)⟩

theorem Need.Hangs.mono (h : n.Hangs c s m) (he : Extends s s') (ht : ∀ type, Tight c s type → Tight c s' type) :
    n.Hangs c s' m := by
  cases n with
  | declared d => exact h.imp id fun h => h.mono he ht
  | code type =>
    obtain ⟨htight, k, hk, h⟩ := h
    exact ⟨ht _ htight, k, hk, h.imp id fun h => h.mono he ht⟩
  | arguments j => exact Firm.mono h he ht
  | fragment name | operation j => exact h.elim

end Strong

/-! ## References that were made meanwhile -/

section Links

variable {c : Setup} {jobOf : String → Option Job} {stack : Stack} {W V : Origin → String → Prop}
  {s s' s'' : State} {o o' : Origin} {type : TypeRef} {n : Need} {m : String} {needs more : List Need}

/-- An input type was made meanwhile. -/
structure Fresh (s s' : State) (m : String) : Prop where
  before : Assoc.get? s.store (Declared.input m).node = none
  after : Assoc.has s'.store (Declared.input m).node

theorem Fresh.mono (h : Fresh s s' m) (he : Extends s' s'') : Fresh s s'' m :=
  ⟨h.before, he.has h.after⟩

theorem Fresh.of_extends (h : Fresh s' s'' m) (he : Extends s s') : Fresh s s'' m :=
  ⟨he.unmade h.before, h.after⟩

/-- How a reference of a result of an origin stands; `W` tells what it may wait for. -/
def Link (c : Setup) (W : Origin → String → Prop) (s s' : State) (o : Origin) (type : TypeRef) : Prop :=
  Strong c.toSources s' o type ∨ (∃ m, Names c.toSources type m ∧ W o m) ∨
    c.cached ∧ ∃ text o', Assoc.get? s.inputs.entries type = some (text, o') ∧ (s'.tracker.enabled → Covers o o')

theorem Link.mono (h : Link c W s s' o type) (he : Extends s' s'') (hW : ∀ m, W o m → V o m) :
    Link c V s s'' o type := by
  rcases h with h | ⟨m, hm, h⟩ | ⟨hcached, text, o', ho', h⟩
  · exact Or.inl (h.mono he)
  · exact Or.inr (Or.inl ⟨m, hm, hW m h⟩)
  · exact Or.inr (Or.inr ⟨hcached, text, o', ho', he.enabled ▸ h⟩)

theorem Link.of_covers (h : Link c W s s' o' type) (hc : s'.tracker.enabled → Covers o o')
    (hW : ∀ m, W o' m → W o m) : Link c W s s' o type := by
  rcases h with h | ⟨m, hm, h⟩ | ⟨hcached, text, o'', ho'', h⟩
  · exact Or.inl (h.of_covers hc)
  · exact Or.inr (Or.inl ⟨m, hm, hW m h⟩)
  · exact Or.inr (Or.inr ⟨hcached, text, o'', ho'', fun henabled => (hc henabled).trans (h henabled)⟩)

/-- The references of what was made meanwhile stand in one of these ways. -/
structure Links (c : Setup) (jobOf : String → Option Job) (W : Origin → String → Prop) (s s' : State) : Prop where
  made : ∀ node a, Assoc.get? s.store node = none → Assoc.get? s'.store node = some a →
    ∀ type, .code type ∈ needsAt c.toSources jobOf node → Link c W s s' a.origin type
  kept : ∀ type text o, Assoc.get? s.inputs.entries type = none →
    Assoc.get? s'.inputs.entries type = some (text, o) → Link c W s s' o type

/-- `W` tells the same of results that depend on more files. -/
def Upward (enabled : Bool) (W : Origin → String → Prop) : Prop :=
  ∀ o o', (enabled → Covers o o') → ∀ m, W o' m → W o m

/-- A type expression that is kept is kept since before, or since meanwhile. -/
theorem Links.entry {text : String} (h : Links c jobOf W s s') (hcached : c.cached)
    (he : Assoc.get? s'.inputs.entries type = some (text, o)) (hs : Preserves s s') : Link c W s s' o type := by
  cases hbefore : Assoc.get? s.inputs.entries type with
  | none => exact h.kept type text o hbefore he
  | some e =>
    cases he.symm.trans (hs.codes _ e hbefore)
    exact Or.inr (Or.inr ⟨hcached, text, o, hbefore, fun _ _ _ h => h⟩)

theorem Link.of_later (h : Link c V s' s'' o type) (hs : Preserves s s') (hs' : Extends s' s'')
    (hlinks : Links c jobOf W s s') (hW : Upward s.tracker.enabled W) (hWV : ∀ o m, W o m → V o m) :
    Link c V s s'' o type := by
  rcases h with h | h | ⟨hcached, text, o', ho', h⟩
  · exact Or.inl h
  · exact Or.inr (Or.inl h)
  · have hlink := (hlinks.entry hcached ho' hs).of_covers (o := o)
      (fun henabled => h (hs'.enabled ▸ henabled)) (hW o o' fun henabled => h (by rw [hs'.enabled, hs.enabled, henabled]))
    exact hlink.mono hs' (hWV o)

theorem Links.trans (h : Links c jobOf W s s') (h' : Links c jobOf V s' s'') (hs : Preserves s s')
    (hs' : Preserves s' s'') (hW : Upward s.tracker.enabled W) (hWV : ∀ o m, W o m → V o m) : Links c jobOf V s s'' where
  made node a hbefore ha type ht := by
    cases hmid : Assoc.get? s'.store node with
    | none => exact (h'.made node a hmid ha type ht).of_later hs hs'.toExtends h hW hWV
    | some a' =>
      cases ha.symm.trans (hs'.store _ a' hmid)
      exact (h.made node a hbefore hmid type ht).mono hs'.toExtends (hWV _)
  kept type text o hbefore ho := by
    cases hmid : Assoc.get? s'.inputs.entries type with
    | none => exact (h'.kept type text o hmid ho).of_later hs hs'.toExtends h hW hWV
    | some e =>
      cases ho.symm.trans (hs'.codes _ e hmid)
      exact (h.kept type text o hbefore hmid).mono hs'.toExtends (hWV _)

theorem Links.mono (h : Links c jobOf W s s') (hWV : ∀ o m, W o m → V o m) : Links c jobOf V s s' where
  made node a hbefore ha type ht := (h.made node a hbefore ha type ht).mono (Extends.refl _) (hWV _)
  kept type text o hbefore ho := (h.kept type text o hbefore ho).mono (Extends.refl _) (hWV _)

/-- References that were tight stay so if no new one waits for what was made. -/
theorem Tight.mono (h : Tight c s type) (he : Preserves s s') (hlinks : Links c jobOf W s s')
    (hW : ∀ o m, W o m → Assoc.has s.store (Declared.input m).node = false) : Tight c s' type := by
  refine ⟨fun d hd => he.has (h.made d hd), fun hcached text o ho => ?_⟩
  rcases hlinks.entry hcached ho he with hstrong | ⟨m, hm, hw⟩ | ⟨-, text', o', ho', hc⟩
  · exact hstrong
  · have := h.made _ hm
    rw [hW o m hw] at this
    cases this
  · exact ((h.kept hcached text' o' ho').mono he.toExtends).of_covers hc

/-- A result of an origin refers to an input type that is being made or was made meanwhile, in the current file. -/
def Awaits (stack : Stack) (s s' : State) (o : Origin) (m : String) : Prop :=
  (m ∈ stack.inputs ∨ Fresh s s' m) ∧
    (s.tracker.enabled → s.tracker.currentFile ≠ "" → o.dependsOn s.tracker.currentFile)

/-- What input types that were made meanwhile hang on, and what their references wait for. -/
structure Grows (c : Setup) (jobOf : String → Option Job) (stack : Stack) (needs : List Need) (s s' : State) :
    Prop where
  hung : ∀ m, Fresh s s' m → ∃ n ∈ needs, n.Hangs c s' m
  links : Links c jobOf (Awaits stack s s') s s'

theorem upward_awaits : Upward s.tracker.enabled (Awaits stack s s') :=
  fun _ _ hc _ => And.imp_right fun h henabled hne => hc henabled _ hne (h henabled hne)

namespace Grows

/-- Nothing grows where nothing is made or kept. -/
theorem of_eq (hstore : s'.store = s.store) (hcodes : s'.inputs.entries = s.inputs.entries) :
    Grows c jobOf stack needs s s' where
  hung m h := by
    have := h.after
    rw [hstore, Assoc.has, h.before] at this
    cases this
  links := {
    made := fun node a hbefore ha => by
      rw [hstore, hbefore] at ha
      cases ha
    kept := fun type text o hbefore ho => by
      rw [hcodes, hbefore] at ho
      cases ho }

/-- What waits for something waits for what was not made. -/
theorem awaits_unmade (hunmade : ∀ m ∈ stack.inputs, Assoc.has s.store (Declared.input m).node = false) (o : Origin)
    (m : String) (h : Awaits stack s s' o m) : Assoc.has s.store (Declared.input m).node = false := by
  rcases h.1 with hm | hfresh
  · exact hunmade m hm
  · rw [Assoc.has, hfresh.before]
    rfl

theorem trans (h : Grows c jobOf stack needs s s') (h' : Grows c jobOf stack more s' s'') (hs : Preserves s s')
    (hs' : Preserves s' s'') (hfile : s'.tracker.currentFile = s.tracker.currentFile)
    (hunmade : ∀ m ∈ stack.inputs, Assoc.has s'.store (Declared.input m).node = false) :
    Grows c jobOf stack (needs ++ more) s s'' where
  hung m hm := by
    cases hmid : Assoc.get? s'.store (Declared.input m).node with
    | none =>
      obtain ⟨n, hn, hhangs⟩ := h'.hung m ⟨hmid, hm.after⟩
      exact ⟨n, List.mem_append_right _ hn, hhangs⟩
    | some a =>
      obtain ⟨n, hn, hhangs⟩ := h.hung m ⟨hm.before, by rw [Assoc.has, hmid]; rfl⟩
      exact ⟨n, List.mem_append_left _ hn,
        hhangs.mono hs'.toExtends fun type ht => ht.mono hs' h'.links (awaits_unmade hunmade)⟩
  links := by
    refine (h.links.trans (h'.links.mono fun o m hw => ?_) hs hs' upward_awaits fun o m hw => ?_)
    · exact ⟨hw.1.imp id fun hfresh => hfresh.of_extends hs.toExtends, hs.enabled ▸ hfile ▸ hw.2⟩
    · exact ⟨hw.1.imp id fun hfresh => hfresh.mono hs'.toExtends, hw.2⟩

/-- Only what was made and kept, the current file and whether dependencies are tracked matters. -/
theorem congr {t t' : State} (h : Grows c jobOf stack needs s s') (hstore : t.store = s.store)
    (hcodes : t.inputs.entries = s.inputs.entries) (hfile : t.tracker.currentFile = s.tracker.currentFile)
    (henabled : t.tracker.enabled = s.tracker.enabled) (hstore' : t'.store = s'.store)
    (hcodes' : t'.inputs.entries = s'.inputs.entries) (henabled' : t'.tracker.enabled = s'.tracker.enabled) :
    Grows c jobOf stack needs t t' := by
  have hs : Extends s' t' := ⟨henabled', hstore' ▸ fun _ _ h => h⟩
  have hfresh : ∀ m, Fresh t t' m ↔ Fresh s s' m := fun m =>
    ⟨fun h => ⟨hstore ▸ h.before, hstore' ▸ h.after⟩, fun h => ⟨hstore ▸ h.before, hstore' ▸ h.after⟩⟩
  have hW : ∀ o m, Awaits stack s s' o m → Awaits stack t t' o m := by
    rintro o m ⟨hm, hdep⟩
    exact ⟨hm.imp id (hfresh m).2, hfile ▸ henabled ▸ hdep⟩
  have hlink : ∀ o type, Link c (Awaits stack s s') s s' o type → Link c (Awaits stack t t') t t' o type := by
    intro o type hl
    rcases hl.mono hs (hW o) with h | h | ⟨hcached, text, o', ho', h⟩
    · exact Or.inl h
    · exact Or.inr (Or.inl h)
    · exact Or.inr (Or.inr ⟨hcached, text, o', hcodes ▸ ho', h⟩)
  refine ⟨fun m hm => ?_, fun node a hbefore ha type ht => ?_, fun type text o hbefore ho => ?_⟩
  · obtain ⟨n, hn, hh⟩ := h.hung m ((hfresh m).1 hm)
    refine ⟨n, hn, hh.mono hs fun type ht => ⟨fun d hd => hs.has (ht.made d hd), fun hcached text o ho => ?_⟩⟩
    exact (ht.kept hcached text o (hcodes' ▸ ho)).mono hs
  · exact hlink _ _ (h.links.made node a (hstore ▸ hbefore) (hstore' ▸ ha) type ht)
  · exact hlink _ _ (h.links.kept type text o (hcodes ▸ hbefore) (hcodes' ▸ ho))

/-! ### Type expressions -/

/-- What hangs on the type that a type expression refers to. -/
theorem hung_code {stack' : Stack} (h : Grows c jobOf stack' ((Need.code type).needs c.toSources) s s')
    (hm : Fresh s s' m) :
    ∃ k, Names c.toSources type k ∧ Assoc.has s'.store (Declared.input k).node ∧
      (k = m ∨ Firm c s' (.declared (.input k)) m) := by
  obtain ⟨n, hn, hhangs⟩ := h.hung m hm
  obtain ⟨d, rfl⟩ := declared_of_codePlan hn
  rcases hhangs with rfl | hfirm
  · exact ⟨m, hn, hm.after, Or.inl rfl⟩
  · obtain ⟨type', ht⟩ := hfirm.head
    obtain ⟨k, rfl⟩ := input_of_code_mem ht
    exact ⟨k, hn, hfirm.has rfl, Or.inr hfirm⟩

/-- What grows when a type expression is written that is not kept. -/
theorem code {stack' : Stack} (h : Grows c jobOf stack' ((Need.code type).needs c.toSources) s s')
    (hcached : c.cached = false) (hinputs : stack'.inputs = stack.inputs) :
    Grows c jobOf stack [.code type] s s' where
  hung m hm := by
    obtain ⟨k, hk, hhas, hfirm⟩ := hung_code h hm
    refine ⟨_, List.mem_singleton_self _, ⟨fun d hd => ?_, fun hc => ?_⟩, k, hk, hfirm⟩
    · rw [declared_unique hk hd]
      exact hhas
    · rw [hcached] at hc
      cases hc
  links := h.links.mono fun o m hw => ⟨hinputs ▸ hw.1, hw.2⟩

/-- What grows when a type expression is written and kept. -/
theorem keep {stack' : Stack} {s₂ : State} {text : String}
    (h : Grows c jobOf stack' ((Need.code type).needs c.toSources) s s₂) (hinputs : stack'.inputs = stack.inputs)
    (hunmade : ∀ m ∈ stack.inputs, Assoc.has s₂.store (Declared.input m).node = false)
    (hfile : o.file = s.tracker.currentFile)
    (hbacked : ∀ d, .declared d ∈ (Need.code type).needs c.toSources → (∀ m ∈ stack.inputs, d ≠ .input m) →
      Backed s₂ o d.node)
    (hstore : s'.store = s₂.store) (henabled : s'.tracker.enabled = s₂.tracker.enabled)
    (hcodes : ∀ type', Assoc.get? s'.inputs.entries type' =
      if type = type' then some (text, o) else Assoc.get? s₂.inputs.entries type') :
    Grows c jobOf stack [.code type] s s' := by
  have hs : Extends s₂ s' := ⟨henabled, hstore ▸ fun _ _ h => h⟩
  have hstrong : (∀ d, .declared d ∈ (Need.code type).needs c.toSources → Assoc.has s₂.store d.node) →
      Strong c.toSources s' o type := by
    refine fun hmade d hd => (hbacked d hd ?_).mono hs
    rintro m hm rfl
    have := hmade _ hd
    rw [hunmade m hm] at this
    cases this
  have htight : ∀ type', Tight c s₂ type' → Tight c s' type' := by
    refine fun type' ht => ⟨fun d hd => hs.has (ht.made d hd), fun hcached text' o' ho' => ?_⟩
    rw [hcodes] at ho'
    split at ho'
    · rename_i htype
      cases htype
      cases ho'
      exact hstrong ht.made
    · exact (ht.kept hcached text' o' ho').mono hs
  have hfresh : ∀ m, Fresh s s₂ m ↔ Fresh s s' m := fun m =>
    ⟨fun h => ⟨h.before, hstore ▸ h.after⟩, fun h => ⟨h.before, hstore ▸ h.after⟩⟩
  have hW : ∀ o m, Awaits stack' s s₂ o m → Awaits stack s s' o m :=
    fun o m hw => ⟨(hinputs ▸ hw.1).imp id (hfresh m).1, hw.2⟩
  refine ⟨fun m hm => ?_, fun node a hbefore ha type' ht => ?_, fun type' text' o' hbefore ho' => ?_⟩
  · obtain ⟨k, hk, hhas, hfirm⟩ := hung_code h ((hfresh m).2 hm)
    have hmade : ∀ d, .declared d ∈ (Need.code type).needs c.toSources → Assoc.has s₂.store d.node :=
      fun d hd => declared_unique hk hd ▸ hhas
    refine ⟨_, List.mem_singleton_self _, ⟨fun d hd => hs.has (hmade d hd), fun _ text' o' ho' => ?_⟩, k, hk,
      hfirm.imp id fun hfirm => hfirm.mono hs htight⟩
    rw [hcodes, if_pos rfl] at ho'
    cases ho'
    exact hstrong hmade
  · exact (h.links.made node a hbefore (hstore ▸ ha) type' ht).mono hs (hW _)
  · rw [hcodes] at ho'
    split at ho'
    · rename_i htype
      cases htype
      cases ho'
      by_cases hwait : ∃ m ∈ stack.inputs, Names c.toSources type m
      · obtain ⟨m, hm, hnames⟩ := hwait
        exact Or.inr (Or.inl ⟨m, hnames, Or.inl hm, fun _ _ => by simp [Origin.dependsOn, hfile]⟩)
      · refine Or.inl fun d hd => (hbacked d hd ?_).mono hs
        rintro m hm rfl
        exact hwait ⟨m, hm, hd⟩
    · exact (h.links.kept type' text' o' hbefore ho').mono hs (hW _)

end Grows

end Links

end ResponseTypes.Compile
