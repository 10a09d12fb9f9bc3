import ResponseTypes.Proofs.Plan.Growth

/-!
# Effects

`Effect` : what carrying out a plan leaves as it was, what it records, and what grows meanwhile.
-/

namespace ResponseTypes.Compile

set_option autoImplicit false

open GraphQL (TypeRef)

/-! ## What scopes have recorded -/

/-- All open scopes have recorded what something of an origin depends on, if dependencies are tracked. -/
def Recorded (s : State) (o : Origin) : Prop :=
  s.tracker.enabled → ∀ scope ∈ s.tracker.scopes, scope.Covers o

/-- An artifact was made, and all open scopes have recorded what it depends on. -/
def NodeRecorded (s : State) (node : Node) : Prop :=
  ∃ a, Assoc.get? s.store node = some a ∧ Recorded s a.origin

/-- A declared type was made and recorded, unless it is an input type that is being made. -/
def DeclaredRecorded (stack : Stack) (s : State) (d : Declared) : Prop :=
  (∃ n ∈ stack.inputs, d = .input n) ∨ NodeRecorded s d.node

/-- What is needed was made and recorded. -/
def Need.Recorded (c : Setup) (stack : Stack) (s : State) : Need → Prop
  | declared d => DeclaredRecorded stack s d
  | code type =>
    (c.cached ∧ ∃ text o, Assoc.get? s.inputs.entries type = some (text, o) ∧ Compile.Recorded s o) ∨
      ∀ d, .declared d ∈ (Need.code type).needs c.toSources → DeclaredRecorded stack s d
  | fragment name => NodeRecorded s (fragmentNode name)
  | operation j => NodeRecorded s (operationNode j.name)
  | arguments j => NodeRecorded s (variablesNode j.name)

section Recorded

variable {c : Setup} {stack : Stack} {s s' : State} {n : Need} {node : Node} {o o' : Origin}

theorem Recorded.of_covers (h : Recorded s o) (hc : s.tracker.enabled → Covers o o') : Recorded s o' :=
  fun henabled scope hscope file hne hdep => h henabled scope hscope file hne (hc henabled file hne hdep)

theorem Recorded.mono {U : String → Prop} (h : Recorded s o) (hm : s.tracker.Moves U s'.tracker) : Recorded s' o :=
  fun henabled => hm.noted.covers (h (hm.enabled ▸ henabled))

theorem Need.Backed.recorded (h : n.Backed s o) (he : Extends s s') (ho : Compile.Recorded s' o) :
    n.Recorded c stack s' := by
  cases n with
  | declared d =>
    obtain ⟨a, ha, hc⟩ := h
    exact Or.inr ⟨a, he.store _ a ha, ho.of_covers fun henabled => hc (he.enabled ▸ henabled)⟩
  | fragment name =>
    obtain ⟨a, ha, hc⟩ := h
    exact ⟨a, he.store _ a ha, ho.of_covers fun henabled => hc (he.enabled ▸ henabled)⟩
  | code type | operation j | arguments j => exact h.elim

/-- What was recorded stays so while artifacts and results are kept and what scopes have recorded. -/
theorem Need.Recorded.imp (h : n.Recorded c stack s) (he : Preserves s s')
    (hr : ∀ o, Compile.Recorded s o → Compile.Recorded s' o) : n.Recorded c stack s' := by
  have hnode : ∀ node, NodeRecorded s node → NodeRecorded s' node := by
    rintro node ⟨a, ha, ho⟩
    exact ⟨a, he.store _ a ha, hr _ ho⟩
  have hdeclared : ∀ d, DeclaredRecorded stack s d → DeclaredRecorded stack s' d :=
    fun d => Or.imp id (hnode d.node)
  cases n with
  | declared d => exact hdeclared d h
  | code type =>
    refine Or.imp ?_ (fun h d hd => hdeclared d (h d hd)) h
    rintro ⟨hcached, text, o, ho, hrec⟩
    exact ⟨hcached, text, o, he.codes type _ ho, hr o hrec⟩
  | fragment name | operation j | arguments j => exact hnode _ h

theorem Need.recorded_of_node (hn : n.node? = some node) (h : NodeRecorded s node) : n.Recorded c stack s := by
  cases n with
  | declared d =>
    cases hn
    exact Or.inr h
  | code type => cases hn
  | fragment name | operation j | arguments j =>
    cases hn
    exact h

theorem Need.node_of_recorded (hn : n.node? = some node) (hd : ∀ m ∈ stack.inputs, n ≠ .declared (.input m))
    (h : n.Recorded c stack s) : NodeRecorded s node := by
  cases n with
  | declared d =>
    cases hn
    refine Or.resolve_left h ?_
    rintro ⟨m, hm, rfl⟩
    exact hd m hm rfl
  | code type => cases hn
  | fragment name | operation j | arguments j =>
    cases hn
    exact h

end Recorded

/-! ## Effects -/

/-- The second state is the first after needs were met, with the use of the fragments in `U`. -/
structure Effect (c : Setup) (jobOf : String → Option Job) (stack : Stack) (U : String → Prop) (needs : List Need)
    (s s' : State) : Prop where
  moves : s.tracker.Moves U s'.tracker
  kept : Preserves s s'
  recorded : ∀ n ∈ needs, n.Recorded c stack s'
  grows : c.schema.OutputTyped → Grows c jobOf stack needs s s'

namespace Effect

variable {c : Setup} {jobOf : String → Option Job} {stack : Stack} {U V : String → Prop}
  {needs more : List Need} {s s' s'' : State}

/-- What was made and kept stays as it is. -/
theorem of_eq (hmoves : s.tracker.Moves U s'.tracker) (hstore : s'.store = s.store)
    (hcodes : s'.inputs.entries = s.inputs.entries) (hrecorded : ∀ n ∈ needs, n.Recorded c stack s') :
    Effect c jobOf stack U needs s s' :=
  ⟨hmoves, ⟨⟨hmoves.enabled, hstore ▸ fun _ _ h => h⟩, hcodes ▸ fun _ _ h => h⟩, hrecorded,
    fun _ => .of_eq hstore hcodes⟩

theorem refl (s : State) : Effect c jobOf stack (fun _ => False) [] s s :=
  of_eq (Tracker.Moves.refl _) rfl rfl fun _ hn => absurd hn List.not_mem_nil

theorem trans (h : Effect c jobOf stack U needs s s') (h' : Effect c jobOf stack V more s' s'')
    (hunmade : ∀ m ∈ stack.inputs, Assoc.has s'.store (Declared.input m).node = false) :
    Effect c jobOf stack (fun f => U f ∨ V f) (needs ++ more) s s'' where
  moves := h.moves.trans h'.moves
  kept := h.kept.trans h'.kept
  recorded n hn := by
    rcases List.mem_append.1 hn with hn | hn
    · exact (h.recorded n hn).imp h'.kept fun _ hr => hr.mono h'.moves
    · exact h'.recorded n hn
  grows hout := (h.grows hout).trans (h'.grows hout) h.kept h'.kept h.moves.file hunmade

theorem mono (h : Effect c jobOf stack U needs s s') (hU : ∀ f, U f ↔ V f) : Effect c jobOf stack V needs s s' :=
  { h with moves := h.moves.mono hU }

/-- Neither counts nor marks nor messages matter. -/
theorem congr {t t' : State} (h : Effect c jobOf stack U needs s s') (hs : s.Alike t) (hs' : s'.Alike t') :
    Effect c jobOf stack U needs t t' where
  moves := hs.tracker ▸ hs'.tracker ▸ h.moves
  kept := by
    refine ⟨⟨?_, ?_⟩, ?_⟩
    · rw [hs'.tracker, hs.tracker]
      exact h.kept.enabled
    · rw [hs'.store, hs.store]
      exact h.kept.store
    · rw [hs'.inputs, hs.inputs]
      exact h.kept.codes
  recorded n hn := by
    refine (h.recorded n hn).imp ⟨⟨congrArg _ hs'.tracker, hs'.store ▸ fun _ _ h => h⟩, hs'.inputs ▸ fun _ _ h => h⟩ ?_
    intro o ho
    rw [Recorded, hs'.tracker]
    exact ho
  grows hout := (h.grows hout).congr hs.store (congrArg _ hs.inputs) (congrArg _ hs.tracker) (congrArg _ hs.tracker)
    hs'.store (congrArg _ hs'.inputs) (congrArg _ hs'.tracker)

/-- What was needed is backed by what was made meanwhile. -/
theorem node_backed {o : Origin} {n : Need} {node : Node} (h : Effect c jobOf stack U needs s s')
    (hc : ∀ o', s'.tracker.enabled → Recorded s' o' → Covers o o') (hmem : n ∈ needs) (hn : n.node? = some node)
    (hi : ∀ m ∈ stack.inputs, n ≠ .declared (.input m)) : Backed s' o node := by
  obtain ⟨a, ha, hr⟩ := Need.node_of_recorded hn hi (h.recorded n hmem)
  exact ⟨a, ha, fun henabled => hc _ henabled hr⟩

/-- Declared types and fragments that were needed are backed by what was made meanwhile. -/
theorem selected_backed {o : Origin} (h : Effect c jobOf stack U needs s s')
    (hc : ∀ o', s'.tracker.enabled → Recorded s' o' → Covers o o')
    (hinputs : ∀ m, .declared (.input m) ∈ needs → stack.inputs = []) :
    ∀ n ∈ needs, n.Selected → n.Backed s' o := by
  intro n hn hsel
  have hi : ∀ m ∈ stack.inputs, n ≠ .declared (.input m) := by
    rintro m hm rfl
    simp [hinputs m hn] at hm
  cases n with
  | declared d => exact h.node_backed hc hn rfl hi
  | fragment name => exact h.node_backed hc hn rfl hi
  | code type | operation j | arguments j => exact hsel.elim

end Effect

end ResponseTypes.Compile
