import ResponseTypes.Proofs.Plan.Operating
import ResponseTypes.Workspace

/-!
# Walking through a build

A build is put together from few kinds of steps: parts of the state are read and changed, plans carried out, artifacts made
and used again, scopes opened and closed.  `Sequential` : a property that reading and failing have, and sequences of steps that
have it.  `Rules` : the steps of builds have a property, and what is put together from steps that have it has it too.  Then
generating fragments and operations has it (`Rules.generator`, `Rules.generateJob`), and so has all that a build does
(`Rules.builds`).  `BuildRules` : a property that generating single fragments and operations has; then so has all that a build
does (`BuildRules.generateAll`).
-/

namespace ResponseTypes.Compile

set_option autoImplicit false

open GraphQL (Document Operation)

/-- A part of the state that is neither about dependencies nor about what was made before. -/
structure QuietPart {α : Type} (p : Part State α) : Prop where
  tracker : ∀ a s, (p.set a s).tracker = s.tracker
  store : ∀ a s, (p.set a s).store = s.store
  shapes : ∀ a s, (p.set a s).shapes = s.shapes
  inputs : ∀ a s, (p.set a s).inputs = s.inputs

/-- A part of the state that is not about the fields of fragments either. -/
structure SilentPart {α : Type} (p : Part State α) : Prop extends QuietPart p where
  fieldMaps : ∀ a s, (p.set a s).fieldMaps = s.fieldMaps

/-- A part of the state that is not about messages either. -/
structure MutePart {α : Type} (p : Part State α) : Prop extends SilentPart p where
  journal : ∀ a s, (p.set a s).journal = s.journal

theorem mutePart_counters : MutePart State.countersPart :=
  ⟨⟨⟨fun _ _ => rfl, fun _ _ => rfl, fun _ _ => rfl, fun _ _ => rfl⟩, fun _ _ => rfl⟩, fun _ _ => rfl⟩

theorem mutePart_fragmentMarks : MutePart State.fragmentMarksPart :=
  ⟨⟨⟨fun _ _ => rfl, fun _ _ => rfl, fun _ _ => rfl, fun _ _ => rfl⟩, fun _ _ => rfl⟩, fun _ _ => rfl⟩

theorem mutePart_inputMarks : MutePart State.inputMarksPart :=
  ⟨⟨⟨fun _ _ => rfl, fun _ _ => rfl, fun _ _ => rfl, fun _ _ => rfl⟩, fun _ _ => rfl⟩, fun _ _ => rfl⟩

theorem silentPart_journal : SilentPart (Journals.journal : Part State (List Message)) :=
  ⟨⟨fun _ _ => rfl, fun _ _ => rfl, fun _ _ => rfl, fun _ _ => rfl⟩, fun _ _ => rfl⟩

theorem quietPart_fieldMaps : QuietPart State.fieldMapsPart :=
  ⟨fun _ _ => rfl, fun _ _ => rfl, fun _ _ => rfl, fun _ _ => rfl⟩

/-- The ways in which types are declared.  An input type that is being made is recorded; another known one is made, and those
that it refers to are declared; all other types refer to tags at most. -/
theorem declare_rec {c : Setup} {H : List String → Declared → Step Unit → Prop}
    (marked : ∀ building n, n ∈ building →
      H building (.input n) (Tracking.add ⟨ArtifactKind.inputType.name, c.naming.input n⟩))
    (known : ∀ building n, n ∉ building → (∀ d, H (n :: building) d (declare c (n :: building) d)) →
      H building (.input n) (declareWith c (declare c (n :: building)) (.input n)))
    (flat : ∀ building d, (∀ n, d = .input n → n ∉ building ∧ c.schema.type? n = none) → H building d (declareFlat c d))
    (building : List String) (d : Declared) : H building d (declare c building d) := by
  induction building, d using declare.induct c with
  | case1 building n hb =>
    rw [declare, dif_pos hb]
    exact marked building n hb
  | case2 building n hb t ht ih =>
    rw [declare, dif_neg hb]
    split
    · exact known building n hb ih
    · rename_i hnone
      cases ht.symm.trans hnone
  | case3 building n hb ht =>
    rw [declare, dif_neg hb]
    split
    · rename_i ht'
      cases ht.symm.trans ht'
    · refine flat building (.input n) ?_
      rintro n ⟨⟩
      exact ⟨hb, ht⟩
  | case4 building d hd =>
    cases d with
    | input n => exact absurd rfl (hd n)
    | helper name | tag name | tagUnion name | enum name =>
      rw [declare]
      · exact flat building _ nofun
      · exact hd

/-! ## Sequences of steps -/

/-- A property of steps that reading and failing have, and a sequence of steps if each of them has it. -/
structure Sequential (H : ∀ {α : Type}, Step α → Prop) : Prop where
  pure : ∀ {α : Type} (a : α), H (pure a : Step α)
  fail : ∀ {α : Type} (e : Failure), H (Action.fail e : Step α)
  read : ∀ {α : Type} (p : Part State α), H p.read
  bind : ∀ {α β : Type} {act : Step α} {f : α → Step β}, H act → (∀ a, H (f a)) → H (act >>= f)

namespace Sequential

variable {H : ∀ {α : Type}, Step α → Prop} (h : Sequential H) {α β : Type}

include h

theorem currentFile : H (Tracking.currentFile : Step String) :=
  h.bind (h.read _) fun _ => h.pure _

theorem failHere (e : Option String → Failure) : H (Tracking.failHere e : Step α) :=
  h.bind h.currentFile fun _ => h.fail _

theorem keepFields (hmaps : ∀ f, H (State.fieldMapsPart.modify f)) (f : FragmentDef) (fields : Fields) :
    H (keepFields f fields) :=
  h.bind (h.read _) fun _ => hmaps _

theorem attributeFields (hmaps : ∀ f, H (State.fieldMapsPart.modify f)) (name : String) : H (attributeFields name) := by
  refine h.bind (h.read _) fun maps => h.bind (h.read _) fun store => ?_
  split
  · split
    · exact hmaps _
    · exact h.pure _
  · exact h.pure _

/-! ### Steps that the tracker is told of -/

theorem inScope {given : Option String} (hstart : H (Tracking.start given : Step Unit))
    (hfinish : H (Tracking.finish : Step (List String))) {act : Step α} (f : α → List String → β) (hact : H act) : H (do
      Tracking.start given
      let a ← act
      let keys ← Tracking.finish
      return f a keys) :=
  h.bind hstart fun _ => h.bind hact fun _ => h.bind hfinish fun _ => h.pure _

section Merging

variable (hmerge : ∀ keys file, H (Tracking.merge keys file : Step Unit))

include hmerge

theorem reuse (a : Artifact ArtifactKind) : H (Store.reuse a : Step String) :=
  h.bind (hmerge _ _) fun _ => h.pure _

theorem fragmentInProgress (name : String) : H (fragmentInProgress name) := by
  refine h.bind (h.read _) fun store => ?_
  split
  · exact h.failHere _
  · exact h.reuse hmerge _

theorem memoized {κ : Type} [DecidableEq κ] {memo : Part State (Memo κ α)} (hmemo : ∀ f, H (memo.modify f))
    (hstart : H (Tracking.start none : Step Unit)) (hfinish : H (Tracking.finish : Step (List String))) (enabled : Bool)
    (key : κ) {compute : Step α} (hcompute : H compute) : H (Memo.memoized memo enabled key compute) := by
  unfold Memo.memoized
  split
  · exact hcompute
  · refine h.bind (h.read memo) fun m => ?_
    split
    · exact h.bind (hmemo _) fun _ => h.bind (hmerge _ _) fun _ => h.pure _
    · refine h.bind (hmemo _) fun _ => h.bind hstart fun _ => h.bind h.currentFile fun file => ?_
      exact h.bind hcompute fun a => h.bind hfinish fun keys => h.bind (hmemo _) fun _ => h.pure a

end Merging

end Sequential

/-! ## Builds -/

/-- A property of steps that generating single fragments and operations has, and what is put together from steps that have
it. -/
structure BuildRules (c : Setup) (H : ∀ {α : Type}, Step α → Prop) : Prop where
  pure : ∀ {α : Type} (a : α), H (pure a : Step α)
  fail : ∀ {α : Type} (e : Failure), H (Action.fail e : Step α)
  bind : ∀ {α β : Type} {act : Step α} {f : α → Step β}, H act → (∀ a, H (f a)) → H (act >>= f)
  read : ∀ {α : Type} (p : Part State α), H p.read
  modify : ∀ {α : Type} {p : Part State α}, MutePart p → ∀ f, H (p.modify f)
  skipped : ∀ (op : Operation) (file : String), H (note .debug ("Skipping anonymous " ++ op.kind.name ++ " in " ++ file))
  inScope : ∀ {α β : Type} (given : Option String) {act : Step α} (f : α → List String → β), H act → H (do
    Tracking.start given
    let a ← act
    let keys ← Tracking.finish
    return f a keys)
  fragment : ∀ name, H (generator c name)
  operation : ∀ {j : Job}, Known c.toConfig j.root → H (generateJob c j)

namespace BuildRules

variable {c : Setup} {H : ∀ {α : Type}, Step α → Prop} (h : BuildRules c H) {α β : Type}

include h

theorem forM {l : List α} {f : α → Step Unit} (hf : ∀ a, H (f a)) : H (l.forM f) := by
  induction l with
  | nil => exact h.pure ()
  | cons a l ih => exact h.bind (hf a) fun _ => ih

theorem foldlM {l : List α} {f : β → α → Step β} (hf : ∀ b a, H (f b a)) (b : β) : H (l.foldlM f b) := by
  induction l generalizing b with
  | nil => exact h.pure b
  | cons a l ih => exact h.bind (hf b a) ih

theorem generateOperation (op : Operation) (file : String) : H (generateOperation c op file) := by
  unfold Compile.generateOperation
  split
  · exact h.bind (h.skipped op file) fun _ => h.pure _
  · split
    · exact h.fail _
    · rename_i root hroot
      exact h.bind (h.operation (known_root hroot)) fun _ => h.pure _

theorem collectOperation (file : String) (operations : Assoc String CollectedOperation) (op : Operation) :
    H (Workspace.collectOperation c file operations op) := by
  refine h.bind (h.generateOperation op file) fun collected => ?_
  split <;> exact h.pure _

theorem collectOperations (file : String) (ops : List Operation) (operations : Assoc String CollectedOperation) :
    H (ops.foldlM (Workspace.collectOperation c file) operations) :=
  h.foldlM (h.collectOperation file) operations

theorem generateFragments (documents : Assoc String Document) : H (Workspace.generateFragments c documents) :=
  h.forM fun e => h.inScope (some e.1) (fun _ _ => ()) (h.forM fun f => h.fragment f.name)

theorem generateOperations (documents : Assoc String Document) (operations : Assoc String CollectedOperation) :
    H (Workspace.generateOperations c documents operations) := by
  refine h.foldlM (fun operations e => ?_) operations
  have hdiscard : Functor.discard (Tracking.finish : Step (List String)) = Tracking.finish >>= fun _ => Pure.pure () := rfl
  simpa only [hdiscard, bind_assoc, pure_bind] using
    h.inScope (some e.1) (fun operations _ => operations) (h.collectOperations e.1 e.2.operations operations)

/-- What generating fragments and operations has is true of a whole build. -/
theorem generateAll (skipUnused : Bool) (documents : Assoc String Document) (operations : Assoc String CollectedOperation) :
    H (Workspace.generateAll c skipUnused documents operations) := by
  have hlast : H (Workspace.generateOperations c documents operations >>= fun after =>
      Tracks.tracker.read >>= fun tracker =>
        if tracker.hasOpenScope then Action.fail (.scopesLeftOpen (some tracker.currentFile)) else Pure.pure after) := by
    refine h.bind (h.generateOperations documents operations) fun after => h.bind (h.read _) fun tracker => ?_
    split
    · exact h.fail _
    · exact h.pure _
  unfold Workspace.generateAll
  split
  · exact h.bind (h.generateFragments documents) fun _ => hlast
  · exact hlast

end BuildRules

/-! ## Steps of builds -/

/-- A property of steps that are taken while some artifacts are being made: the steps that a build consists of have it, and
what is put together from steps that have it. -/
structure Rules (c : Setup) (H : ∀ {α : Type}, List Node → Step α → Prop) : Prop where
  pure : ∀ {α : Type} (stack : List Node) (a : α), H stack (pure a : Step α)
  fail : ∀ {α : Type} (stack : List Node) (e : Failure), H stack (Action.fail e : Step α)
  failHere : ∀ {α : Type} (stack : List Node) (e : Option String → Failure), H stack (Tracking.failHere e : Step α)
  bind : ∀ {α β : Type} {stack : List Node} {act : Step α} {f : α → Step β},
    H stack act → (∀ a, H stack (f a)) → H stack (act >>= f)
  read : ∀ {α : Type} (stack : List Node) (p : Part State α), H stack p.read
  modify : ∀ {α : Type} (stack : List Node) {p : Part State α}, MutePart p → ∀ f, H stack (p.modify f)
  skipped : ∀ (stack : List Node) (op : Operation) (file : String),
    H stack (note .debug ("Skipping anonymous " ++ op.kind.name ++ " in " ++ file))
  keepFields : ∀ {stack : List Node} {name : String} {f : FragmentDef}, Assoc.get? c.fragments name = some f →
    fragmentNode name ∈ stack → ∀ fields, H stack (keepFields f fields)
  attributeFields : ∀ (stack : List Node) (name : String), H stack (attributeFields name)
  inScope : ∀ {α β : Type} {stack : List Node} (given : Option String) {act : Step α} (f : α → List String → β),
    H stack act → H stack (do
      Tracking.start given
      let a ← act
      let keys ← Tracking.finish
      return f a keys)
  artifact : ∀ {stack : List Node} {kind : ArtifactKind} {key : String} (given : Option String) {build : Step Draft},
    (kind, key) ∉ stack → H ((kind, key) :: stack) build → H stack (artifact kind key given build)
  marking : ∀ {α : Type} {stack : List Node} {marks : Part State (List String)}, MutePart marks → ∀ (name : String)
    {act : Step α}, H stack act → H stack (marking marks name act)
  again : ∀ (stack : List Node) (name : String), H stack (fragmentInProgress name)
  perform : ∀ {α : Type} {stack : List Node} {generate : Generator} {p : Plan α}, (∀ d : Declared, d.node ∉ stack) →
    (∀ name, H stack (generate name)) → p.Keeps c.toSources ∨ p.Codes →
    H stack (p.perform c.cached (host c (useFragment c generate)))

/-- Neither types nor fragments are being made when the types of an operation are. -/
theorem Node.Outer.alone {node : Node} (hnode : node.Outer) :
    (∀ d : Declared, d.node ∉ [node]) ∧ ∀ name, fragmentNode name ∉ [node] := by
  refine ⟨fun d hd => ?_, fun n hn => ?_⟩
  · rw [← List.mem_singleton.1 hd] at hnode
    cases d <;> simp [Node.Outer, Declared.node, Declared.kind] at hnode
  · rw [← List.mem_singleton.1 hn] at hnode
    simp [Node.Outer, fragmentNode] at hnode

namespace Rules

variable {c : Setup} {H : ∀ {α : Type}, List Node → Step α → Prop} (h : Rules c H) {stack : List Node} {α β : Type}

include h

theorem discard {act : Step α} (hact : H stack act) : H stack (Functor.discard act) :=
  h.bind hact fun _ => h.pure stack ()

theorem query {fieldsOf : String → Step Fields} (hfields : ∀ name, H stack (fieldsOf name)) (q : Query α) :
    H stack (q.perform fieldsOf) := by
  induction q with
  | done a => exact h.pure stack a
  | lack e => exact h.failHere stack e
  | fields name next ih => exact h.bind (hfields name) ih

/-! ## Fragments -/

section Fragments

variable {generate : Generator} (hgenerate : ∀ name, H stack (generate name))

include hgenerate

theorem fragmentFields (name : String) : H stack (fragmentFields generate name) := by
  refine h.bind (hgenerate name) fun _ => h.bind (h.read stack _) fun maps => ?_
  split
  · exact h.pure stack _
  · exact h.failHere stack _

theorem finishShape (s : Shape) : H stack (finish generate s) :=
  h.bind (h.read stack _) fun _ => h.query (h.fragmentFields hgenerate) _

theorem buildFragment (hstack : ∀ d : Declared, d.node ∉ stack) {name : String} {f : FragmentDef}
    (hf : Assoc.get? c.fragments name = some f) (hname : fragmentNode name ∈ stack) :
    H stack (buildFragment c f generate) := by
  refine h.bind (h.perform hstack hgenerate (Or.inl (keeps_fragmentPlan f))) fun s => ?_
  refine h.bind (h.query (h.fragmentFields hgenerate) _) fun fields => ?_
  exact h.bind (h.keepFields hf hname fields) fun _ => h.bind (h.finishShape hgenerate s) fun _ => h.pure stack _

end Fragments

theorem attributing (name : String) {act : Step String} (hact : H stack act) : H stack (attributing name act) :=
  h.bind hact fun _ => h.bind (h.attributeFields stack name) fun _ => h.pure stack _

/-- A fragment that is being generated is not generated again, so no artifact is made while it is being made. -/
theorem generateFragment (building : List String) (name : String) (hstack : ∀ d : Declared, d.node ∉ stack)
    (hbuilding : ∀ n, fragmentNode n ∈ stack → n ∈ building) : H stack (generateFragment c building name) := by
  induction building, name using generateFragment.induct c generalizing stack with
  | case1 building name hf =>
    rw [Compile.generateFragment]
    split
    · exact h.failHere stack _
    · rename_i hf'
      cases hf.symm.trans hf'
  | case2 building name f hf ih =>
    rw [Compile.generateFragment]
    split
    · exact h.failHere stack _
    · rename_i f' hf'
      refine h.attributing name ?_
      split
      · exact h.again stack name
      · rename_i hb
        have hstack' : ∀ d : Declared, d.node ∉ fragmentNode name :: stack := by
          intro d hd
          rcases List.mem_cons.1 hd with heq | hd
          · exact Declared.node_ne_fragment d name heq
          · exact hstack d hd
        refine h.artifact _ (fun hmem => hb (hbuilding name hmem)) (h.marking mutePart_fragmentMarks name ?_)
        refine h.buildFragment (fun other => ?_) hstack' hf' List.mem_cons_self
        refine h.discard (ih hb other hstack' fun n hn => ?_)
        rcases List.mem_cons.1 hn with heq | hn
        · cases heq
          exact List.mem_cons_self
        · exact List.mem_cons_of_mem name (hbuilding n hn)

theorem generator (hstack : ∀ d : Declared, d.node ∉ stack) (hnone : ∀ n, fragmentNode n ∉ stack) (name : String) :
    H stack (generator c name) :=
  h.discard (h.generateFragment [] name hstack fun n hn => absurd hn (hnone n))

/-! ## Operations -/

theorem buildOperation {j : Job} (hj : Known c.toConfig j.root) : H [(.operation, j.name)] (buildOperation c j) := by
  have houter : Node.Outer (.operation, j.name) := Or.inl rfl
  obtain ⟨hdeclared, hfragment⟩ := houter.alone
  have hgenerator := h.generator hdeclared hfragment
  refine h.bind (h.modify _ mutePart_counters _) fun _ => ?_
  refine h.bind (h.perform hdeclared hgenerator (Or.inr codes_ensureHelpers)) fun _ => ?_
  refine h.bind ?_ fun _ => h.pure _ _
  refine h.bind (h.perform hdeclared hgenerator (Or.inl (keeps_operationPlan j.op hj))) fun s => ?_
  exact h.finishShape hgenerator s

theorem buildVariables (j : Job) : H [(.operationVariables, j.name)] (buildVariables c j) := by
  have houter : Node.Outer (.operationVariables, j.name) := Or.inr rfl
  obtain ⟨hdeclared, hfragment⟩ := houter.alone
  exact h.perform hdeclared (h.generator hdeclared hfragment) (Or.inr (codes_variablesPlan j))

theorem generateJob {j : Job} (hj : Known c.toConfig j.root) : H [] (generateJob c j) := by
  have hboth : H [] (do
      let _ ← Compile.artifact .operation j.name none (Compile.buildOperation c j)
      Compile.artifact .operationVariables j.name none (Compile.buildVariables c j)) :=
    h.bind (h.artifact none List.not_mem_nil (h.buildOperation hj)) fun _ =>
      h.artifact none List.not_mem_nil (h.buildVariables j)
  have hscope := h.inScope none (fun _ keys => collected c.toConfig j keys) hboth
  simp only [bind_assoc] at hscope
  exact hscope

/-- What all steps of a build have is true of builds. -/
theorem builds : BuildRules c fun act => H [] act where
  pure a := h.pure [] a
  fail e := h.fail [] e
  bind := h.bind
  read p := h.read [] p
  modify hp f := h.modify [] hp f
  skipped := h.skipped []
  inScope := h.inScope
  fragment name := h.generator (fun _ => List.not_mem_nil) (fun _ => List.not_mem_nil) name
  operation := h.generateJob

end Rules

end ResponseTypes.Compile
