import ResponseTypes.Proofs.Plan.Generating
import ResponseTypes.Compile.Operation

/-!
# Generating operations

Generating the types of an operation does what a run does (`follows_generateJob`).
-/

namespace ResponseTypes.Compile

set_option autoImplicit false

open GraphQL (Operation Selection TypeDef TypeRef)
open Dependency (fragmentsUsed)
open Shape (RefsIn FieldRefsIn)

section Plans

variable {c : Sources}

theorem keeps_inlineRoot (root : String) (inside : List String) (sels : List Selection) :
    (inlineRoot c root inside sels).Keeps c := by
  match sels with
  | [] =>
    rw [inlineRoot]
    trivial
  | .spread name directives :: rest =>
    rw [inlineRoot]
    intro f hf
    split
    · trivial
    · rename_i f' hf'
      split
      · split
        · trivial
        · rename_i hi
          have hless := remaining_cons_lt (Assoc.mem_keys_of_get? hf') hi
          refine Plan.keeps_bind (keeps_inlineRoot root (name :: inside) f'.fragment.selections) fun _ _ => ?_
          exact Plan.keeps_bind (keeps_inlineRoot root inside rest) fun _ _ => trivial
      · exact Plan.keeps_bind (keeps_inlineRoot root inside rest) fun _ _ => trivial
  | .field head below :: rest =>
    rw [inlineRoot]
    · exact Plan.keeps_bind (keeps_inlineRoot root inside rest) fun _ _ => trivial
    · exact fun _ _ => Selection.noConfusion
  | .inline condition directives below :: rest =>
    rw [inlineRoot]
    · exact Plan.keeps_bind (keeps_inlineRoot root inside rest) fun _ _ => trivial
    · exact fun _ _ => Selection.noConfusion
termination_by (remaining (Assoc.keys c.fragments) inside, sizeOf sels)
decreasing_by
  all_goals first
    | exact Prod.Lex.left _ _ (by assumption)
    | exact Prod.Lex.right _ (by simp only [List.cons.sizeOf_spec]; omega)

theorem keeps_operationPlan (op : Operation) {root : TypeDef} (hroot : Known c.toConfig root) :
    (operationPlan c op root).Keeps c := by
  refine Plan.keeps_bind (keeps_inlineRoot root.name [] op.selections) fun sels _ => ?_
  exact Plan.keeps_bind (selection_keeps root sels hroot) fun _ _ => trivial

end Plans

/-! ## Inner needs -/

section Inner

variable {c : Sources} {late : TypeRef → Prop} {stack : Stack}

/-- The node is one of an operation. -/
def Node.Outer (node : Node) : Prop :=
  node.1 = .operation ∨ node.1 = .operationVariables

theorem Need.Inner.not_outer {n : Need} {node : Node} (h : n.Inner) (hn : n.node? = some node) : ¬node.Outer := by
  cases n with
  | declared d =>
    cases hn
    cases d <;> simp [Node.Outer, Declared.node, Declared.kind]
  | fragment name =>
    cases hn
    simp [Node.Outer, fragmentNode]
  | code type => cases hn
  | operation j | arguments j => exact h.elim

/-- What plans need brings no operations. -/
theorem Run.get?_outer {file : String} {p p' : Progress} {needs : List Need}
    (h : Run c late stack file p needs (.ok p')) (hneeds : ∀ n ∈ needs, n.Inner) (node : Node) (hnode : node.Outer) :
    Assoc.get? p' node = Assoc.get? p node := by
  generalize ho : Except.ok p' = o at h
  induction h generalizing p' with
  | nil =>
    cases ho
    rfl
  | later _ _ ih | settled _ _ ih => exact ih (List.forall_mem_cons.1 hneeds).2 ho
  | circular | broken | lacking => cases ho
  | @built _ _ p p₁ p₂ n _ _ _ _ _ hcomplete _ ihn ih =>
    rw [ih (List.forall_mem_cons.1 hneeds).2 ho, ← ihn (Need.inner_needs n) rfl]
    rcases Need.complete_eq hcomplete with ⟨-, rfl⟩ | ⟨node', piece, hn, -, rfl⟩
    · rfl
    · cases hp : Assoc.get? p₁ node with
      | none =>
        rw [Assoc.get?_append_right hp, Assoc.get?_cons, if_neg]
        · rfl
        · rintro rfl
          exact (List.forall_mem_cons.1 hneeds).1.not_outer hn hnode
      | some piece => exact Assoc.get?_append_left hp

end Inner

section Operations

variable {c : Setup} {late : TypeRef → Prop} {jobOf : String → Option Job} {stack : Stack}

/-- Compiles what is selected in an operation. -/
def selectOperation (c : Setup) (j : Job) : Step Shape := do
  count "operations"
  (ensureHelpers c.toConfig).perform c.cached (host c (useFragment c (generator c)))
  (operationPlan c.toSources j.op j.root).perform c.cached (host c (useFragment c (generator c)))

theorem runOn_buildOperation (j : Job) (s : State) :
    (buildOperation c j).runOn s = (selectOperation c j >>= fun shape => do
      return operationDraft c.toConfig j (← finish (generator c) shape) : Step Draft).runOn s := by
  simp only [buildOperation, operationShape, selectOperation, bind_assoc]

theorem needOf_operation {j : Job} (h : jobOf j.name = some j) :
    needOf jobOf (operationNode j.name) = some (.operation j) := by
  simp only [operationNode, needOf, h, Option.map_some]

theorem needOf_variables {j : Job} (h : jobOf j.name = some j) :
    needOf jobOf (variablesNode j.name) = some (.arguments j) := by
  simp only [variablesNode, needOf, h, Option.map_some]

/-- The variables of an operation spread nothing. -/
theorem spreadsOf_variables {c : Sources} (name : String) : spreadsOf c jobOf (variablesNode name) = [] := by
  simp only [spreadsOf, needsAt, variablesNode, needOf]
  cases jobOf name with
  | none => rfl
  | some j => exact fragmentsIn_of_codes (codes_variablesPlan j)

/-- Building the response of an operation does what its run does. -/
theorem builds_operation (hc : c.toSources.Named) {j : Job} (hroot : Known c.toConfig j.root)
    (hinputs : stack.inputs = []) (hfragments : stack.fragments = [])
    (hjob : jobOf j.name = some j) :
    Builds c late jobOf stack (.operation j) (operationNode j.name) (buildOperation c j) := by
  have hgenerate : ∀ name f, Assoc.get? c.fragments name = some f →
      Follows c late jobOf stack (generator c name) [.fragment name] (fun _ => .ok ())
        (Reached c.toSources (spreadsOf c.toSources jobOf (fragmentNode name))) :=
    fun name f hf => follows_generateFragment hc [] hf hfragments hinputs
  intro s hs hget
  have hfirst : Follows c late jobOf stack (selectOperation c j) ((Need.operation j).needs c.toSources)
      (fun _ => (operationPlan c.toSources j.op j.root).outcome c.toSources)
      (Reached c.toSources (fragmentsIn ((Need.operation j).needs c.toSources))) := by
    have hhelpers := follows_select keeps_ensureHelpers hinputs hgenerate
    rw [outcome_ensureHelpers] at hhelpers
    have hplan := follows_select (keeps_operationPlan j.op hroot) hinputs hgenerate
    refine ((follows_count "operations").bind (f := fun _ => _ >>= fun _ => _) (hhelpers.bind hplan)).mono fun f => ?_
    rw [Need.needs, fragmentsIn_append, Reached.append, false_or]
  rcases hfirst s hs with ⟨e, hr, he⟩ | ⟨p, hr, hrun⟩
  · obtain ⟨s', he⟩ := runOn_eq_of_fst he
    exact Or.inl ⟨e, hr, by rw [runOn_buildOperation, runOn_bind, he]⟩
  · refine Or.inr ⟨p, hr, ?_⟩
    simp only [Need.complete]
    cases hout : (operationPlan c.toSources j.op j.root).outcome c.toSources with
    | error e =>
      rw [hout] at hrun
      obtain ⟨s', he⟩ := runOn_eq_of_fst hrun
      simp only [bind, Except.bind]
      rw [runOn_buildOperation, runOn_bind, he]
    | ok shape =>
      rw [hout] at hrun
      obtain ⟨s₁, hrun, rfl, hg, heff⟩ := hrun
      have hknown : ∀ name, .fragment name ∈ (Need.operation j).needs c.toSources →
          ∃ f, Assoc.get? c.fragments name = some f := by
        intro name hname
        rcases List.mem_append.1 hname with hname | hname
        · exact Plan.fragment_known hname
        · exact Plan.fragment_known hname
      have hready := hr.ready hknown
      have hrefs : shape.RefsIn (c.leaves (Deep c.toSources ((Need.operation j).needs c.toSources))) :=
        (refsIn_operationPlan hc hout).mono
          (Config.leaves_le fun _ hn => Or.inl (List.mem_append_right _ hn)) shape
      have hfinish : Answered c.toSources late jobOf stack _ s₁ (finish (generator c) shape)
          (finished s₁.progress shape) := runOn_finishShape (reuses_generateFragment []) hg hready hrefs
      have hunmade : Assoc.get? s₁.store (operationNode j.name) = none := by
        have := hr.get?_outer (Need.inner_needs _) (operationNode j.name) (Or.inl rfl)
        rw [get?_progress, get?_progress, hget] at this
        exact Option.map_eq_none_iff.1 this
      simp only [bind, Except.bind]
      rw [runOn_buildOperation, runOn_bind, hrun]
      dsimp only
      rw [runOn_bind]
      cases hfinished : finished s₁.progress shape with
      | error e =>
        rw [hfinished, Answered] at hfinish
        obtain ⟨s', he⟩ := runOn_eq_of_fst hfinish
        dsimp only
        rw [he, heff.moves.file]
      | ok a =>
        rw [hfinished] at hfinish
        obtain ⟨s₂, hrun₂, hread⟩ := hfinish
        refine ⟨operationDraft c.toConfig j a, s₂, ?_, hread.progress, rfl, hread.good, ?_, ?_,
          fun name m hname => (by cases hname), fun name hname => ?_⟩
        · rw [hrun₂]
          rfl
        · rw [spreadsOf, needsAt_eq (needOf_operation hjob)]
          exact hread.effect heff
        · rw [hread.store]
          exact hunmade
        · cases hname

/-- Building the variables of an operation does what its run does. -/
theorem builds_variables {j : Job} (hinputs : stack.inputs = []) :
    Builds c late jobOf stack (.arguments j) (variablesNode j.name) (buildVariables c j) := by
  intro s hs hget
  have hcodes : (variablesPlan c.toConfig j).Codes := codes_variablesPlan j
  have hanswers : ∀ n ∈ (variablesPlan c.toConfig j).needs c.toSources,
      Answers c late jobOf stack (host c (useFragment c (generator c))) n := by
    intro n hn
    have hinner : Answers c late jobOf stack (inputHost c (declare c [])) n :=
      answers_inputHost (Plan.coded_of_codes hcodes) (fun d _ codes => follows_declare [] d hinputs) n hn
    rcases Plan.coded_of_codes hcodes n hn with ⟨d, rfl⟩ | ⟨type, rfl⟩ <;> exact hinner
  have hplan : Follows c late jobOf stack (buildVariables c j) ((Need.arguments j).needs c.toSources) _ _ :=
    follows_perform _ (Or.inr hcodes) hanswers fun name hf => follows_useFragment_unknown hf
  rcases hplan s hs with ⟨e, hr, he⟩ | ⟨p, hr, hrun⟩
  · exact Or.inl ⟨e, hr, he⟩
  · refine Or.inr ⟨p, hr, ?_⟩
    simp only [Need.complete]
    cases hout : (variablesPlan c.toConfig j).outcome c.toSources with
    | error e =>
      rw [hout] at hrun
      exact hrun
    | ok draft =>
      rw [hout] at hrun
      obtain ⟨s', hrun, rfl, hg, heff⟩ := hrun
      refine ⟨draft, s', hrun, rfl, rfl, hg, heff.mono fun f => ?_, ?_, fun name m hname => (by cases hname),
        fun name hname => ?_⟩
      · rw [spreadsOf_variables, fragmentsIn_of_codes hcodes]
      · have := hr.get?_outer (Need.inner_needs (.arguments j)) (variablesNode j.name) (Or.inr rfl)
        rw [get?_progress, get?_progress, hget] at this
        exact Option.map_eq_none_iff.1 this
      · cases hname

/-- The response of an operation refers to no input types. -/
theorem typed_operation {c : Sources} (hs : c.schema.OutputTyped) {j : Job} (hroot : Known c.toConfig j.root) :
    (Need.operation j).Typed c := by
  have hhelpers : (ensureHelpers c.toConfig).Keeps c := keeps_ensureHelpers
  have hplan := keeps_operationPlan j.op hroot
  refine ⟨fun m hm => ?_, fun type ht => ?_⟩
  · exact (List.mem_append.1 hm).elim (Plan.input_notMem_of_keeps hhelpers hs m) (Plan.input_notMem_of_keeps hplan hs m)
  · exact ((List.mem_append.1 ht).elim (Plan.selected_of_keeps hhelpers _) (Plan.selected_of_keeps hplan _)).elim

theorem startable_operation (j : Job) : Startable stack (.operation j) :=
  ⟨id, fun _ _ => Need.noConfusion, fun _ => Need.noConfusion⟩

theorem startable_arguments (j : Job) : Startable stack (.arguments j) :=
  ⟨id, fun _ _ => Need.noConfusion, fun _ => Need.noConfusion⟩

/-- What generating the types of an operation comes to, after its run. -/
structure JobDone (c : Setup) (late : TypeRef → Prop) (jobOf : String → Option Job) (stack : Stack) (j : Job)
    (keys : List String) (s s' : State) : Prop where
  good : Good c.toSources late jobOf stack s'
  effect : Effect c jobOf stack (Reached c.toSources (spreadsOf c.toSources jobOf (operationNode j.name)))
    [.operation j, .arguments j] s s'
  used : ∀ f, f ∈ fragmentsUsed keys ↔ Reached c.toSources (spreadsOf c.toSources jobOf (operationNode j.name)) f
  response : Backed s' ⟨s.tracker.currentFile, keys⟩ (operationNode j.name)
  arguments : Backed s' ⟨s.tracker.currentFile, keys⟩ (variablesNode j.name)

/-- Generating the types of an operation does what a run does. -/
theorem follows_generateJob (hc : c.toSources.Named) {j : Job} (hroot : Known c.toConfig j.root)
    (hinputs : stack.inputs = []) (hfragments : stack.fragments = [])
    {s : State} (hs : Good c.toSources late jobOf stack s)
    (hjob : Assoc.get? s.store (operationNode j.name) = none ∨ Assoc.get? s.store (variablesNode j.name) = none →
      jobOf j.name = some j) :
    (∃ e, Run c.toSources late stack s.tracker.currentFile s.progress [.operation j, .arguments j] (.error e) ∧
      ((generateJob c j).runOn s).1 = .error e) ∨
    ∃ s' keys, Run c.toSources late stack s.tracker.currentFile s.progress [.operation j, .arguments j]
        (.ok s'.progress) ∧
      (generateJob c j).runOn s = (.ok (collected c.toConfig j keys), s') ∧
      JobDone c late jobOf stack j keys s s' := by
  have hopened : Good c.toSources late jobOf stack (opened none s) :=
    ⟨hs.sound.congr rfl rfl rfl rfl rfl, Tracker.scoped_start _ _⟩
  have hresponse : FollowsAt c late jobOf stack (artifact .operation j.name none (buildOperation c j))
      [.operation j] _ _ (opened none s) :=
    followsAt_artifact rfl (startable_operation j) (fun _ => rfl) (fun _ _ => hinputs)
      (fun hs => typed_operation hs hroot) hopened (fun hget => builds_operation hc hroot hinputs hfragments (hjob (Or.inl hget)))
      fun hget => needOf_operation (hjob (Or.inl hget))
  have hboth := hresponse.andThen (f := fun _ => artifact .operationVariables j.name none (buildVariables c j))
    (fun p => ⟨_, rfl⟩) fun _ _ _ s₁ hs₁ hstore =>
      followsAt_artifact rfl (startable_arguments j) (fun _ => rfl) (fun _ _ => hinputs)
        (fun _ => Need.typed_arguments _ j) hs₁ (fun _ => builds_variables hinputs) fun hget => needOf_variables <| hjob <| Or.inr <|
          Option.eq_none_iff_forall_ne_some.2 fun b hb => by cases hget.symm.trans (hstore _ b hb)
  have hrun : (generateJob c j).runOn s =
      ((artifact .operation j.name none (buildOperation c j) >>= fun _ =>
        artifact .operationVariables j.name none (buildVariables c j)) >>= fun _ =>
        Tracking.finish >>= fun keys => pure (collected c.toConfig j keys) : Step CollectedOperation).runOn
          (opened none s) := by
    unfold generateJob
    rw [runOn_bind, runOn_start, bind_assoc]
    rfl
  rcases hboth with ⟨e, hr, he⟩ | ⟨p, hr, s₂, hboth, rfl, hg, heff⟩
  · obtain ⟨s', he⟩ := runOn_eq_of_fst he
    exact Or.inl ⟨e, hr, by rw [hrun, runOn_bind, he]⟩
  · have hstart : (opened none s).tracker = s.tracker.start none := rfl
    obtain ⟨keys, t, hfinish, hf⟩ := finished_of_moves hs.tracked hstart heff.moves
    have hen : t.enabled = s₂.tracker.enabled := hf.moves.enabled.trans heff.moves.enabled.symm
    have hU : ∀ f, Reached c.toSources (spreadsOf c.toSources jobOf (ArtifactKind.operation, j.name)) f ∨
        Reached c.toSources (spreadsOf c.toSources jobOf (ArtifactKind.operationVariables, j.name)) f ↔
        Reached c.toSources (spreadsOf c.toSources jobOf (operationNode j.name)) f := fun f =>
      ⟨fun h => h.elim id fun h => absurd (spreadsOf_variables j.name ▸ h) Reached.nil, Or.inl⟩
    have hbacked : ∀ n ∈ [Need.operation j, Need.arguments j], ∀ node, n.node? = some node →
        (∀ m ∈ stack.inputs, n ≠ .declared (.input m)) →
        Backed { s₂ with tracker := t } ⟨s.tracker.currentFile, keys⟩ node := by
      intro n hn node hnode hi
      obtain ⟨a, ha, hc⟩ := heff.node_backed hf.covers hn hnode hi
      exact ⟨a, ha, fun henabled => hc (hen ▸ henabled)⟩
    refine Or.inr ⟨{ s₂ with tracker := t }, keys, hr, ?_, ⟨hg.sound.congr rfl rfl rfl rfl hen, hf.moves.scoped hs.tracked⟩,
      ⟨hf.moves.mono hU, ⟨⟨hf.moves.enabled, heff.kept.store⟩, heff.kept.codes⟩, fun n hn => ?_, fun hout =>
        (heff.grows hout).congr rfl rfl rfl rfl rfl rfl hen⟩,
      fun f => (hf.used f).trans (hU f), ?_, ?_⟩
    · rw [hrun, runOn_bind, hboth]
      dsimp only
      rw [runOn_bind, Compile.runOn_finish hfinish]
      rfl
    · have hnode : ∃ node, n.node? = some node ∧ ∀ m ∈ stack.inputs, n ≠ .declared (.input m) := by
        rcases List.mem_pair.1 hn with rfl | rfl
        · exact ⟨_, rfl, fun _ _ => Need.noConfusion⟩
        · exact ⟨_, rfl, fun _ _ => Need.noConfusion⟩
      obtain ⟨node, hnode, hi⟩ := hnode
      obtain ⟨a, ha, hc⟩ := hbacked n hn node hnode hi
      exact Need.recorded_of_node hnode ⟨a, ha, (hf.recorded _ rfl).of_covers hc⟩
    · exact hbacked _ List.mem_cons_self _ rfl fun _ _ => Need.noConfusion
    · exact hbacked _ (List.mem_cons_of_mem _ (List.mem_singleton_self _)) _ rfl fun _ _ => Need.noConfusion

end Operations

end ResponseTypes.Compile
