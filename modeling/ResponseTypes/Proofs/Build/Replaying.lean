import ResponseTypes.Proofs.Build.Sections
import ResponseTypes.Proofs.Plan.Proceeding

/-!
# Building what is there

What is collected for an operation depends on its two artifacts and nothing else that was done (`keys_generateJob`), and after
a build both are there (`keys_generateOperations`).  A step that finds all artifacts it asks for replays them: it succeeds, and
changes nothing but what is recorded (`Replays`).
-/

namespace ResponseTypes.Compile

set_option autoImplicit false

open Dependency (fileKey)
open GraphQL (Document Operation)
open Workspace (collectOperation)

variable {c : Setup} {s s' s'' s₀ : State} {α β : Type} {n : ℕ}

/-! ## Keys of operations -/

/-- The keys that are collected for an operation: what merging those of its two types brings, and the key of its file. -/
def JobKeys (s : State) (j : Job) (keys : List String) : Prop :=
  ∃ a v, Assoc.get? s.store (operationNode j.name) = some a ∧ Assoc.get? s.store (variablesNode j.name) = some v ∧
    ∀ k, k ∈ keys ↔ k ∈ s.tracker.mergedKeys a.origin.keys (some a.origin.file) ∨
      k ∈ s.tracker.mergedKeys v.origin.keys (some v.origin.file) ∨ s.tracker.enabled = true ∧ k = fileKey j.file

theorem JobKeys.of_stored {j : Job} {keys : List String} (h : JobKeys s j keys)
    (hstored : ∀ node a, Assoc.get? s.store node = some a → Assoc.get? s'.store node = some a)
    (henabled : s'.tracker.enabled = s.tracker.enabled) : JobKeys s' j keys := by
  obtain ⟨a, v, ha, hv, hkeys⟩ := h
  refine ⟨a, v, hstored _ a ha, hstored _ v hv, fun k => ?_⟩
  rw [Tracker.mergedKeys_congr henabled, Tracker.mergedKeys_congr henabled, henabled]
  exact hkeys k

theorem JobKeys.mono {stack : List Node} {j : Job} {keys : List String} (h : JobKeys s j keys) (hs : Proceeds stack s s') :
    JobKeys s' j keys := by
  obtain ⟨_, _, hb⟩ := hs.bubbles
  exact h.of_stored hs.stored hb.enabled

theorem keys_generateJob (hc : c.Named) {j : Job} (hj : Known c.toConfig j.root) (hfile : s.tracker.currentFile = j.file)
    {o : CollectedOperation} (hrun : (generateJob c j).runOn s = (.ok o, s')) :
    ∃ keys, o = collected c.toConfig j keys ∧ JobKeys s' j keys := by
  unfold generateJob at hrun
  obtain ⟨_, s₁, hstart, hrun⟩ := runOn_bind_ok hrun
  obtain ⟨_, s₂, hresponse, hrun⟩ := runOn_bind_ok hrun
  obtain ⟨_, s₃, hvariables, hrun⟩ := runOn_bind_ok hrun
  obtain ⟨keys, s₄, hfinish, hrun⟩ := runOn_bind_ok hrun
  cases hrun
  have hs₁ : opened none s = s₁ := congrArg Prod.snd hstart
  subst hs₁
  obtain ⟨t, hclosed, rfl⟩ := runOn_tracker_ok hfinish
  have hrules := rules_proceeding hc
  obtain ⟨a, ha, hgains⟩ := gains_artifact (hrules.buildOperation hj) hresponse
  obtain ⟨v, hv, hgains'⟩ := gains_artifact (hrules.buildVariables j) hvariables
  have hkept : Proceeds [] _ _ := hrules.artifact none List.not_mem_nil (hrules.buildVariables j) _ _ _ hvariables
  have hboth : (s.tracker.start none).Bubbles _ _ s₃.tracker := hgains.trans hgains'
  obtain ⟨hkeys, hbubbles⟩ := hboth.close hclosed
  have henabled : (opened none s).tracker.enabled = s.tracker.enabled := by
    obtain ⟨_, -, -, -, henabled, -⟩ := s.tracker.start_eq none
    exact henabled
  refine ⟨keys, rfl, a, v, hkept.stored _ a ha, hv, fun k => ?_⟩
  dsimp only
  rw [hkeys, hbubbles.enabled, or_assoc, Tracker.mergedKeys_congr henabled,
    Tracker.mergedKeys_congr (hgains.enabled.trans henabled), Tracker.mergedKeys_congr hbubbles.enabled,
    Tracker.mergedKeys_congr hbubbles.enabled, Tracker.fileAfter, hfile]

theorem keys_collectOperations (hc : c.Named) {file : String} {ops : List Operation} (hs : s.tracker.Scoped)
    (hfile : s.tracker.currentFile = file) {before after : Assoc String CollectedOperation}
    (hrun : (ops.foldlM (collectOperation c file) before).runOn s = (.ok after, s')) :
    (jobsOf c.toConfig file ops).2 = none ∧ ∃ entries, entries.map Prod.fst = (jobsOf c.toConfig file ops).1 ∧
      after = collect c.toConfig before entries ∧ ∀ e ∈ entries, JobKeys s' e.1 e.2 := by
  induction ops generalizing s before with
  | nil =>
    cases hrun
    exact ⟨rfl, [], rfl, rfl, fun _ he => absurd he List.not_mem_nil⟩
  | cons op rest ih =>
    rw [List.foldlM_cons] at hrun
    obtain ⟨next, s₁, hop, hrest⟩ := runOn_bind_ok hrun
    have hproceeds : Proceeds [] s s₁ := (rules_proceeding hc).builds.collectOperation file before op _ _ _ hop
    have hlater : Proceeds [] s₁ s' := (rules_proceeding hc).builds.collectOperations file rest next _ _ _ hrest
    obtain ⟨_, _, hbubbles⟩ := hproceeds.bubbles
    obtain ⟨hnone, entries, hentries, hafter, hkeys⟩ :=
      ih (hbubbles.scoped hs) ((hbubbles.file hs).trans hfile) hrest
    cases hname : op.name with
    | none =>
      rw [collectOperation_unnamed hname] at hop
      cases hop
      rw [jobsOf_unnamed hname]
      exact ⟨hnone, entries, hentries, hafter, hkeys⟩
    | some name =>
      cases hroot : c.schema.root? op.kind with
      | none =>
        rw [collectOperation_rootless hname hroot] at hop
        cases hop
      | some root =>
        rw [collectOperation_rooted hname hroot] at hop
        obtain ⟨_, _, hjob, hop⟩ := runOn_bind_ok hop
        cases hop
        obtain ⟨keys, rfl, hjobKeys⟩ :=
          keys_generateJob hc (known_root hroot) (hfile : _ = (⟨op, name, root, file⟩ : Job).file) hjob
        rw [jobsOf_rooted hname hroot]
        refine ⟨hnone, (⟨op, name, root, file⟩, keys) :: entries, ?_, hafter, ?_⟩
        · rw [List.map_cons, hentries]
        · exact List.forall_mem_cons.2 ⟨hjobKeys.mono hlater, hkeys⟩

/-- What a build collects for the operations of its documents. -/
theorem keys_generateOperations (hc : c.Named) {documents : Assoc String Document} (hfiles : ∀ e ∈ documents, e.1 ≠ "")
    {before after : Assoc String CollectedOperation}
    (hrun : (Workspace.generateOperations c documents before).runOn s = (.ok after, s')) :
    (∀ e ∈ documents, (jobsOf c.toConfig e.1 e.2.operations).2 = none) ∧
      ∃ entries, entries.map Prod.fst = allJobs c.toConfig documents ∧ after = collect c.toConfig before entries ∧
        ∀ e ∈ entries, JobKeys s' e.1 e.2 := by
  induction documents generalizing s before with
  | nil =>
    cases hrun
    exact ⟨fun _ he => absurd he List.not_mem_nil, [], rfl, rfl, fun _ he => absurd he List.not_mem_nil⟩
  | cons e rest ih =>
    unfold Workspace.generateOperations at hrun
    rw [List.foldlM_cons] at hrun
    obtain ⟨next, s₁, hdocument, hrest⟩ := runOn_bind_ok hrun
    obtain ⟨hnones, entries', hentries', hafter', hkeys'⟩ := ih (fun e he => hfiles e (List.mem_cons_of_mem _ he)) hrest
    have hlater : Proceeds [] s₁ s' := (rules_proceeding hc).builds.generateOperations rest next _ _ _ hrest
    obtain ⟨_, s₂, hstart, hdocument⟩ := runOn_bind_ok hdocument
    obtain ⟨next', s₃, hops, hdocument⟩ := runOn_bind_ok hdocument
    obtain ⟨_, s₄, hfinish, hdocument⟩ := runOn_bind_ok hdocument
    obtain ⟨keys, _, hclose, hfinish⟩ := runOn_bind_ok hfinish
    cases hfinish
    cases hdocument
    have hs₂ : opened (some e.1) s = s₂ := congrArg Prod.snd hstart
    subst hs₂
    have hfile : (opened (some e.1) s).tracker.currentFile = e.1 := by
      obtain ⟨_, -, hcurrent, -⟩ := s.tracker.start_eq (some e.1)
      exact hcurrent.trans (Tracker.fileAfter_of_ne (hfiles e List.mem_cons_self) _)
    obtain ⟨hnone, entries, hentries, rfl, hkeys⟩ :=
      keys_collectOperations hc (s.tracker.scoped_start (some e.1)) hfile hops
    have hproceeds : Proceeds [] (opened (some e.1) s) s₃ :=
      (rules_proceeding hc).builds.collectOperations e.1 e.2.operations before _ _ _ hops
    have henabled : s₁.tracker.enabled = s₃.tracker.enabled := by
      obtain ⟨_, _, hb⟩ := (hproceeds.close hclose).bubbles
      obtain ⟨_, _, hb'⟩ := hproceeds.bubbles
      obtain ⟨_, -, -, -, hstart, -⟩ := s.tracker.start_eq (some e.1)
      rw [hb.enabled, hb'.enabled, ← hstart]
      rfl
    have hstored : s₁.store = s₃.store := by
      obtain ⟨t, -, rfl⟩ := runOn_tracker_ok hclose
      rfl
    refine ⟨List.forall_mem_cons.2 ⟨hnone, hnones⟩, entries ++ entries', ?_, ?_, fun e he => ?_⟩
    · rw [List.map_append, hentries, hentries', allJobs, allJobs, List.flatMap_cons]
    · rw [hafter', collect, collect, collect, List.foldl_append]
    · rcases List.mem_append.1 he with he | he
      · exact ((hkeys e he).of_stored (fun _ _ => hstored ▸ id) henabled).mono hlater
      · exact hkeys' e he

/-! ## Fields of fragments -/

/-- What every step of a loop establishes, and steps that proceed keep, is established by the loop. -/
theorem forM_establishes (hc : c.Named) {P : α → State → Prop} {f : α → Step Unit} (hf : ∀ a, Proceeding [] (f a))
    (hP : ∀ a s s', (f a).runOn s = (.ok (), s') → P a s') (hmono : ∀ a s s', Proceeds [] s s' → P a s → P a s') {l : List α}
    (hrun : (l.forM f).runOn s = (.ok (), s')) : ∀ a ∈ l, P a s' := by
  induction l generalizing s with
  | nil => exact fun _ ha => absurd ha List.not_mem_nil
  | cons a l ih =>
    obtain ⟨_, s₁, hfirst, hrest⟩ := runOn_bind_ok hrun
    have hlater : Proceeds [] s₁ s' := (rules_proceeding hc).builds.forM hf _ _ _ hrest
    exact List.forall_mem_cons.2 ⟨hmono a s₁ s' hlater (hP a s s₁ hfirst), ih hrest⟩

/-- A fragment that was generated has the keys of its type. -/
theorem owned_generator {name : String} (hrun : (generator c name).runOn s = (.ok (), s')) : Owned s' name := by
  obtain ⟨_, s₁, hgenerate, hrun⟩ := runOn_bind_ok hrun
  have hs₁ : s₁ = s' := congrArg Prod.snd hrun
  subst hs₁
  rw [generateFragment] at hgenerate
  split at hgenerate
  · cases hgenerate
  · rw [dif_neg List.not_mem_nil] at hgenerate
    obtain ⟨_, s₂, hartifact, hgenerate⟩ := runOn_bind_ok hgenerate
    obtain ⟨_, s₃, hattribute, hgenerate⟩ := runOn_bind_ok hgenerate
    have hs₃ : s₃ = s₁ := congrArg Prod.snd hgenerate
    subst hs₃
    obtain ⟨a, ha⟩ := stored_of_runOn_artifact hartifact
    obtain ⟨maps, heq, -, -, howned⟩ := attributeFields_eq name s₂
    rw [heq] at hattribute
    cases hattribute
    exact howned a ha

theorem owned_generateFragments (hc : c.Named) {documents : Assoc String Document}
    (hrun : (Workspace.generateFragments c documents).runOn s = (.ok (), s')) :
    ∀ e ∈ documents, ∀ f ∈ e.2.fragments, Owned s' f.name := by
  have hrules := rules_proceeding hc
  have hgenerator : ∀ f : GraphQL.Fragment, Proceeding [] (generator c f.name) := fun f =>
    hrules.generator (fun _ => List.not_mem_nil) (fun _ => List.not_mem_nil) f.name
  have hdocument : ∀ e : String × Document, Proceeding [] (do
      Tracking.start (some e.1)
      e.2.fragments.forM (fun f => generator c f.name)
      discard Tracking.finish : Step Unit) := fun e =>
    hrules.inScope (some e.1) (fun _ _ => ()) (hrules.builds.forM hgenerator)
  refine forM_establishes hc (P := fun e s => ∀ f ∈ e.2.fragments, Owned s f.name) hdocument (fun e s s' hrun => ?_)
    (fun e s s' hs ho f hf => hs.owned f.name List.not_mem_nil (ho f hf)) hrun
  obtain ⟨_, s₁, hstart, hrun⟩ := runOn_bind_ok hrun
  obtain ⟨_, s₂, hloop, hrun⟩ := runOn_bind_ok hrun
  obtain ⟨_, s₃, hfinish, hrun⟩ := runOn_bind_ok hrun
  cases hrun
  obtain ⟨t, -, rfl⟩ := runOn_tracker_ok hfinish
  exact forM_establishes hc (P := fun f s => Owned s f.name) hgenerator (fun f s s' => owned_generator)
    (fun f s s' hs => hs.owned f.name List.not_mem_nil) hloop

/-! ## Replaying -/

/-- The same work was done: what differs are the tracker and the journal. -/
structure SameWork (s s' : State) : Prop where
  store : s'.store = s.store
  shapes : s'.shapes = s.shapes
  inputs : s'.inputs = s.inputs
  fieldMaps : s'.fieldMaps = s.fieldMaps
  fragmentMarks : s'.fragmentMarks = s.fragmentMarks
  inputMarks : s'.inputMarks = s.inputMarks
  counters : s'.counters = s.counters

theorem SameWork.refl (s : State) : SameWork s s := ⟨rfl, rfl, rfl, rfl, rfl, rfl, rfl⟩

/-- With the work of `s₀` done and `n` scopes open, a step succeeds, does no more work and leaves as many scopes open. -/
def Replays (s₀ : State) (n : ℕ) (act : Step α) : Prop :=
  ∀ s, SameWork s₀ s → s.tracker.scopes.length = n →
    ∃ a s', act.runOn s = (.ok a, s') ∧ SameWork s₀ s' ∧ s'.tracker.scopes.length = n

theorem SameWork.withTracker (h : SameWork s₀ s) (t : Tracker) : SameWork s₀ { s with tracker := t } := { h with }

theorem replays_pure (a : α) : Replays s₀ n (pure a : Step α) := fun s hs hn => ⟨a, s, rfl, hs, hn⟩

theorem replays_bind {act : Step α} {f : α → Step β} (h : Replays s₀ n act) (hf : ∀ a, Replays s₀ n (f a)) :
    Replays s₀ n (act >>= f) := by
  intro s hs hn
  obtain ⟨a, s', hrun, hs', hn'⟩ := h s hs hn
  obtain ⟨b, s'', hrun', hs'', hn''⟩ := hf a s' hs' hn'
  exact ⟨b, s'', by rw [runOn_bind, hrun]; exact hrun', hs'', hn''⟩

theorem replays_discard {act : Step α} (h : Replays s₀ n act) : Replays s₀ n (discard act) :=
  replays_bind h fun _ => replays_pure ()

theorem replays_note (level : Level) (text : String) : Replays s₀ n (note level text) :=
  fun _ hs hn => ⟨(), _, rfl, { hs with }, hn⟩

theorem replays_forM {l : List α} {f : α → Step Unit} (hf : ∀ a ∈ l, Replays s₀ n (f a)) : Replays s₀ n (l.forM f) := by
  induction l with
  | nil => exact replays_pure ()
  | cons a l ih =>
    obtain ⟨ha, hl⟩ := List.forall_mem_cons.1 hf
    exact replays_bind ha fun _ => ih hl

theorem replays_foldlM {l : List α} {f : β → α → Step β} (hf : ∀ a ∈ l, ∀ b, Replays s₀ n (f b a)) (b : β) :
    Replays s₀ n (l.foldlM f b) := by
  induction l generalizing b with
  | nil => exact replays_pure b
  | cons a l ih =>
    obtain ⟨ha, hl⟩ := List.forall_mem_cons.1 hf
    exact replays_bind (ha b) fun b => ih hl b

theorem replays_inScope (given : Option String) {act : Step α} (f : α → List String → β) (h : Replays s₀ (n + 1) act) :
    Replays s₀ n (do
      Tracking.start given
      let a ← act
      let keys ← Tracking.finish
      return f a keys) := by
  intro s hs hn
  obtain ⟨scope, hscopes, -⟩ := s.tracker.start_eq given
  obtain ⟨a, s₁, hrun, hs₁, hn₁⟩ := h (opened given s) (hs.withTracker _)
    (by rw [opened, hscopes, List.length_cons, hn])
  obtain ⟨keys, t, hfinish, ht⟩ := Tracker.finish_of_length hn₁
  refine ⟨f a keys, { s₁ with tracker := t }, ?_, hs₁.withTracker t, ht⟩
  rw [runOn_bind, runOn_start]
  dsimp only
  unfold opened at hrun
  rw [runOn_bind, hrun]
  dsimp only
  rw [runOn_bind, runOn_finish hfinish]
  rfl

/-- An artifact that is there is used again. -/
theorem replays_artifact {kind : ArtifactKind} {key : String} {a : Artifact ArtifactKind}
    (h : Assoc.get? s₀.store (kind, key) = some a) (given : Option String) (build : Step Draft) :
    Replays s₀ (n + 1) (artifact kind key given build) := by
  intro s hs hn
  obtain ⟨t, hmerge, ht⟩ := Tracker.merge_of_length hn a.origin.keys (some a.origin.file)
  exact ⟨a.name, _, runOn_artifact_hit (hs.store ▸ h) hmerge, hs.withTracker t, ht⟩

theorem replays_generator {name : String} (hf : ∃ f, Assoc.get? c.fragments name = some f) (h : Owned s₀ name) :
    Replays s₀ (n + 1) (generator c name) := by
  obtain ⟨f, hf⟩ := hf
  obtain ⟨a, ha, hkeys⟩ := id h
  refine replays_discard ?_
  rw [generateFragment]
  split
  · rename_i hnone
    cases hf.symm.trans hnone
  · rw [dif_neg List.not_mem_nil]
    refine replays_bind (replays_artifact ha _ _) fun _ => replays_bind (fun s hs hn => ?_) fun _ => replays_pure _
    obtain ⟨maps, heq, -, hsame, -⟩ := attributeFields_eq name s
    rw [hsame ⟨a, hs.store ▸ ha, fun m hm => hkeys m (hs.fieldMaps ▸ hm)⟩] at heq
    exact ⟨(), s, heq, hs, hn⟩

/-- The two artifacts of an operation are there. -/
def Present (s : State) (j : Job) : Prop :=
  (∃ a, Assoc.get? s.store (operationNode j.name) = some a) ∧ ∃ a, Assoc.get? s.store (variablesNode j.name) = some a

theorem replays_generateJob {j : Job} (h : Present s₀ j) : Replays s₀ n (generateJob c j) := by
  obtain ⟨⟨a, ha⟩, v, hv⟩ := h
  have hboth := replays_inScope (n := n) none (fun _ keys => collected c.toConfig j keys)
    (replays_bind (replays_artifact ha none (buildOperation c j)) fun _ => replays_artifact hv none (buildVariables c j))
  simp only [bind_assoc] at hboth
  exact hboth

theorem replays_collectOperations {file : String} {ops : List Operation} (hnone : (jobsOf c.toConfig file ops).2 = none)
    (h : ∀ j ∈ (jobsOf c.toConfig file ops).1, Present s₀ j) (before : Assoc String CollectedOperation) :
    Replays s₀ n (ops.foldlM (collectOperation c file) before) := by
  induction ops generalizing before with
  | nil => exact replays_pure before
  | cons op rest ih =>
    rw [List.foldlM_cons]
    cases hname : op.name with
    | none =>
      rw [jobsOf_unnamed hname] at hnone h
      rw [collectOperation_unnamed hname]
      exact replays_bind (replays_bind (replays_note _ _) fun _ => replays_pure _) (ih hnone h)
    | some name =>
      cases hroot : c.schema.root? op.kind with
      | none =>
        rw [jobsOf_rootless hname hroot] at hnone
        cases hnone
      | some root =>
        rw [jobsOf_rooted hname hroot] at hnone h
        obtain ⟨hj, hrest⟩ := List.forall_mem_cons.1 h
        rw [collectOperation_rooted hname hroot]
        exact replays_bind (replays_bind (replays_generateJob hj) fun _ => replays_pure _) (ih hnone hrest)

/-- A build that finds all that it asks for replays it. -/
theorem replays_generateAll {documents : Assoc String Document} {skipUnused : Bool}
    (hknown : ∀ e ∈ documents, ∀ f ∈ e.2.fragments, ∃ g, Assoc.get? c.fragments f.name = some g)
    (hfragments : skipUnused = false → ∀ e ∈ documents, ∀ f ∈ e.2.fragments, Owned s₀ f.name)
    (hnone : ∀ e ∈ documents, (jobsOf c.toConfig e.1 e.2.operations).2 = none)
    (hjobs : ∀ j ∈ allJobs c.toConfig documents, Present s₀ j) (before : Assoc String CollectedOperation) :
    Replays s₀ 0 (Workspace.generateAll c skipUnused documents before) := by
  have hoperations : Replays s₀ 0 (Workspace.generateOperations c documents before) := by
    refine replays_foldlM (fun e he operations => ?_) before
    have hcollect := replays_collectOperations (n := 1) (hnone e he)
      (fun j hj => hjobs j (List.mem_flatMap.2 ⟨e, he, hj⟩)) operations
    have hdiscard : discard (Tracking.finish : Step (List String)) = Tracking.finish >>= fun _ => pure () := rfl
    simpa only [hdiscard, bind_assoc, pure_bind] using
      replays_inScope (some e.1) (fun operations _ => operations) hcollect
  have hlast : Replays s₀ 0 (Workspace.generateOperations c documents before >>= fun after =>
      Tracks.tracker.read >>= fun tracker =>
        if tracker.hasOpenScope then Action.fail (.scopesLeftOpen (some tracker.currentFile)) else pure after) := by
    refine replays_bind hoperations fun after s hs hn => ⟨after, s, ?_, hs, hn⟩
    rw [runOn_bind, runOn_read]
    have hclosed : (Tracks.tracker.get s : Tracker).hasOpenScope = false := by
      change (!s.tracker.scopes.isEmpty) = false
      rw [List.eq_nil_of_length_eq_zero hn]
      rfl
    simp only [hclosed]
    rfl
  unfold Workspace.generateAll
  cases skipUnused with
  | true => exact hlast
  | false =>
    refine replays_bind (replays_forM fun e he => ?_) fun _ => hlast
    exact replays_inScope (some e.1) (fun _ _ => ()) (replays_forM fun f hf =>
      replays_generator (hknown e he f hf) (hfragments rfl e he f hf))

end ResponseTypes.Compile
