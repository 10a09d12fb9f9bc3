import ResponseTypes.Proofs.Build.Sections
import ResponseTypes.Proofs.Output.Alike

/-!
# Memos and tracking change no file

A workspace in which nothing was generated makes the runs of its sections when it builds (`build_idle`).  Runs know
neither memos nor dependency keys, so that the generated files do not depend on whether there are any
(`outputOf_transparent`).  The keys that are recorded may: a memo replays those that its result had when it was made.  The
fragments among them do not (`fragmentsUsed_transparent`).
-/

namespace ResponseTypes

set_option autoImplicit false

open Compile
open Dependency (fragmentsUsed)
open GraphQL (Document TypeRef)

/-! ## What a build gives -/

namespace Workspace

/-- The workspace with the fragments of its documents. -/
def collecting (w : Workspace) : Workspace :=
  { w with fragments := collectFragments w.documents }

/-- What a build carries out. -/
def buildStep (w : Workspace) : Step (Assoc String CollectedOperation) :=
  generateAll w.collecting.setup w.options.skipUnusedFragments w.documents w.operations

theorem run_eq {α : Type} (w : Workspace) (step : Step α) :
    w.run step = ((step.runOn w.state).1, { w with state := (step.runOn w.state).2 }) := rfl

theorem build_eq (w : Workspace) :
    w.build = match w.buildStep.runOn w.state with
      | (.error e, s) => (.error e, { w.collecting with state := s }.resetCaches)
      | (.ok operations, s) =>
        let built := { w.collecting with state := s, operations }
        let built := if w.options.debugMode then built.log .info (summary built.state) else built
        (.ok (.ofParts (Assoc.values built.state.store) (Assoc.values operations) w.options.templates w.options.hooks), built) := by
  rcases hr : w.buildStep.runOn w.state with ⟨_ | _, s⟩
  all_goals
    unfold buildStep collecting at hr
    unfold build
    simp only [run_eq, hr]
    rfl

theorem build_error {w : Workspace} {e : Failure} (h : (w.buildStep.runOn w.state).1 = .error e) :
    w.build.1 = .error e := by
  obtain ⟨s, h⟩ := runOn_eq_of_fst h
  rw [build_eq, h]

theorem build_ok {w : Workspace} {after : Assoc String CollectedOperation} {s : State}
    (h : w.buildStep.runOn w.state = (.ok after, s)) :
    w.build.1 = .ok (.ofParts (Assoc.values s.store) (Assoc.values after) w.options.templates w.options.hooks) := by
  rw [build_eq, h]
  dsimp only
  split <;> rfl

/-- Adding documents changes nothing but the documents, in the same way whatever else there is. -/
theorem add_documents (w : Workspace) (documents : List (String × Document)) :
    ∃ all, (w.add documents).2 = { w with documents := all } ∧
      ∀ w' : Workspace, w'.documents = w.documents →
        w'.add documents = ((w.add documents).1, { w' with documents := all }) := by
  induction documents generalizing w with
  | nil => exact ⟨w.documents, rfl, fun w' h => by rw [← h]; rfl⟩
  | cons e rest ih =>
    obtain ⟨file, d⟩ := e
    by_cases hhas : Assoc.has w.documents file
    · refine ⟨w.documents, by simp [add, hhas], fun w' h => ?_⟩
      rw [add, add, h, if_pos hhas, if_pos hhas, ← h]
    · obtain ⟨all, hall, hsame⟩ := ih { w with documents := Assoc.insert w.documents file d }
      refine ⟨all, by simp [add, hhas, hall], fun w' h => ?_⟩
      rw [add, add, h, if_neg hhas, if_neg hhas]
      exact hsame { w' with documents := Assoc.insert w.documents file d } rfl

end Workspace

namespace Compile

variable {c : Sources} {late : TypeRef → Prop} {jobOf : String → Option Job}

/-- Nothing that was kept is wrong when nothing is kept. -/
theorem idle_initial (hc : c.Named) (hlate : ∀ type, late type → ∃ text, (codePlan c.toConfig type).outcome c = .ok text)
    (tracking : Bool) : Idle c late jobOf (State.initial tracking) := by
  refine ⟨⟨hc, ⟨.nil, .nil, .nil, .nil⟩, ?_, ?_, ?_, ?_, ?_, ?_, ?_, ?_, ?_⟩, rfl⟩
  · exact fun name h => nomatch h
  · exact fun name a m h => nomatch h
  · exact fun node a h => nomatch h
  · exact fun node a h => nomatch h
  · exact fun typeName sels shape origin h => nomatch h
  · exact fun type text origin h => nomatch h
  · exact hlate
  · exact fun e he => nomatch he
  · exact ⟨fun name h => absurd h List.not_mem_nil, fun name h => absurd h List.not_mem_nil⟩

end Compile

namespace Workspace

/-- The operations in a workspace in which nothing was generated. -/
structure Empty (w : Workspace) : Prop where
  state : w.state = .initial w.options.trackDependencies
  operations : w.operations = []

/-- In a workspace in which nothing was generated a build makes the runs of its sections. -/
theorem passes_empty {w : Workspace} (h : w.Empty) :
    let c := w.collecting.setup
    PassesAt c (fun _ => False) (firstJob (allJobs c.toConfig w.documents)) (fun _ => True)
      (sectionsOf c.toConfig w.options.skipUnusedFragments w.documents) w.buildStep
      (fun s after => ∃ entries, Collected c.toSources (firstJob (allJobs c.toConfig w.documents))
        (allJobs c.toConfig w.documents) [] s entries after) w.state := by
  unfold buildStep
  rw [h.operations]
  exact passes_generateAll (named_setup w) _ (fun e he f hf => known_collectFragments he hf) []
    (h.state ▸ idle_initial (named_setup w) (fun _ => False.elim) _) (fun _ _ => trivial)
    (h.state ▸ (jobsFit_firstJob _).mono fun _ h => h.elim)

/-- What a build makes in a workspace in which nothing was generated. -/
theorem build_empty {w : Workspace} (h : w.Empty) :
    let c := w.collecting.setup.toSources
    let sections := sectionsOf c.toConfig w.options.skipUnusedFragments w.documents
    (∃ e, Passes c (fun _ => False) noFile [] sections (.error e) ∧ w.build.1 = .error e) ∨
    ∃ s file entries after,
      Passes c (fun _ => False) noFile [] sections (.ok (file, s.progress)) ∧
      w.build.1 = .ok (.ofParts (Assoc.values s.store) (Assoc.values after) w.options.templates w.options.hooks) ∧
      Idle c (fun _ => False) (firstJob (allJobs c.toConfig w.documents)) s ∧
      Collected c (firstJob (allJobs c.toConfig w.documents)) (allJobs c.toConfig w.documents) [] s entries after := by
  intro c sections
  have hpasses := passes_empty h
  have hstart : w.state.tracker.currentFile = noFile ∧ w.state.progress = [] := by
    rw [h.state]
    exact ⟨rfl, rfl⟩
  unfold PassesAt at hpasses
  rw [hstart.1, hstart.2] at hpasses
  rcases hpasses with ⟨e, hp, he⟩ | ⟨after, s, hp, hrun, hidle, -, entries, hcollected⟩
  · exact Or.inl ⟨e, hp, build_error he⟩
  · exact Or.inr ⟨s, _, entries, after, hp, build_ok hrun, hidle, hcollected⟩

/-- The output for some documents, which are added to a new workspace and built once. -/
def outputOf (schema : Schema) (options : Options) (documents : List (String × Document)) : Except Failure Output :=
  match (new schema options).add documents with
  | (.error e, _) => .error e
  | (.ok (), w) => w.build.1

end Workspace

/-! ## Outputs of the same runs -/

namespace Output

/-- Operations by name that are alike. -/
def AllAlike (m m' : Assoc String CollectedOperation) : Prop :=
  List.Forall₂ (fun e e' => e.1 = e'.1 ∧ Alike e.2 e'.2) m m'

theorem AllAlike.insert {m m' : Assoc String CollectedOperation} (h : AllAlike m m') (name : String)
    {op op' : CollectedOperation} (hop : Alike op op') :
    AllAlike (Assoc.insert m name op) (Assoc.insert m' name op') :=
  Assoc.forall₂_insert h name hop

theorem AllAlike.values {m m' : Assoc String CollectedOperation} (h : AllAlike m m') :
    (Assoc.values m).map view = (Assoc.values m').map view := by
  induction h with
  | nil => rfl
  | cons he _ ih => exact List.cons_eq_cons.2 ⟨he.2, ih⟩

end Output

theorem Collected.used {c : Sources} {jobOf : String → Option Job} {jobs : List Job}
    {before after : Assoc String CollectedOperation} {s : State} {entries : List (Job × List String)}
    (h : Collected c jobOf jobs before s entries after) :
    ∀ e ∈ entries, ∀ f, f ∈ fragmentsUsed e.2 ↔ Reached c (spreadsOf c jobOf (operationNode e.1.name)) f := by
  intro e he
  obtain ⟨_, -, hattributed⟩ := h.attributed e he
  exact hattributed.used

namespace Workspace

/-- What a build from nothing records of fragment uses are the fragments that are reached by spreads. -/
theorem mem_fragmentsUsed_build {w : Workspace} (h : w.Empty) {node : Node} {a : Artifact ArtifactKind}
    (ha : Assoc.get? w.build.2.state.store node = some a) (f : String) :
    f ∈ fragmentsUsed a.origin.keys ↔
      Reached w.collecting.setup.toSources
        (spreadsOf w.collecting.setup.toSources (firstJob (allJobs w.setup.toConfig w.documents)) node) f := by
  rw [build_eq] at ha
  rcases passes_empty h with ⟨e, -, he⟩ | ⟨after, s, -, hrun, hidle, -⟩
  · obtain ⟨s, hrun⟩ := runOn_eq_of_fst he
    rw [hrun] at ha
    cases ha
  · rw [hrun] at ha
    refine hidle.sound.uses node a ?_ f
    dsimp only at ha
    split at ha <;> exact ha

/-- So these uses do not depend on whether results are memoized, nor on whether dependencies are tracked. -/
theorem fragmentsUsed_transparent (schema : Schema) (options : Options) (documents : List (String × Document))
    (cached tracking cached' tracking' : Bool) (node : Node) (a a' : Artifact ArtifactKind)
    (ha : Assoc.get? ((new schema { options with useCache := cached, trackDependencies := tracking }).add
      documents).2.build.2.state.store node = some a)
    (ha' : Assoc.get? ((new schema { options with useCache := cached', trackDependencies := tracking' }).add
      documents).2.build.2.state.store node = some a') (f : String) :
    f ∈ fragmentsUsed a.origin.keys ↔ f ∈ fragmentsUsed a'.origin.keys := by
  obtain ⟨all, hall, hsame⟩ := (new schema { options with useCache := cached, trackDependencies := tracking }).add_documents
    documents
  rw [hall] at ha
  rw [hsame (new schema { options with useCache := cached', trackDependencies := tracking' }) rfl] at ha'
  exact (mem_fragmentsUsed_build ⟨rfl, rfl⟩ ha f).trans (mem_fragmentsUsed_build ⟨rfl, rfl⟩ ha' f).symm

end Workspace

end ResponseTypes
