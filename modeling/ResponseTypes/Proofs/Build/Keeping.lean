import ResponseTypes.Proofs.Build.Files
import ResponseTypes.Proofs.Build.Purging
import ResponseTypes.Proofs.Build.Transparent
import ResponseTypes.Proofs.Plan.Agreeing
import ResponseTypes.Proofs.Plan.Ordered

/-!
# What is kept between builds

`Keeping` : what a state keeps is right, and all of it comes from documents that still are there.  A purge leaves it so
when documents change (`Keeping.purge`), and so does a build (`Keeping.build`).
-/

namespace ResponseTypes

set_option autoImplicit false

open Compile
open GraphQL (Document TypeRef)

namespace Compile

section Others

variable {c : Setup} {fragments : Assoc String FragmentDef} {jobs jobs' : Job → Prop} {s : State} {o : Origin}
  {type : TypeRef} {n : Need} {m : String} {path : List (Need × TypeRef)}

/-- The setup with other fragments. -/
def Setup.withFragments (c : Setup) (fragments : Assoc String FragmentDef) : Setup :=
  { c with fragments }

theorem names_withFragments : Names (c.withFragments fragments).toSources type m ↔ Names c.toSources type m := by
  have hsame : Plan.Same c.toSources fragments (codePlan c.toConfig type) (codePlan c.toConfig type) :=
    Plan.same_of_codes _ (codes_codePlan type)
  exact iff_of_eq (congrArg (Need.declared (.input m) ∈ ·) hsame.needs)

/-- Input types refer to each other whatever fragments there are. -/
theorem Chain.withFragments (h : Chain c.toSources n path m)
    (hn : n.needs (c.withFragments fragments).toSources = n.needs c.toSources) :
    Chain (c.withFragments fragments).toSources n path m := by
  have hinput : ∀ k, (Need.declared (.input k)).needs (c.withFragments fragments).toSources =
      (Need.declared (.input k)).needs c.toSources := fun k => (Plan.same_of_codes _ (codes_draft (.input k))).needs
  induction h with
  | last ht hnames => exact .last (hn ▸ ht) (names_withFragments.2 hnames)
  | step ht hnames _ ih => exact .step (hn ▸ ht) (names_withFragments.2 hnames) (ih (hinput _))

theorem Linked.withFragments (h : Linked c jobs s o type) : Linked (c.withFragments fragments) jobs s o type := by
  induction h with
  | @strong o type h =>
    have hsame : Plan.Same c.toSources fragments (codePlan c.toConfig type) (codePlan c.toConfig type) :=
      Plan.same_of_codes _ (codes_codePlan type)
    exact .strong fun d hd => h d ((congrArg (Need.declared d ∈ ·) hsame.needs).mp hd)
  | stems hm hj hdep hchain _ _ hmade hkept =>
    exact .stems (names_withFragments.2 hm) hj hdep
      (hchain.withFragments (Plan.same_of_codes _ (codes_variablesPlan _)).needs) hmade hkept

end Others

/-! ## Type expressions -/

section Worded

variable {c : Sources} {jobOf : String → Option Job} {stack : Stack} {file : String} {p p' : Progress}

/-- The type expressions that what was made needs can be written. -/
def Worded (c : Sources) (jobOf : String → Option Job) (p : Progress) : Prop :=
  ∀ node, Assoc.has p node → ∀ type, .code type ∈ needsAt c jobOf node → Writable c type

theorem Need.Done.writable {type : TypeRef} (h : (Need.code type).Done c (Writable c) stack p) : Writable c type := by
  rcases h with h | ⟨type', htype, h⟩
  · exact h.1
  · cases htype
    exact h

/-- A run writes the type expressions that it needs, unless it leaves them for later. -/
theorem Run.worded {needs : List Need} (h : Run c (Writable c) stack file p needs (.ok p')) (hp : Worded c jobOf p)
    (hneeds : ∀ n ∈ needs, n.AtHome jobOf file) : Worded c jobOf p' := by
  generalize ho : Except.ok p' = o at h
  induction h generalizing p' with
  | nil =>
    cases ho
    exact hp
  | later _ _ ih | settled _ _ ih => exact ih hp (List.forall_mem_cons.1 hneeds).2 ho
  | circular | broken | lacking => cases ho
  | built _ _ hinner hcomplete _ ih ihr =>
    obtain ⟨hn, hneeds⟩ := List.forall_mem_cons.1 hneeds
    have hpushed := ih hp (fun m hm => (Need.inner_needs _ m hm).atHome) rfl
    refine ihr (fun node hnode type htype => ?_) hneeds ho
    rcases Need.complete_eq hcomplete with ⟨-, rfl⟩ | ⟨node', piece, hnode', -, rfl⟩
    · exact hpushed node hnode type htype
    · rcases has_append_singleton.1 hnode with hnode | rfl
      · exact hpushed node hnode type htype
      · exact (hinner.done _ (needsAt_eq (hn.needOf hnode') ▸ htype)).writable

end Worded

end Compile

/-- A build writes the type expressions that it needs. -/
theorem Passes.worded {c : Sources} {jobOf : String → Option Job} {file : String} {p : Progress} {sections : List Section}
    {r : String × Progress} (h : Passes c (Writable c) file p sections (.ok r)) (hp : Worded c jobOf p)
    (hsections : ∀ sec ∈ sections, sec.AtHome jobOf) : Worded c jobOf r.2 :=
  h.preserves hp fun sec hsec current _ _ hr hp => hr.worded hp (hsections sec hsec current)

namespace Compile

/-! ## Kept states -/

section Keeping

variable {c : Setup} {documents documents' : Assoc String Document} {jobOf : String → Option Job} {s s' : State}
  {file : String}

/-- What is kept is right, and all of it comes from the documents. -/
structure Keeping (c : Setup) (documents : Assoc String Document) (jobOf : String → Option Job) (s : State) : Prop where
  idle : Idle c.toSources (Writable c.toSources) jobOf s
  placed : Placed c.toSources jobOf s.progress
  worded : Worded c.toSources jobOf s.progress
  fragments : ∀ name, Assoc.has s.store (fragmentNode name) → ∃ f d, Assoc.get? c.fragments name = some f ∧
    (f.file, d) ∈ documents ∧ f.fragment ∈ d.fragments
  operations : ∀ node n, Assoc.has s.store node → needOf jobOf node = some n → ∀ j, n = .operation j ∨ n = .arguments j →
    j ∈ allJobs c.toConfig documents
  rooted : Rooted c jobOf (· ∈ allJobs c.toConfig documents) s

/-- Nothing is kept in a new state. -/
theorem keeping_initial (hc : c.toSources.Named) (hs : ∃ enabled, s = { State.initial enabled with journal := s.journal }) :
    Keeping c documents jobOf s := by
  obtain ⟨enabled, hs⟩ := hs
  have hidle : Idle c.toSources (Writable c.toSources) jobOf (State.initial enabled) :=
    idle_initial hc (fun _ => id) enabled
  rw [hs]
  refine ⟨⟨hidle.sound.congr rfl rfl rfl rfl rfl, rfl⟩, ?_, ?_, ?_, ?_, ?_, ?_⟩
  · exact fun node piece n file h => nomatch h
  · exact fun node h => nomatch h
  · exact fun name h => nomatch h
  · exact fun node n h => nomatch h
  · exact fun node a h => nomatch h
  · exact fun _ type text o h => nomatch h

/-- Operations of other files stay when a document changes. -/
theorem mem_allJobs_of_ne {c : Config} {j : Job} (hj : j ∈ allJobs c documents) (hne : j.file ≠ file)
    (hdocuments : ∀ e ∈ documents, e.1 ≠ file → e ∈ documents') : j ∈ allJobs c documents' := by
  obtain ⟨e, he, hj⟩ := List.mem_flatMap.1 hj
  exact List.mem_flatMap.2 ⟨e, hdocuments e he (file_of_mem_jobsOf hj ▸ hne), hj⟩

namespace Keeping

/-- Only what is kept matters. -/
theorem congr (h : Keeping c documents jobOf s) (hstore : s'.store = s.store)
    (hmaps : s'.fieldMaps = s.fieldMaps) (hshapes : s'.shapes.entries = s.shapes.entries)
    (hinputs : s'.inputs.entries = s.inputs.entries) (htracker : s'.tracker = s.tracker) :
    Keeping c documents jobOf s' := by
  have henabled : s'.tracker.enabled = s.tracker.enabled := by rw [htracker]
  have hp : s'.progress = s.progress := by simp only [State.progress, State.fieldsAt, hstore, hmaps]
  exact ⟨⟨h.idle.sound.congr hstore hmaps hshapes hinputs henabled, htracker ▸ h.idle.closed⟩, hp ▸ h.placed,
    hp ▸ h.worded, hstore ▸ h.fragments, hstore ▸ h.operations, h.rooted.congr hstore hinputs henabled fun _ => id⟩

/-- More documents change nothing. -/
theorem more (h : Keeping c documents jobOf s) (hdocuments : ∀ e ∈ documents, e ∈ documents') :
    Keeping c documents' jobOf s := by
  have hjobs : ∀ j, j ∈ allJobs c.toConfig documents → j ∈ allJobs c.toConfig documents' := by
    intro j hj
    obtain ⟨e, he, hj⟩ := List.mem_flatMap.1 hj
    exact List.mem_flatMap.2 ⟨e, hdocuments e he, hj⟩
  refine ⟨h.idle, h.placed, h.worded, fun name hname => ?_, fun node n hnode hn j hj => ?_, h.rooted.congr rfl rfl rfl hjobs⟩
  · obtain ⟨f, d, hf, hd, hfd⟩ := h.fragments name hname
    exact ⟨f, d, hf, hdocuments _ hd, hfd⟩
  · exact hjobs j (h.operations node n hnode hn j hj)

/-- What stays was not made in the file. -/
theorem home_ne (h : Keeping c documents jobOf s) (hp : Purged file s s') (hne : file ≠ "") {node : Node} {n : Need}
    {home : String} (hnode : Assoc.has s'.store node) (hn : needOf jobOf node = some n)
    (hhome : n.home? c.toSources = some home) : home ≠ file := by
  rintro rfl
  obtain ⟨a, ha⟩ := Option.isSome_iff_exists.1 hnode
  obtain ⟨ha, ho⟩ := (hp.store node a).1 ha
  have hfile := h.placed node _ n home (by rw [get?_progress, ha]; rfl) hn hhome hne
  have hdep : a.origin.dependsOn home := by
    rw [Origin.dependsOn, show a.origin.file = home from hfile]
    simp
  rw [hdep] at ho
  cases ho

/-- What came from other files is kept when a document changes. -/
theorem purge (h : Keeping c documents jobOf s) (hp : Purged file s s') (hne : file ≠ "")
    (henabled : s.tracker.enabled) (hdocuments : ∀ e ∈ documents, e.1 ≠ file → e ∈ documents') :
    Keeping c documents' jobOf s' := by
  have hhas : ∀ {node}, Assoc.has s'.store node → Assoc.has s.store node := by
    intro node hnode
    obtain ⟨a, ha⟩ := Option.isSome_iff_exists.1 hnode
    rw [Assoc.has, ((hp.store node a).1 ha).1]
    rfl
  refine ⟨⟨h.idle.sound.purge hp hne henabled, hp.tracker ▸ h.idle.closed⟩, fun node piece n home hget hn hhome hne' => ?_,
    fun node hnode => h.worded node ?_, fun name hname => ?_, fun node n hnode hn j hj => ?_,
    h.rooted.purge hp hne henabled fun j hj hfile => mem_allJobs_of_ne hj hfile hdocuments⟩
  · rw [get?_progress] at hget
    obtain ⟨a, ha, rfl⟩ := Option.map_eq_some_iff.1 hget
    exact h.placed node ⟨a.toDraft, a.origin.file, s.fieldsAt node⟩ n home
      (by rw [get?_progress, ((hp.store node a).1 ha).1]; rfl) hn hhome hne'
  · rw [has_progress] at hnode ⊢
    exact hhas hnode
  · obtain ⟨f, d, hf, hd, hfd⟩ := h.fragments name (hhas hname)
    refine ⟨f, d, hf, hdocuments _ hd ?_, hfd⟩
    exact h.home_ne hp hne hname rfl (congrArg (Option.map FragmentDef.file) hf)
  · refine mem_allJobs_of_ne (h.operations node n (hhas hnode) hn j hj) ?_ hdocuments
    exact h.home_ne hp hne hnode hn (by rcases hj with rfl | rfl <;> rfl)

/-- The fragments that were made are those of the documents. -/
theorem unmoved (h : Keeping c documents jobOf s) (hu : UniqueNames documents) :
    Unmoved c.toSources (Workspace.collectFragments documents) s where
  same name hname := by
    obtain ⟨f, d, hf, hd, hfd⟩ := h.fragments name hname
    have hcollected := hu.get?_collectFragments hd hfd
    rw [h.idle.sound.named name f hf] at hcollected
    rw [hcollected, hf]
  named name f hf := (mem_of_collectFragments hf).1

/-- The operations that were made are those of the documents. -/
theorem needOf_firstJob (h : Keeping c documents jobOf s) (hu : UniqueNames documents) {node : Node}
    (hnode : Assoc.has s.store node) : needOf (firstJob (allJobs c.toConfig documents)) node = needOf jobOf node := by
  obtain ⟨a, ha⟩ := Option.isSome_iff_exists.1 hnode
  obtain ⟨⟨n, hn, hmet⟩, -⟩ := h.idle.sound.made node a ha
  have hn' := Need.node_of_complete hmet
  have hjob : ∀ j, n = .operation j ∨ n = .arguments j → firstJob (allJobs c.toConfig documents) j.name = some j :=
    fun j hj => hu.firstJob (h.operations node n hnode hn j hj)
  rw [hn]
  cases n with
  | declared d =>
    cases hn'
    exact needOf_declared _ d
  | code type => cases hn'
  | fragment name =>
    cases hn'
    rfl
  | operation j =>
    cases hn'
    exact needOf_operation (hjob j (Or.inl rfl))
  | arguments j =>
    cases hn'
    exact needOf_variables (hjob j (Or.inr rfl))

theorem writable_withFragments {c : Sources} {fragments : Assoc String FragmentDef} :
    Writable (c.withFragments fragments) = Writable c := by
  funext type
  have hsame : Plan.Same c fragments (codePlan c.toConfig type) (codePlan c.toConfig type) :=
    Plan.same_of_codes _ (codes_codePlan type)
  exact congrArg (fun outcome => ∃ text, outcome = Except.ok text) hsame.outcome

/-- What is kept is right for the documents as they are. -/
theorem collecting (h : Keeping c documents jobOf s) (hu : UniqueNames documents) :
    Keeping (c.withFragments (Workspace.collectFragments documents)) documents
      (firstJob (allJobs c.toConfig documents)) s := by
  have hunmoved := h.unmoved hu
  have hjobs : ∀ node, Assoc.has s.store node →
      needOf (firstJob (allJobs c.toConfig documents)) node = needOf jobOf node := fun _ => h.needOf_firstJob hu
  have hsound := h.idle.sound.withFragments hunmoved hjobs
  rw [← writable_withFragments] at hsound
  have hhas : ∀ {node} {a : Artifact ArtifactKind}, Assoc.get? s.store node = some a → Assoc.has s.store node :=
    fun ha => by rw [Assoc.has, ha]; rfl
  refine ⟨⟨hsound, h.idle.closed⟩, fun node piece n home hget hn hhome hne => ?_, fun node hnode type htype => ?_,
    fun name hname => ?_, fun node n hnode hn j hj => h.operations node n hnode (hjobs node hnode ▸ hn) j hj, fun node a ha type ht => ?_,
    fun hcached type text o ho => (h.rooted.kept hcached type text o ho).withFragments⟩
  · have hnode : Assoc.has s.store node := by
      rw [← has_progress, Assoc.has, hget]
      rfl
    have hn' := hjobs node hnode ▸ hn
    refine h.placed node piece n home hget hn' (hhome ▸ ?_) hne
    cases n with
    | fragment name =>
      obtain ⟨a, ha⟩ := Option.isSome_iff_exists.1 hnode
      obtain ⟨⟨n', hn'', hmet⟩, -⟩ := h.idle.sound.made node a ha
      cases hn'.symm.trans hn''
      cases Need.node_of_complete hmet
      exact congrArg (Option.map FragmentDef.file) (hunmoved.same name hnode).symm
    | declared d | code type | operation j | arguments j => rfl
  · have hmade := hnode
    rw [has_progress] at hmade
    have hsame := h.idle.sound.needsAt_withFragments hunmoved hmade (hjobs node hmade)
    exact (congrFun writable_withFragments type).mpr (h.worded node hnode type ((congrArg (.code type ∈ ·) hsame).mp htype))
  · obtain ⟨f, d, hf, hd, hfd⟩ := h.fragments name hname
    exact ⟨f, d, (hunmoved.same name hname).trans hf, hd, hfd⟩
  · refine (h.rooted.made node a ha type ?_).withFragments
    rwa [← h.idle.sound.needsAt_withFragments hunmoved (hhas ha) (hjobs node (hhas ha))]

theorem jobsFit_of_known {jobs : List Job} {made : String → Prop} (h : ∀ j ∈ jobs, jobOf j.name = some j) :
    JobsFit jobOf made jobs := by
  induction jobs generalizing made with
  | nil => trivial
  | cons j rest ih => exact ⟨fun _ => h j List.mem_cons_self, ih fun i hi => h i (List.mem_cons_of_mem j hi)⟩

/-- An operation of the documents is known by its name, and has a file. -/
theorem told_of_unique (hu : UniqueNames documents) (hfiles : ∀ e ∈ documents, e.1 ≠ "") {j : Job}
    (hj : j ∈ allJobs c.toConfig documents) : Told (firstJob (allJobs c.toConfig documents)) j := by
  refine ⟨hu.firstJob hj, ?_⟩
  obtain ⟨e, he, hj⟩ := List.mem_flatMap.1 hj
  exact file_of_mem_jobsOf hj ▸ hfiles e he

/-- A build makes the runs of its sections. -/
theorem passes (h : Keeping c documents (firstJob (allJobs c.toConfig documents)) s)
    (hfragments : c.fragments = Workspace.collectFragments documents) (hu : UniqueNames documents) (skipUnused : Bool)
    (operations : Assoc String CollectedOperation) :
    PassesAt c (Writable c.toSources) (firstJob (allJobs c.toConfig documents)) (· ∈ allJobs c.toConfig documents)
      (sectionsOf c.toConfig skipUnused documents) (Workspace.generateAll c skipUnused documents operations)
      (fun s' after => ∃ entries, Collected c.toSources (firstJob (allJobs c.toConfig documents))
        (allJobs c.toConfig documents) operations s' entries after) s :=
  passes_generateAll h.idle.sound.named skipUnused (fun _ he _ hf => hfragments ▸ known_collectFragments he hf) operations
    h.idle (fun _ => id) (jobsFit_of_known fun _ hj => hu.firstJob hj)

/-- What a build keeps, unless it fails. -/
theorem build (h : Keeping c documents (firstJob (allJobs c.toConfig documents)) s)
    (hfragments : c.fragments = Workspace.collectFragments documents) (hu : UniqueNames documents)
    (hfiles : ∀ e ∈ documents, e.1 ≠ "") (hout : c.schema.OutputTyped) (skipUnused : Bool)
    (operations : Assoc String CollectedOperation) :
    (∃ e, ((Workspace.generateAll c skipUnused documents operations).runOn s).1 = .error e) ∨
    ∃ after s', (Workspace.generateAll c skipUnused documents operations).runOn s = (.ok after, s') ∧
      Keeping c documents (firstJob (allJobs c.toConfig documents)) s' ∧
      s'.tracker.enabled = s.tracker.enabled ∧
      ∀ j ∈ allJobs c.toConfig documents, Generated s' j.name := by
  have htold : ∀ j, j ∈ allJobs c.toConfig documents → Told (firstJob (allJobs c.toConfig documents)) j :=
    fun j => told_of_unique hu hfiles
  have hpasses := h.passes hfragments hu skipUnused operations
  rcases hpasses with ⟨e, -, he⟩ | ⟨after, s', hp, hrun, hidle, hyields, entries, hcollected⟩
  · exact Or.inl ⟨e, he⟩
  · refine Or.inr ⟨after, s', hrun, ⟨hidle, ?_, ?_, fun name hname => ?_, fun node n hnode hn j hj => ?_,
      h.rooted.grow htold hout hyields⟩, hyields.kept.enabled, fun j hj => ?_⟩
    · exact hp.placed h.placed (atHome_sectionsOf fun j hj => (htold j hj).known)
    · exact hp.worded h.worded (atHome_sectionsOf fun j hj => (htold j hj).known)
    · obtain ⟨a, ha⟩ := Option.isSome_iff_exists.1 hname
      obtain ⟨⟨n, hn, hmet⟩, -⟩ := hidle.sound.made _ a ha
      cases hn
      obtain ⟨f, hf⟩ := Need.known_of_complete hmet
      obtain ⟨-, d, hd, hfd⟩ := mem_of_collectFragments (hfragments ▸ hf)
      exact ⟨f, d, hf, hd, hfd⟩
    · obtain ⟨name, hname⟩ := job_of_needOf hn hj
      exact List.mem_of_find?_eq_some hname
    · rw [← hcollected.jobs] at hj
      obtain ⟨entry, hentry, rfl⟩ := List.mem_map.1 hj
      obtain ⟨_, -, hattributed⟩ := hcollected.attributed entry hentry
      exact hattributed.generated

end Keeping

end Keeping

end Compile

end ResponseTypes
