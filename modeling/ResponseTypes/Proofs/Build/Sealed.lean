import ResponseTypes.Proofs.Build.History
import ResponseTypes.Proofs.Plan.Sealing

/-!
# Closed dependencies

`Workspace.Tracked` : what a workspace that tracks dependencies can become.  In all such workspaces what an artifact depends
on includes all that the artifacts it lists depend on, so that none of them is discarded as long as it stays
(`Tracked.keys_closed`).  Input types that refer to themselves are excepted: while such a type is made, others refer to it
by name.
-/

namespace ResponseTypes

set_option autoImplicit false

open Dependency (fileKey)

namespace Compile

/-! ## Purging -/

variable {config : Config} {s : State}

/-- An artifact that does not depend on a file stays when what depends on the file is discarded. -/
theorem mem_purge {store : Store ArtifactKind} {file : String} {e : Node × Artifact ArtifactKind} :
    e ∈ Store.purge store file ↔ e ∈ store ∧ e.2.origin.file ≠ file ∧ fileKey file ∉ e.2.origin.keys := by
  simp [Store.purge, Origin.dependsOn]

theorem not_mem_of_not_dependsOn {o : Origin} {file : String} (h : (!o.dependsOn file) = true) : fileKey file ∉ o.keys := by
  simp only [Origin.dependsOn, Bool.not_eq_true', Bool.or_eq_false_iff] at h
  simpa using h.2

/-- What an artifact lists with all its keys stays if the artifact does. -/
theorem mem_purge_of_listed {store : Store ArtifactKind} {file : String} {keys : List String}
    (hkeys : fileKey file ∉ keys) {e : Node × Artifact ArtifactKind} (he : e ∈ store)
    (hfile : fileKey e.2.origin.file ∈ keys) (hsub : ∀ k ∈ e.2.origin.keys, k ∈ keys) : e ∈ Store.purge store file :=
  mem_purge.2 ⟨he, fun heq => hkeys (heq ▸ hfile), fun hk => hkeys (hsub _ hk)⟩

/-- Purging a state in which no scope is open leaves it sealed. -/
theorem State.Sealed.without (h : s.Sealed config) (hidle : s.tracker.scopes = []) (file : String) :
    (s.without file).Sealed config := by
  have hkeys : ∀ keys, fileKey file ∉ keys → Compile.Sealed config s.store keys →
      Compile.Sealed config (Store.purge s.store file) keys := by
    intro keys hfile hsealed k hk
    refine (hsealed k hk).imp_right fun ⟨e, he, hid, hsub⟩ => ⟨e, ?_, hid, hsub⟩
    exact mem_purge_of_listed hfile he (hsub _ (h.store e he).1) hsub
  refine ⟨h.tracking, fun e he => ?_, fun e he => ?_, fun e he => ?_, fun scope hscope => ?_⟩
  · obtain ⟨he, -, hfile⟩ := mem_purge.1 he
    exact ⟨(h.store e he).1, hkeys _ hfile (h.store e he).2⟩
  · obtain ⟨he, hfile⟩ := List.mem_filter.1 he
    exact hkeys _ (not_mem_of_not_dependsOn hfile) (h.shapes e he)
  · obtain ⟨he, hfile⟩ := List.mem_filter.1 he
    exact hkeys _ (not_mem_of_not_dependsOn hfile) (h.inputs e he)
  · change scope ∈ s.tracker.scopes at hscope
    rw [hidle] at hscope
    cases hscope

/-- Nothing is recorded in a new state. -/
theorem sealed_initial : (State.initial true).Sealed config := by
  refine ⟨rfl, fun e he => ?_, fun e he => ?_, fun e he => ?_, fun scope hscope => ?_⟩
  · cases he
  · cases he
  · cases he
  · cases hscope

theorem State.Sealed.withJournal (h : s.Sealed config) (journal : List Message) : ({ s with journal } : State).Sealed config :=
  ⟨h.tracking, h.store, h.shapes, h.inputs, h.scopes⟩

end Compile

open Compile
open GraphQL (Document)

namespace Workspace

/-! ## Workspaces -/

/-- What a workspace that tracks dependencies can become. -/
inductive Tracked : Workspace → Prop
  | new (schema : Schema) {options : Options} : options.trackDependencies = true → Tracked (Workspace.new schema options)
  | add {w : Workspace} (documents : List (String × Document)) : Tracked w → Tracked (w.add documents).2
  | update {w : Workspace} (documents : List (String × Document)) : Tracked w → Tracked (w.update documents).2
  | remove {w : Workspace} (file : String) : Tracked w → Tracked (w.remove file)
  | build {w : Workspace} : Tracked w → Tracked w.build.2

/-- All keys that a workspace holds are sealed, and nothing is being made. -/
structure AllSealed (w : Workspace) : Prop where
  tracking : w.options.trackDependencies = true
  idle : w.state.tracker.scopes = []
  state : w.state.Sealed w.setup.toConfig

namespace AllSealed

variable {w : Workspace}

theorem add (h : w.AllSealed) (documents : List (String × Document)) : (w.add documents).2.AllSealed := by
  induction documents generalizing w with
  | nil => exact h
  | cons e rest ih =>
    obtain ⟨file, d⟩ := e
    rw [Workspace.add]
    split
    · exact h
    · exact ih ⟨h.tracking, h.idle, h.state⟩

theorem purge (h : w.AllSealed) (file : String) : (w.purge file).AllSealed := by
  obtain ⟨journal, hpurge⟩ := w.purge_eq file
  rw [hpurge, h.tracking]
  exact ⟨h.tracking, h.idle, (h.state.without h.idle file).withJournal journal⟩

theorem update (h : w.AllSealed) (documents : List (String × Document)) : (w.update documents).2.AllSealed := by
  induction documents generalizing w with
  | nil => exact h
  | cons e rest ih =>
    obtain ⟨file, d⟩ := e
    rw [Workspace.update]
    split
    · have hpurged := h.purge file
      exact ih ⟨hpurged.tracking, hpurged.idle, hpurged.state⟩
    · exact h

theorem remove (h : w.AllSealed) (file : String) : (w.remove file).AllSealed := by
  have hless : ({ w with documents := Assoc.erase w.documents file } : Workspace).AllSealed := ⟨h.tracking, h.idle, h.state⟩
  exact hless.purge file

theorem build (h : w.AllSealed) : w.build.2.AllSealed := by
  rw [build_eq]
  rcases hrun : w.buildStep.runOn w.state with ⟨e | after, s⟩
  · dsimp only
    have hsteady := steady_generateAll w.options.skipUnusedFragments w.documents w.operations (c := w.collecting.setup) w.state
    change (w.buildStep.runOn w.state).2.tracker.enabled = _ at hsteady
    rw [hrun] at hsteady
    have hreset : s.reset = { State.initial true with journal := s.journal } := by
      rw [State.reset, hsteady, h.state.tracking]
    refine ⟨h.tracking, ?_, ?_⟩
    · change s.reset.tracker.scopes = []
      rw [hreset]
      rfl
    · change s.reset.Sealed w.setup.toConfig
      rw [hreset]
      exact sealed_initial.withJournal _
  · have hsealing : Sealing w.setup.toConfig [] w.state s :=
      (rules_seals (c := w.collecting.setup)).builds.generateAll _ _ _ _ _ _ h.state hrun
    have hidle : s.tracker.scopes = [] := by
      have hfiles := hsealing.files
      rw [h.idle] at hfiles
      simpa using hfiles
    dsimp only
    split
    · exact ⟨h.tracking, hidle, hsealing.result.withJournal _⟩
    · exact ⟨h.tracking, hidle, hsealing.result⟩

end AllSealed

/-- What calls lead to is sealed. -/
theorem Tracked.allSealed {w : Workspace} (h : w.Tracked) : w.AllSealed := by
  induction h with
  | new schema htracking =>
    refine ⟨htracking, rfl, ?_⟩
    change (State.initial _).Sealed _
    rw [htracking]
    exact sealed_initial
  | add documents _ ih => exact ih.add documents
  | update documents _ ih => exact ih.update documents
  | remove file _ ih => exact ih.remove file
  | build _ ih => exact ih.build

/-! ## What stays -/

section Stays

variable {w : Workspace} {x z : Node × Artifact ArtifactKind}

theorem store_purge (h : w.options.trackDependencies = true) (file : String) :
    (w.purge file).state.store = Store.purge w.state.store file := by
  obtain ⟨journal, hpurge⟩ := w.purge_eq file
  rw [hpurge, h]
  rfl

/-- An update stops at a document that there is not, or purges for it and goes on. -/
theorem update_cons (h : w.options.trackDependencies = true) (e : String × Document) (rest : List (String × Document)) :
    (w.update (e :: rest)).2 = w ∨ ∃ w' : Workspace, w'.options.trackDependencies = true ∧
      w'.state.store = Store.purge w.state.store e.1 ∧ (w.update (e :: rest)).2 = (w'.update rest).2 := by
  obtain ⟨journal, hpurge⟩ := w.purge_eq e.1
  rw [Workspace.update]
  split
  · refine Or.inr ⟨{ w.purge e.1 with documents := Assoc.insert (w.purge e.1).documents e.1 e.2 }, ?_, store_purge h e.1, rfl⟩
    rw [hpurge]
    exact h
  · exact Or.inl rfl

/-- A purge brings no artifacts. -/
theorem mem_of_mem_purge {file : String} (hx : x ∈ (w.purge file).state.store) : x ∈ w.state.store := by
  obtain ⟨journal, hpurge⟩ := w.purge_eq file
  rw [hpurge] at hx
  cases htracking : w.options.trackDependencies with
  | false =>
    rw [htracking] at hx
    cases hx
  | true =>
    rw [htracking] at hx
    exact (mem_purge.1 hx).1

/-- An update brings no artifacts. -/
theorem mem_of_mem_update (documents : List (String × Document)) (hx : x ∈ (w.update documents).2.state.store) :
    x ∈ w.state.store := by
  induction documents generalizing w with
  | nil => exact hx
  | cons e rest ih =>
    rw [Workspace.update] at hx
    split at hx
    · have hpurged := ih hx
      exact mem_of_mem_purge hpurged
    · exact hx

/-- What an artifact lists with all its keys is discarded with a document only if the artifact is. -/
theorem mem_remove_of_listed (h : w.options.trackDependencies = true) (hz : z ∈ w.state.store)
    (hfile : fileKey z.2.origin.file ∈ x.2.origin.keys) (hsub : ∀ k ∈ z.2.origin.keys, k ∈ x.2.origin.keys)
    {file : String} (hx : x ∈ (w.remove file).state.store) : z ∈ (w.remove file).state.store := by
  have hstore : (w.remove file).state.store = Store.purge w.state.store file :=
    store_purge (w := { w with documents := Assoc.erase w.documents file }) h file
  rw [hstore] at hx ⊢
  exact mem_purge_of_listed (mem_purge.1 hx).2.2 hz hfile hsub

/-- What an artifact lists with all its keys is discarded by an update only if the artifact is. -/
theorem mem_update_of_listed (h : w.options.trackDependencies = true) (hz : z ∈ w.state.store)
    (hfile : fileKey z.2.origin.file ∈ x.2.origin.keys) (hsub : ∀ k ∈ z.2.origin.keys, k ∈ x.2.origin.keys)
    {documents : List (String × Document)} (hx : x ∈ (w.update documents).2.state.store) :
    z ∈ (w.update documents).2.state.store := by
  induction documents generalizing w with
  | nil => exact hz
  | cons e rest ih =>
    rcases update_cons h e rest with heq | ⟨w', h', hstore, heq⟩
    · rwa [heq]
    · rw [heq] at hx ⊢
      refine ih h' ?_ hx
      have hmem := mem_of_mem_update rest hx
      rw [hstore] at hmem ⊢
      exact mem_purge_of_listed (mem_purge.1 hmem).2.2 hz hfile hsub

end Stays

/-- Neither files nor uses of fragments are artifacts. -/
theorem kindName_ne (kind : ArtifactKind) :
    KindName.name kind ≠ Dependency.fileKind ∧ KindName.name kind ≠ Dependency.fragmentUseKind := by
  cases kind <;> decide

/-- The key of an artifact stands alone only if it is that of an input type that refers to itself. -/
theorem single_id {config : Config} {y : Artifact ArtifactKind} (h : config.Single y.id) :
    ∃ name, config.SelfReferring name ∧ y.id = config.inputKey name := by
  have hread : Dependency.ofKey y.id = y.asDependency := Dependency.ofKey_key (by cases y.kind <;> decide) y.name
  generalize y.id = k at h hread
  cases h with
  | file file =>
    rw [fileKey, Dependency.ofKey_key (by decide)] at hread
    exact absurd (congrArg Dependency.kind hread).symm (kindName_ne y.kind).1
  | fragmentUse fragment =>
    rw [Dependency.ofKey_fragmentUseKey] at hread
    exact absurd (congrArg Dependency.kind hread).symm (kindName_ne y.kind).2
  | input hname => exact ⟨_, hname, rfl⟩

/-- If an artifact depends on another one, then on all that an artifact with the key of the other depends on, which stays as
long as the first does.  Only the keys of input types that refer to themselves may be listed without what these depend on. -/
theorem Tracked.keys_closed {w : Workspace} (h : w.Tracked) {x : Node × Artifact ArtifactKind} {y : Artifact ArtifactKind}
    (hx : x ∈ w.state.store) (hlists : y.id ∈ x.2.origin.keys)
    (hself : ∀ name, w.setup.toConfig.SelfReferring name → y.id ≠ w.setup.toConfig.inputKey name) :
    ∃ z ∈ w.state.store, z.2.id = y.id ∧ (∀ k ∈ z.2.origin.keys, k ∈ x.2.origin.keys) ∧
      fileKey z.2.origin.file ∈ x.2.origin.keys ∧
      (∀ documents, x ∈ (w.update documents).2.state.store → z ∈ (w.update documents).2.state.store) ∧
      ∀ file, x ∈ (w.remove file).state.store → z ∈ (w.remove file).state.store := by
  have hsealed := h.allSealed
  rcases (hsealed.state.store x hx).2 _ hlists with hsingle | ⟨z, hz, hid, hsub⟩
  · obtain ⟨name, hname, hkey⟩ := single_id hsingle
    exact absurd hkey (hself name hname)
  · have hfile := hsub _ (hsealed.state.store z hz).1
    exact ⟨z, hz, hid, hsub, hfile, fun _ => mem_update_of_listed hsealed.tracking hz hfile hsub,
      fun _ => mem_remove_of_listed hsealed.tracking hz hfile hsub⟩

/-! ## Input types that refer to each other -/

section Circular

open GraphQL (Operation Selection TypeDef)

/-- One field of a scalar type. -/
def oneScalar : List Selection := [.field ⟨none, "x", [], []⟩ []]

/-- A workspace whose input types `A` and `B` refer to each other.  The enums `E` and `e` have one name in the output. -/
def circularInputs : Workspace :=
  let schema : Schema :=
    { types := [("Query", ⟨"Query", .object [] [⟨"x", .named "ID", [], none⟩], none⟩), ("ID", ⟨"ID", .scalar, none⟩),
        ("A", ⟨"A", .input [⟨"b", .named "B", none⟩, ⟨"e", .named "E", none⟩], none⟩),
        ("B", ⟨"B", .input [⟨"a", .named "A", none⟩], none⟩),
        ("E", ⟨"E", .enum [⟨"X", none⟩], none⟩), ("e", ⟨"e", .enum [⟨"X", none⟩], none⟩)]
      roots := [(.query, "Query")]
      keyed := by decide }
  let first : Document := ⟨[.operation ⟨.query, some "R", [⟨"e", .named "E", false⟩], [], oneScalar, none⟩]⟩
  let second : Document :=
    ⟨[.operation ⟨.query, some "Q", [⟨"a", .named "A", false⟩, ⟨"e", .named "e", false⟩], [], oneScalar, none⟩]⟩
  ((Workspace.new schema { useCache := false }).add [("first", first), ("second", second)]).2

/-- What `circularInputs` is compiled from. -/
def circularSetup : Setup := circularInputs.collecting.setup

/-- The origins of what a build of `circularInputs` keeps. -/
theorem origins_circularInputs : circularInputs.build.2.state.store.map (fun e => (e.1, e.2.id, e.2.origin)) =
    [((.operation, "R"), "operation:RQuery", ⟨"first", ["operation:RQuery", "file:first"]⟩),
      ((.typeHelper, "Exact"), "type-helper:Exact", ⟨"first", ["type-helper:Exact", "file:first"]⟩),
      ((.enum, "E"), "enum:E", ⟨"first", ["enum:E", "file:first"]⟩),
      ((.operationVariables, "R"), "operation-variables:RQueryVariables",
        ⟨"first", ["type-helper:Exact", "file:first", "enum:E", "operation-variables:RQueryVariables"]⟩),
      ((.operation, "Q"), "operation:QQuery", ⟨"second", ["operation:QQuery", "file:second"]⟩),
      ((.inputType, "B"), "input-type:BInput", ⟨"second", ["input-type:AInput", "input-type:BInput", "file:second"]⟩),
      ((.inputType, "A"), "input-type:AInput",
        ⟨"second", ["input-type:AInput", "input-type:BInput", "file:second", "enum:E", "file:first"]⟩),
      ((.enum, "e"), "enum:E", ⟨"second", ["enum:E", "file:second"]⟩),
      ((.operationVariables, "Q"), "operation-variables:QQueryVariables",
        ⟨"second", ["type-helper:Exact", "file:first", "input-type:AInput", "input-type:BInput", "file:second", "enum:E",
          "operation-variables:QQueryVariables"]⟩)] := by
  decide +kernel

theorem tracked_circularInputs : circularInputs.Tracked :=
  .add _ (.new _ rfl)

theorem exists_kept {w : Workspace} {node : Node} {id : String} {o : Origin}
    (h : (node, id, o) ∈ w.state.store.map (fun e => (e.1, e.2.id, e.2.origin))) :
    ∃ e ∈ w.state.store, e.1 = node ∧ e.2.id = id ∧ e.2.origin = o := by
  obtain ⟨e, he, heq⟩ := List.mem_map.1 h
  cases heq
  exact ⟨e, he, rfl, rfl, rfl⟩

/-- The variables of an operation list an enum with its file. -/
theorem keys_closed_circularInputs :
    let w := circularInputs.build.2
    w.Tracked ∧ ∃ x ∈ w.state.store, x.1 = (.operationVariables, "Q") ∧ "enum:E" ∈ x.2.origin.keys ∧
      (∀ name, w.setup.toConfig.SelfReferring name → "enum:E" ≠ w.setup.toConfig.inputKey name) ∧
      ∃ z ∈ w.state.store, z.2.id = "enum:E" ∧
        (∀ k ∈ z.2.origin.keys, k ∈ x.2.origin.keys) ∧ fileKey z.2.origin.file ∈ x.2.origin.keys ∧
        (∀ documents, x ∈ (w.update documents).2.state.store → z ∈ (w.update documents).2.state.store) ∧
        ∀ file, x ∈ (w.remove file).state.store → z ∈ (w.remove file).state.store := by
  intro w
  have htracked : w.Tracked := .build tracked_circularInputs
  have hmem : ((.operationVariables, "Q"), "operation-variables:QQueryVariables",
      (⟨"second", ["type-helper:Exact", "file:first", "input-type:AInput", "input-type:BInput", "file:second", "enum:E",
          "operation-variables:QQueryVariables"]⟩ : Origin)) ∈
        w.state.store.map (fun e => (e.1, e.2.id, e.2.origin)) := by
    rw [origins_circularInputs]
    decide
  have henum : ((.enum, "E"), "enum:E", (⟨"first", ["enum:E", "file:first"]⟩ : Origin)) ∈
      w.state.store.map (fun e => (e.1, e.2.id, e.2.origin)) := by
    rw [origins_circularInputs]
    decide
  obtain ⟨x, hx, hnode, -, horigin⟩ := exists_kept hmem
  obtain ⟨y, -, -, hid, -⟩ := exists_kept henum
  have hlists : "enum:E" ∈ x.2.origin.keys := by
    rw [horigin]
    decide
  have hself : ∀ name, w.setup.toConfig.SelfReferring name → "enum:E" ≠ w.setup.toConfig.inputKey name := by
    intro name _ heq
    have hread : Dependency.ofKey "enum:E" = ⟨ArtifactKind.inputType.name, w.setup.toConfig.naming.input name⟩ :=
      heq ▸ Dependency.ofKey_key (by decide) _
    have hkind : (Dependency.ofKey "enum:E").kind = ArtifactKind.inputType.name := congrArg Dependency.kind hread
    exact absurd hkind (by decide)
  refine ⟨htracked, x, hx, hnode, hlists, hself, ?_⟩
  rw [← hid] at hlists hself ⊢
  exact htracked.keys_closed hx hlists hself

/-- An artifact lists another one, but not a file that the other depends on: without the document of that file the first
is kept and the other is not. -/
def KeepsWithout (w : Workspace) (file : String) (lists listed : Node) : Prop :=
  ∃ x ∈ w.state.store, ∃ y ∈ w.state.store, x.1 = lists ∧ y.1 = listed ∧ y.2.id ∈ x.2.origin.keys ∧
    fileKey file ∈ y.2.origin.keys ∧ fileKey file ∉ x.2.origin.keys ∧
    x ∈ (w.remove file).state.store ∧ y ∉ (w.remove file).state.store

theorem keepsWithout_of_origins {w : Workspace} (hw : w.options.trackDependencies = true) {file id id' : String}
    {node node' : Node} {o o' : Origin} (h : (node, id, o) ∈ w.state.store.map (fun e => (e.1, e.2.id, e.2.origin)))
    (h' : (node', id', o') ∈ w.state.store.map (fun e => (e.1, e.2.id, e.2.origin))) (hlists : id' ∈ o.keys)
    (hfile : fileKey file ∈ o'.keys) (hne : o.file ≠ file) (hnot : fileKey file ∉ o.keys) :
    w.KeepsWithout file node node' := by
  obtain ⟨x, hx, rfl, -, rfl⟩ := exists_kept h
  obtain ⟨y, hy, rfl, rfl, rfl⟩ := exists_kept h'
  have hstore : (w.remove file).state.store = Store.purge w.state.store file :=
    store_purge (w := { w with documents := Assoc.erase w.documents file }) hw file
  refine ⟨x, hx, y, hy, rfl, rfl, hlists, hfile, hnot, ?_, fun hmem => ?_⟩
  · rw [hstore]
    exact mem_purge.2 ⟨hx, hne, hnot⟩
  · rw [hstore] at hmem
    exact (mem_purge.1 hmem).2.2 hfile

/-- An input type that is made while one that refers to it is in the making lists the other without what that depends on; and
an enum lists itself, which is the key of another enum of the same name. -/
theorem keepsWithout_circularInputs :
    let w := circularInputs.build.2
    w.Tracked ∧ (w.KeepsWithout "first" (.inputType, "B") (.inputType, "A") ∧
      ∀ z ∈ w.state.store, z.2.id = "input-type:AInput" → z.1 = (.inputType, "A")) ∧
    w.KeepsWithout "second" (.enum, "E") (.enum, "e") := by
  intro w
  have htracked : w.Tracked := .build tracked_circularInputs
  have hkept : ∀ {p : Node × String × Origin}, p ∈ [
      ((.inputType, "B"), "input-type:BInput",
        (⟨"second", ["input-type:AInput", "input-type:BInput", "file:second"]⟩ : Origin)),
      ((.inputType, "A"), "input-type:AInput",
        ⟨"second", ["input-type:AInput", "input-type:BInput", "file:second", "enum:E", "file:first"]⟩),
      ((.enum, "E"), "enum:E", ⟨"first", ["enum:E", "file:first"]⟩),
      ((.enum, "e"), "enum:E", ⟨"second", ["enum:E", "file:second"]⟩)] →
      p ∈ w.state.store.map (fun e => (e.1, e.2.id, e.2.origin)) := by
    intro p hp
    rw [origins_circularInputs]
    revert p
    decide
  have hlone : ∀ p ∈ w.state.store.map (fun e => (e.1, e.2.id, e.2.origin)),
      p.2.1 = "input-type:AInput" → p.1 = (.inputType, "A") := by
    rw [origins_circularInputs]
    decide
  refine ⟨htracked, ⟨?_, fun z hz => hlone _ (List.mem_map_of_mem hz)⟩, ?_⟩
  · refine keepsWithout_of_origins htracked.allSealed.tracking (hkept (.head _))
      (hkept (.tail _ (.head _))) ?_ ?_ ?_ ?_ <;> decide
  · refine keepsWithout_of_origins htracked.allSealed.tracking (hkept (.tail _ (.tail _ (.head _))))
      (hkept (.tail _ (.tail _ (.tail _ (.head _))))) ?_ ?_ ?_ ?_ <;> decide

end Circular

end Workspace

end ResponseTypes
