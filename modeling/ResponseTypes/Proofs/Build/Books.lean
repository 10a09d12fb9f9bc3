import ResponseTypes.Proofs.Build.History
import ResponseTypes.Proofs.Plan.Upkeep

/-!
# The books of a workspace

`Workspace.Arises` : what a workspace can become with documents from files with names, whose response keys are names, as they
are in all documents that were read (`filed_of_read`); what is in them is not restricted.  Its books are in order all the time (`Booked`), so no build fails because of them, and a build leaves
nothing open (`Arises.build_keeps_books`).
-/

namespace ResponseTypes

set_option autoImplicit false

open Compile
open GraphQL (Document)

namespace Compile.Orderly

variable {c : Sources} {homes homes' : String → String → Prop} {n : Nat} {s : State}

/-- While nothing is in progress, the books have nothing to do with the fragments there are. -/
theorem sources {c' : Sources} (h : Orderly c (.idle homes) n s) (hc : c'.toConfig = c.toConfig) :
    Orderly c' (.idle homes) n s :=
  { h with
    pending := fun _ hname => absurd hname List.not_mem_nil
    shapes := hc ▸ h.shapes }

/-- Other files may define the fragments whose fields are kept. -/
theorem rehome (h : Orderly c (.idle homes) n s) (hhomes : ∀ e ∈ s.fieldMaps, homes' e.1 e.2.origin.file) :
    Orderly c (.idle homes') n s :=
  { h with
    pending := fun _ hname => absurd hname List.not_mem_nil
    homes := hhomes }

theorem reset : Orderly c (.idle homes) 0 s.reset :=
  { initial homes s.tracker.enabled with }

/-- A fragment goes before its fields do. -/
theorem without (h : Orderly c (.idle homes) n s) (file : String) : Orderly c (.idle homes) n (s.without file) where
  scopes := h.scopes
  fragmentMarks := h.fragmentMarks
  inputMarks := h.inputMarks
  artifacts := Assoc.nodup_keys_filter h.artifacts _
  maps := Assoc.nodup_keys_filter h.maps _
  unmade _ hname := absurd hname List.not_mem_nil
  pending _ hname := absurd hname List.not_mem_nil
  fields name a ha := by
    obtain ⟨ha, hstays⟩ := (Assoc.get?_filter h.artifacts _ _ _).1 ha
    obtain ⟨m, hm, hfile, hkeys⟩ := h.fields name a ha
    refine ⟨m, (Assoc.get?_filter h.maps _ _ _).2 ⟨hm, ?_⟩, hfile, hkeys⟩
    have hindependent : a.origin.dependsOn file = false := by simpa using hstays
    rw [Origin.dependsOn, Bool.or_eq_false_iff] at hindependent
    have hkey : Dependency.fileKey file ∉ m.origin.keys := fun hmem => by
      simpa [hkeys _ hmem] using hindependent.2
    simp only [Origin.dependsOn, hfile, hindependent.1, Bool.false_or, Bool.not_eq_true', List.contains_eq_mem,
      decide_eq_false_iff_not]
    exact hkey
  homes e he := h.homes e (List.mem_filter.1 he).1
  shapes e he := h.shapes e (List.mem_filter.1 he).1
  regular e he := h.regular e (List.mem_filter.1 he).1

end Compile.Orderly

namespace Workspace

/-- A document of a file with a name, in which response keys are names. -/
def Filed (e : String × Document) : Prop :=
  e.1 ≠ "" ∧ e.2.KeysNamed

theorem filed_of_read {file text : String} {d : Document} (hfile : file ≠ "") (h : Document.read text = some d) :
    Filed (file, d) :=
  ⟨hfile, Document.keysNamed_of_read h⟩

/-- What a workspace can become.  Documents come from files with names. -/
inductive Arises : Workspace → Prop
  | new (schema : Schema) (options : Options) : Arises (Workspace.new schema options)
  | add {w : Workspace} {documents : List (String × Document)} :
      Arises w → (∀ e ∈ documents, Filed e) → Arises (w.add documents).2
  | update {w : Workspace} {documents : List (String × Document)} :
      Arises w → (∀ e ∈ documents, Filed e) → Arises (w.update documents).2
  | remove {w : Workspace} (file : String) : Arises w → Arises (w.remove file)
  | updateSchema {w : Workspace} (schema : Schema) : Arises w → Arises (w.updateSchema schema)
  | resetCaches {w : Workspace} : Arises w → Arises w.resetCaches
  | reset {w : Workspace} : Arises w → Arises w.reset
  | build {w : Workspace} : Arises w → Arises w.build.2

/-- The response keys of collected fragments are names. -/
theorem keysNamed_collecting {w : Workspace} (hd : ∀ e ∈ w.documents, e.2.KeysNamed) :
    w.collecting.setup.toSources.KeysNamed := by
  intro name f hf
  obtain ⟨-, d, hmem, hf⟩ := mem_of_collectFragments hf
  exact (hd _ hmem).fragments _ hf

/-- The books of a workspace are in order, and nothing is open. -/
structure Booked (w : Workspace) : Prop where
  filed : ∀ e ∈ w.documents, Filed e
  orderly : Orderly w.setup.toSources (.idle (Defines w.documents)) 0 w.state

namespace Booked

variable {w : Workspace}

theorem add (h : w.Booked) {documents : List (String × Document)} (hd : ∀ e ∈ documents, Filed e) :
    (w.add documents).2.Booked := by
  induction documents generalizing w with
  | nil => exact h
  | cons e rest ih =>
    obtain ⟨file, d⟩ := e
    obtain ⟨he, hrest⟩ := List.forall_mem_cons.1 hd
    rw [Workspace.add]
    split
    · exact h
    · rename_i hnew
      refine ih ⟨fun e hmem => ?_, h.orderly.rehome fun e hmem => ?_⟩ hrest
      · exact (Assoc.mem_insert hmem).elim (fun heq => heq ▸ he) (h.filed e)
      · obtain ⟨d', hd', hdefines⟩ := h.orderly.homes e hmem
        have hget : Assoc.get? w.documents file = none := by simpa [Assoc.has] using hnew
        exact ⟨d', insert_eq_append hget d ▸ List.mem_append_left _ hd', hdefines⟩

/-- Discarding what depends on a file keeps the books in order when only its document changes. -/
theorem purging (h : w.Booked) {file : String} {documents : Assoc String Document}
    (hdocuments : ∀ e ∈ w.documents, e.1 ≠ file → e ∈ documents) (hfiled : ∀ e ∈ documents, Filed e)
    (operations : Assoc String CollectedOperation) (journal : List Message) :
    ({ w with
      documents
      operations
      state := { (if w.options.trackDependencies then w.state.without file else w.state.reset) with
        journal } } : Workspace).Booked := by
  refine ⟨hfiled, ?_⟩
  dsimp only
  split
  · have hpurged : Orderly w.setup.toSources (.idle (Defines documents)) 0 (w.state.without file) := by
      refine (h.orderly.without file).rehome fun e he => ?_
      obtain ⟨he, hstays⟩ := List.mem_filter.1 he
      obtain ⟨d, hd, hdefines⟩ := h.orderly.homes e he
      refine ⟨d, hdocuments _ hd ?_, hdefines⟩
      rintro rfl
      simp [Origin.dependsOn] at hstays
    exact { hpurged with }
  · exact { (Orderly.reset (c := w.setup.toSources) (s := w.state)) with }

theorem update (h : w.Booked) {documents : List (String × Document)} (hd : ∀ e ∈ documents, Filed e) :
    (w.update documents).2.Booked := by
  induction documents generalizing w with
  | nil => exact h
  | cons e rest ih =>
    obtain ⟨file, d⟩ := e
    obtain ⟨he, hrest⟩ := List.forall_mem_cons.1 hd
    rw [Workspace.update]
    split
    · obtain ⟨journal, hpurge⟩ := w.purge_eq file
      refine ih ?_ hrest
      rw [hpurge]
      refine h.purging (fun e he hne => mem_insert_of_ne he hne) (fun e hmem => ?_) _ journal
      exact (Assoc.mem_insert hmem).elim (fun heq => heq ▸ he) (h.filed e)
    · exact h

theorem remove (h : w.Booked) (file : String) : (w.remove file).Booked := by
  obtain ⟨journal, hpurge⟩ := ({ w with documents := Assoc.erase w.documents file } : Workspace).purge_eq file
  rw [Workspace.remove, hpurge]
  refine h.purging (fun e he hne => List.mem_filter.2 ⟨he, by simp [hne]⟩) (fun e he => ?_) _ journal
  exact h.filed e (List.mem_filter.1 he).1

/-- What a build works from. -/
theorem proper (h : w.Booked) : w.collecting.setup.toSources.Proper (Defines w.documents) where
  named := named_setup w
  filed name f hf := by
    obtain ⟨hname, d, hd, hmem⟩ := mem_of_collectFragments hf
    exact ⟨⟨d, hd, f.fragment, hmem, hname⟩, (h.filed _ hd).1⟩
  keys := keysNamed_collecting fun e he => (h.filed e he).2

/-- What a build carries out keeps the books in order. -/
theorem buildStep (h : w.Booked) :
    Leads (· = w.state) w.buildStep fun _ => Orderly w.collecting.setup.toSources (.idle (Defines w.documents)) 0 := by
  have hnamed : OperationsNamed w.documents := fun e he => (h.filed e he).2.operations
  refine leads_mono (leads_generateAll h.proper hnamed w.options.skipUnusedFragments w.operations) ?_ fun _ _ hs => hs
  rintro s rfl
  exact h.orderly.sources rfl

/-- A build that fails leaves nothing. -/
theorem build (h : w.Booked) : (∀ e, w.build.1 = .error e → ¬e.Bookkeeping) ∧ w.build.2.Booked := by
  have hleads := h.buildStep w.state rfl
  rw [build_eq]
  rcases hrun : w.buildStep.runOn w.state with ⟨e | after, s⟩
  · rw [hrun] at hleads
    exact ⟨fun e' he' => Except.error.inj he' ▸ hleads, h.filed, Orderly.reset⟩
  · rw [hrun] at hleads
    dsimp only
    refine ⟨nofun, ?_⟩
    split
    · exact ⟨h.filed, { hleads with }⟩
    · exact ⟨h.filed, hleads⟩

end Booked

theorem Arises.booked {w : Workspace} (h : w.Arises) : w.Booked := by
  induction h with
  | new schema options => exact ⟨fun _ he => absurd he List.not_mem_nil, Orderly.initial _ _⟩
  | add _ hd ih => exact ih.add hd
  | update _ hd ih => exact ih.update hd
  | remove file _ ih => exact ih.remove file
  | updateSchema schema _ ih => exact ⟨ih.filed, Orderly.reset⟩
  | resetCaches _ ih => exact ⟨ih.filed, Orderly.reset⟩
  | reset _ ih => exact ⟨fun _ he => absurd he List.not_mem_nil, Orderly.reset⟩
  | build _ ih => exact ih.build.2

/-- A build may fail for many reasons, but the books are none of them; and whether it fails or not, no scope is open
afterwards, and nothing is marked as being generated. -/
theorem Arises.build_keeps_books {w : Workspace} (h : w.Arises) :
    (∀ e, w.build.1 = .error e → ¬e.Bookkeeping) ∧
      w.build.2.state.tracker.scopes = [] ∧ w.build.2.state.fragmentMarks = [] ∧ w.build.2.state.inputMarks = [] := by
  obtain ⟨hfailure, hbooked⟩ := h.booked.build
  exact ⟨hfailure, List.length_eq_zero_iff.1 hbooked.orderly.scopes, hbooked.orderly.fragmentMarks,
    hbooked.orderly.inputMarks⟩

/-- A workspace whose fragments spread each other. -/
def circularFragments : Workspace :=
  let schema : Schema :=
    { types := [("Query", ⟨"Query", .object [] [⟨"x", .named "ID", [], none⟩], none⟩), ("ID", ⟨"ID", .scalar, none⟩)]
      roots := [(.query, "Query")]
      keyed := by decide }
  let texts := [("first", "fragment F on Query { x ...G }"), ("second", "fragment G on Query { ...F }")]
  ((Workspace.new schema {}).add (texts.filterMap fun e => (Document.read e.2).map (e.1, ·))).2

/-- The build of `circularFragments` keeps the books, and so does the next one. -/
theorem build_keeps_books_circularFragments :
    circularFragments.documents.length = 2 ∧ circularFragments.build.2.Arises ∧
      (∀ e, circularFragments.build.2.build.1 = .error e → ¬e.Bookkeeping) ∧
      circularFragments.build.2.build.2.state.tracker.scopes = [] ∧
      circularFragments.build.2.build.2.state.fragmentMarks = [] ∧
      circularFragments.build.2.build.2.state.inputMarks = [] := by
  have harises : circularFragments.Arises := by
    refine .add (.new _ _) fun e he => ?_
    obtain ⟨e', he', hread⟩ := List.mem_filterMap.1 he
    obtain ⟨d, hd, rfl⟩ := Option.map_eq_some_iff.1 hread
    refine filed_of_read ?_ hd
    rcases List.mem_cons.1 he' with rfl | he'
    · exact (by decide : "first" ≠ "")
    · obtain rfl := List.mem_singleton.1 he'
      exact (by decide : "second" ≠ "")
  exact ⟨by decide +kernel, harises.build, Arises.build_keeps_books harises.build⟩

end Workspace

end ResponseTypes
