import ResponseTypes.Proofs.Build.Again
import ResponseTypes.Proofs.Build.Closed
import ResponseTypes.Proofs.Plan.Finalizing

/-!
# What builds finalize

`Workspace.Called` : what a workspace can become, whatever it is called with.  All such workspaces are moored: what refers to
a fragment depends on what the fragment depends on, so that a purge which takes the fragment takes what refers to it
(`Moored.without`).  Then what a build makes is finalized (`Workspace.build_finalized`).
-/

namespace ResponseTypes

set_option autoImplicit false

open Compile
open Dependency (fileKey)
open GraphQL (Document)

namespace Compile

variable {config : Config} {s : State}

/-! ## Moored states -/

theorem moored_initial (tracking : Bool) (journal : List Message) :
    Moored config { State.initial tracking with journal } where
  artifacts := List.nodup_nil
  maps := List.nodup_nil
  names _ _ h := nomatch h
  own _ _ h := nomatch h
  fields _ _ _ h := nomatch h
  shapes _ h := nomatch h

/-- What is kept in a purge refers to what is kept: it depends on the files of all that it refers to. -/
theorem Moored.without (h : Moored config s) (hsealed : s.Sealed config) (file : String) : Moored config (s.without file) := by
  have hstore := fun node a => Assoc.get?_filter h.artifacts (fun e => !e.2.origin.dependsOn file) node a
  have hfields : ∀ {name fields}, (s.without file).fieldsOf name = some fields → s.fieldsOf name = some fields := by
    intro name fields hname
    obtain ⟨m, hm, rfl⟩ := Option.map_eq_some_iff.1 hname
    exact congrArg (Option.map FieldMap.fields) ((Assoc.get?_filter h.maps _ name m).1 hm).1
  have hanchored : ∀ {keys : List String} {r}, fileKey file ∉ keys → Anchored config s (· ∈ keys) r →
      Anchored config (s.without file) (· ∈ keys) r := by
    intro keys r hfile hr
    obtain ⟨a, ha, hkeys⟩ := hr.made
    have hmem := Assoc.mem_of_get? ha
    have hsub := hkeys hsealed.tracking
    have hkept := mem_purge_of_listed hfile hmem (hsub _ (hsealed.store _ hmem).1) hsub
    exact ⟨hr.whole, hr.named, a, Assoc.get?_of_mem (Assoc.nodup_keys_filter h.artifacts _) hkept, fun _ => hsub⟩
  refine ⟨Assoc.nodup_keys_filter h.artifacts _, Assoc.nodup_keys_filter h.maps _,
    fun name a ha => h.names name a ((hstore _ _).1 ha).1, fun name fields hname => h.own name fields (hfields hname),
    fun name a fields ha hname => ?_, fun e he => ?_⟩
  · obtain ⟨ha, hkept⟩ := (hstore _ _).1 ha
    exact (h.fields name a fields ha (hfields hname)).mono fun r => hanchored (not_mem_of_not_dependsOn hkept)
  · obtain ⟨he, hkept⟩ := List.mem_filter.1 he
    exact (h.shapes e he).mono fun r => hanchored (not_mem_of_not_dependsOn hkept)

end Compile

namespace Workspace

/-! ## Workspaces -/

/-- What a workspace can become, whatever it is called with. -/
inductive Called : Workspace → Prop
  | new (schema : Schema) (options : Options) : Called (Workspace.new schema options)
  | add {w : Workspace} (documents : List (String × Document)) : Called w → Called (w.add documents).2
  | update {w : Workspace} (documents : List (String × Document)) : Called w → Called (w.update documents).2
  | remove {w : Workspace} (file : String) : Called w → Called (w.remove file)
  | updateSchema {w : Workspace} (schema : Schema) : Called w → Called (w.updateSchema schema)
  | resetCaches {w : Workspace} : Called w → Called w.resetCaches
  | reset {w : Workspace} : Called w → Called w.reset
  | build {w : Workspace} : Called w → Called w.build.2

/-- The state is moored, and sealed if dependencies are tracked. -/
structure AllMoored (w : Workspace) : Prop where
  moored : Moored w.setup.toConfig w.state
  allSealed : w.options.trackDependencies = true → w.AllSealed

namespace AllMoored

variable {w : Workspace}

theorem new (schema : Schema) (options : Options) : (Workspace.new schema options).AllMoored :=
  ⟨moored_initial _ [], fun h => (Tracked.new schema h).allSealed⟩

/-- Whatever documents and schema there are, nothing that was discarded matters. -/
theorem of_reset {w' : Workspace} (h : w.AllMoored) (hoptions : w'.options = w.options) (hstate : w'.state = w.state.reset) :
    w'.AllMoored := by
  refine ⟨hstate ▸ moored_initial _ _, fun htracking => ?_⟩
  have hsealed := h.allSealed (hoptions ▸ htracking)
  have hreset : w'.state = { State.initial true with journal := w.state.journal } := by
    rw [hstate, State.reset, hsealed.state.tracking]
  refine ⟨htracking, ?_, ?_⟩
  · rw [hreset]
    rfl
  · rw [hreset]
    exact sealed_initial.withJournal _

/-- Documents do not matter. -/
theorem withDocuments (h : w.AllMoored) (documents : Assoc String Document) : ({ w with documents } : Workspace).AllMoored := by
  refine ⟨h.moored, fun htracking => ?_⟩
  have hsealed := h.allSealed htracking
  exact ⟨hsealed.tracking, hsealed.idle, hsealed.state⟩

theorem add (h : w.AllMoored) (documents : List (String × Document)) : (w.add documents).2.AllMoored := by
  obtain ⟨all, hall, -⟩ := w.add_documents documents
  rw [hall]
  exact h.withDocuments all

theorem purge (h : w.AllMoored) (file : String) : (w.purge file).AllMoored := by
  obtain ⟨journal, hpurge⟩ := w.purge_eq file
  cases htracking : w.options.trackDependencies with
  | false =>
    refine ⟨?_, fun h => ?_⟩
    · rw [hpurge, htracking]
      exact moored_initial _ _
    · rw [hpurge] at h
      cases htracking.symm.trans h
  | true =>
    have hsealed := h.allSealed htracking
    refine ⟨?_, fun _ => hsealed.purge file⟩
    rw [hpurge, htracking]
    have hkept := h.moored.without hsealed.state file
    exact hkept.congr rfl rfl rfl hkept.maps fun _ => rfl

theorem update (h : w.AllMoored) (documents : List (String × Document)) : (w.update documents).2.AllMoored := by
  induction documents generalizing w with
  | nil => exact h
  | cons e rest ih =>
    obtain ⟨file, d⟩ := e
    rw [Workspace.update]
    split
    · exact ih ((h.purge file).withDocuments _)
    · exact h

/-- What a build that succeeds keeps, and what it made. -/
theorem builds (h : w.AllMoored) {after : Assoc String CollectedOperation} {s : State}
    (hrun : w.buildStep.runOn w.state = (.ok after, s)) :
    Moored w.setup.toConfig s ∧ Furthers w.collecting.setup [] w.state s := by
  obtain ⟨hs, hf, -⟩ := moors_generateAll (named_setup w) w.options.skipUnusedFragments w.documents w.operations w.state after s
    h.moored (fun _ hname => absurd hname List.not_mem_nil) hrun
  exact ⟨hs, hf⟩

theorem build (h : w.AllMoored) : w.build.2.AllMoored := by
  have hsealed := fun htracking => (h.allSealed htracking).build
  rcases hrun : w.buildStep.runOn w.state with ⟨e | after, s⟩
  · have hbuild : w.build.2 = ({ w.collecting with state := s } : Workspace).resetCaches := by rw [build_eq, hrun]
    rw [hbuild] at hsealed ⊢
    exact ⟨moored_initial _ _, hsealed⟩
  · obtain ⟨journal, hbuild⟩ := build_done hrun
    rw [hbuild] at hsealed ⊢
    obtain ⟨hs, -⟩ := h.builds hrun
    exact ⟨hs.congr rfl rfl rfl hs.maps fun _ => rfl, hsealed⟩

end AllMoored

theorem Called.allMoored {w : Workspace} (h : w.Called) : w.AllMoored := by
  induction h with
  | new schema options => exact .new schema options
  | add documents _ ih => exact ih.add documents
  | update documents _ ih => exact ih.update documents
  | remove file _ ih => exact (ih.withDocuments _).purge file
  | updateSchema schema _ ih => exact ih.of_reset rfl rfl
  | resetCaches _ ih => exact ih.of_reset rfl rfl
  | reset _ ih => exact ih.of_reset rfl rfl
  | build _ ih => exact ih.build

/-! ## Builds -/

/-- What a build makes is finalized: the type of a fragment or an operation is written from a tree that finishing returned, in
which fragments stand for themselves nowhere, and each reference names a fragment that was generated and omits some of its
fields, each once, but not all.  The fields of fragments are kept, and are their own.  Finishing keeps whether a tree is
nullable. -/
theorem build_finalized {w w' : Workspace} (hw : w.Called) {out : Output} (h : w.build = (.ok out, w')) :
    (∀ node a, Assoc.get? w.state.store node = none → Assoc.get? w'.state.store node = some a →
      Finalized w'.setup w'.state node a.toDraft) ∧
    (∀ name a, Assoc.get? w.state.store (fragmentNode name) = none → Assoc.get? w'.state.store (fragmentNode name) = some a →
      ∃ m, Assoc.get? w'.state.fieldMaps name = some m) ∧
    (∀ name m, Assoc.get? w'.state.fieldMaps name = some m → Own m.fields) ∧
    ∀ (generate : Generator) (selected tree : Shape) (s s' : State), (finish generate selected).runOn s = (.ok tree, s') →
      tree.nullable = selected.nullable := by
  rcases hrun : w.buildStep.runOn w.state with ⟨e | after, s⟩
  · have herror := build_error (congrArg Prod.fst hrun)
    rw [h] at herror
    cases herror
  · obtain ⟨journal, hbuild⟩ := build_done hrun
    cases hbuild.symm.trans h
    obtain ⟨hs, hf⟩ := hw.allMoored.builds hrun
    refine ⟨fun node a hnone ha => ?_, fun name a hnone ha => ?_, fun name m hm => ?_, fun _ _ _ _ _ => nullable_finish⟩
    · exact (hf.finalized node a hnone ha).mono ⟨fun _ _ => id, fun _ _ _ => rfl⟩
    · obtain ⟨fields, hfields⟩ := hf.kept name a hnone ha
      obtain ⟨m, hm, -⟩ := Option.map_eq_some_iff.1 hfields
      exact ⟨m, hm⟩
    · exact (hs.own name m.fields (congrArg (Option.map FieldMap.fields) hm)).1

/-- All that the build of the forum makes is finalized, with the fields of both fragments in the map of the one that spreads the
other, and the friend that is in conflict in the type of the operation. -/
theorem build_finalized_forum : ∃ out w', forum.build = (.ok out, w') ∧
    (∀ node a, Assoc.get? w'.state.store node = some a → Finalized w'.setup w'.state node a.toDraft) ∧
    (Assoc.get? w'.state.store (operationNode "Me")).map (·.code) =
      some (Script.typeAlias "MeQuery" (Script.render {} 0 meShape) (Script.typeDoc {} none (some "me") none) true) ∧
    (∀ name a, Assoc.get? w'.state.store (fragmentNode name) = some a →
      ∃ m, Assoc.get? w'.state.fieldMaps name = some m ∧ Own m.fields) ∧
    w'.state.fieldMaps.map (fun e => (e.1, Assoc.keys e.2.fields)) =
      [("Contact", ["__typename", "name", "friend"]), ("Profile", ["role", "__typename", "name", "friend"])] ∧
    ∀ (generate : Generator) (selected tree : Shape) (s s' : State), (finish generate selected).runOn s = (.ok tree, s') →
      tree.nullable = selected.nullable := by
  have hcalled : forum.Called := .add _ (.new _ _)
  have hbuild : forum.build.1.isOk = true := by decide +kernel
  obtain ⟨out, w', hrun⟩ := eq_ok_of_isOk hbuild
  obtain ⟨hfinalized, hkept, hown, hnullable⟩ := build_finalized hcalled hrun
  obtain rfl : forum.build.2 = w' := congrArg Prod.snd hrun
  refine ⟨out, _, hrun, fun node a ha => hfinalized node a rfl ha, by decide +kernel, fun name a ha => ?_,
    by decide +kernel, hnullable⟩
  obtain ⟨m, hm⟩ := hkept name a rfl ha
  exact ⟨m, hm, hown name m hm⟩

end Workspace

end ResponseTypes
