import ResponseTypes.Proofs.Build.Closed
import ResponseTypes.Proofs.Build.Permuted
import ResponseTypes.Proofs.Build.Removal

/-!
# Builds after changes

A build keeps what was made before and makes what is missing.  Next to a build of the same documents that starts over, it
fails just if that one does, and gives all that that one gives (`Reachable.build_refreshes`).  What it may give besides are
types that were declared for something that is gone, and fragments that no operation uses any more if such are left out.
-/

namespace ResponseTypes

set_option autoImplicit false

open Compile
open Dependency (fragmentsUsed)
open GraphQL (Document Operation TypeRef)

/-! ## What a build leaves is whole -/

namespace Compile

section Whole

variable {jobOf : String → Option Job} {s : State}

/-- Without type expressions that are kept there is nothing that would be made later. -/
theorem Sound.forgetInputs {c : Sources} {late : TypeRef → Prop} {stack : Stack} (h : Sound c late jobOf stack s) :
    Sound c (fun _ => False) jobOf stack { s with inputs := .empty } where
  named := h.named
  distinct := { h.distinct with inputs := .nil }
  fields := h.fields
  maps := h.maps
  made node a ha := (h.made node a ha).congr rfl rfl rfl rfl
  uses := h.uses
  shapes := h.shapes
  inputs _ _ _ h := nomatch h
  late _ h := h.elim
  kinds := h.kinds
  unmade := h.unmade

theorem inner_of_mem_needsAt {c : Sources} {node : Node} {m : Need} (h : m ∈ needsAt c jobOf node) : m.Inner := by
  cases hn : needOf jobOf node with
  | none =>
    rw [needsAt, hn] at h
    cases h
  | some n =>
    rw [needsAt_eq hn] at h
    exact n.inner_needs m h

/-- What is kept after the operations of all documents were made is whole. -/
theorem Keeping.whole {c : Setup} {documents : Assoc String Document} (h : Keeping c documents jobOf s)
    (hall : ∀ j ∈ allJobs c.toConfig documents, Generated s j.name) (hordered : Ordered c.toSources s.progress) :
    ∃ rank, Whole c.toSources jobOf { s with inputs := .empty } rank := by
  obtain ⟨rank, hrank⟩ := hordered
  refine ⟨rank, h.idle.sound.forgetInputs, fun node hnode m hm => Or.inl ?_, hrank⟩
  have hstored : Assoc.has s.store node := has_progress s node ▸ hnode
  obtain ⟨a, ha⟩ := Option.isSome_iff_exists.1 hstored
  have hpresent := h.complete hall node a ha m hm
  have hsettled : ∀ {node'}, Assoc.has s.store node' → Assoc.has s.progress node' := fun h => (has_progress s _).trans h
  cases m with
  | declared d => exact Or.inr (hsettled hpresent)
  | code type => exact ⟨h.worded node hnode type hm, fun d hd => Or.inr (hsettled (hpresent d hd))⟩
  | fragment name => exact hsettled hpresent
  | operation j | arguments j => exact (inner_of_mem_needsAt hm).elim

end Whole

end Compile

/-! ## Operations that were collected before -/

section Collect

variable {c : Config} {documents : Assoc String Document} {m m' : Assoc String CollectedOperation}
  {entries : List (Job × List String)}

/-- An operation with a name is generated, unless the document fails. -/
theorem exists_mem_jobsOf {file : String} {ops : List Operation} (hnone : (jobsOf c file ops).2 = none) {op : Operation}
    (hop : op ∈ ops) {name : String} (hname : op.name = some name) : ∃ j ∈ (jobsOf c file ops).1, j.name = name := by
  induction ops with
  | nil => cases hop
  | cons op' rest ih =>
    cases hname' : op'.name with
    | none =>
      rw [jobsOf_unnamed hname'] at hnone ⊢
      refine ih hnone ((List.mem_cons.1 hop).resolve_left ?_)
      rintro rfl
      cases hname.symm.trans hname'
    | some name' =>
      cases hroot : c.schema.root? op'.kind with
      | none =>
        rw [jobsOf_rootless hname' hroot] at hnone
        cases hnone
      | some root =>
        rw [jobsOf_rooted hname' hroot] at hnone ⊢
        rcases List.mem_cons.1 hop with rfl | hop
        · cases hname.symm.trans hname'
          exact ⟨_, List.mem_cons_self, rfl⟩
        · obtain ⟨j, hj, hjname⟩ := ih hnone hop
          exact ⟨j, List.mem_cons_of_mem _ hj, hjname⟩

theorem exists_mem_allJobs (hnone : ∀ e ∈ documents, (jobsOf c e.1 e.2.operations).2 = none) {name file : String}
    (h : Issues documents name file) : ∃ j ∈ allJobs c documents, j.name = name := by
  obtain ⟨d, hd, op, hop, hname⟩ := h
  obtain ⟨j, hj, hjname⟩ := exists_mem_jobsOf (hnone _ hd) hop hname
  exact ⟨j, List.mem_flatMap.2 ⟨_, hd, hj⟩, hjname⟩

theorem nodup_keys_collect (hm : (Assoc.keys m).Nodup) : (Assoc.keys (collect c m entries)).Nodup := by
  induction entries generalizing m with
  | nil => exact hm
  | cons e rest ih => exact ih (Assoc.nodup_keys_insert hm _ _)

/-- What was collected before does not matter for operations that are collected again. -/
theorem get?_collect_congr (h : ∀ name, name ∉ entries.map (·.1.name) → Assoc.get? m name = Assoc.get? m' name)
    (name : String) : Assoc.get? (collect c m entries) name = Assoc.get? (collect c m' entries) name := by
  induction entries generalizing m m' with
  | nil => exact h name List.not_mem_nil
  | cons e rest ih =>
    refine ih fun other hother => ?_
    rw [Assoc.get?_insert, Assoc.get?_insert]
    split
    · rfl
    · rename_i hne
      exact h other (List.not_mem_cons_of_ne_of_not_mem (Ne.symm hne) hother)

/-- When all operations are collected again, it does not matter which were collected before. -/
theorem perm_collect (hm : (Assoc.keys m).Nodup) (h : ∀ name ∈ Assoc.keys m, name ∈ entries.map (·.1.name)) :
    (collect c m entries).Perm (collect c [] entries) := by
  refine Assoc.perm_of_get? (nodup_keys_collect hm) (nodup_keys_collect .nil) fun name => get?_collect_congr (fun name hname => ?_) name
  exact Assoc.get?_eq_none.2 fun hmem => hname (h name hmem)

/-- When the operations of documents of which none fails are collected, it does not matter which of them were collected
before. -/
theorem perm_collect_of_issued (hnone : ∀ e ∈ documents, (jobsOf c e.1 e.2.operations).2 = none)
    (hjobs : entries.map Prod.fst = allJobs c documents) (hm : (Assoc.keys m).Nodup)
    (hissued : ∀ name ∈ Assoc.keys m, ∃ file, Issues documents name file) :
    (collect c m entries).Perm (collect c [] entries) := by
  refine perm_collect hm fun name hname => ?_
  obtain ⟨file, hissues⟩ := hissued name hname
  obtain ⟨j, hj, rfl⟩ := exists_mem_allJobs hnone hissues
  rw [← hjobs] at hj
  obtain ⟨e, he, rfl⟩ := List.mem_map.1 hj
  exact List.mem_map_of_mem he

end Collect

namespace Workspace

/-- Documents and operations stand under keys of their own. -/
structure Keyed (w : Workspace) : Prop where
  documents : (Assoc.keys w.documents).Nodup
  operations : (Assoc.keys w.operations).Nodup

namespace Keyed

variable {w : Workspace}

theorem add (h : w.Keyed) (documents : List (String × Document)) : (w.add documents).2.Keyed := by
  induction documents generalizing w with
  | nil => exact h
  | cons e rest ih =>
    rw [Workspace.add]
    split
    · exact h
    · exact ih ⟨Assoc.nodup_keys_insert h.documents _ _, h.operations⟩

theorem purging (h : w.Keyed) (file : String) {documents : Assoc String Document} (hd : (Assoc.keys documents).Nodup)
    (state : State) :
    ({ w with
      documents
      operations := if w.options.trackDependencies then w.operations.filter (fun e => !e.2.origin.dependsOn file) else []
      state } : Workspace).Keyed := by
  refine ⟨hd, ?_⟩
  dsimp only
  split
  · exact Assoc.nodup_keys_filter h.operations _
  · exact .nil

theorem update (h : w.Keyed) (documents : List (String × Document)) : (w.update documents).2.Keyed := by
  induction documents generalizing w with
  | nil => exact h
  | cons e rest ih =>
    rw [Workspace.update]
    split
    · obtain ⟨journal, hpurge⟩ := w.purge_eq e.1
      refine ih ?_
      rw [hpurge]
      exact h.purging e.1 (Assoc.nodup_keys_insert h.documents _ _) _
    · exact h

theorem remove (h : w.Keyed) (file : String) : (w.remove file).Keyed := by
  obtain ⟨journal, hpurge⟩ := ({ w with documents := Assoc.erase w.documents file } : Workspace).purge_eq file
  rw [Workspace.remove, hpurge]
  exact h.purging file (Assoc.nodup_keys_erase h.documents file) _

theorem build (h : w.Keyed) (hw : w.Consistent) (hu : UniqueNames w.documents) : w.build.2.Keyed := by
  obtain ⟨jobOf, hkept⟩ := hw.kept
  have hpasses :=
    (hkept.collecting hu).passes (c := w.collecting.setup) rfl hu w.options.skipUnusedFragments w.operations
  rcases hpasses with ⟨e, -, he⟩ | ⟨after, s, -, hrun, -, -, entries, hcollected⟩
  · obtain ⟨s, hrun⟩ := runOn_eq_of_fst he
    change w.buildStep.runOn w.state = _ at hrun
    rw [build_eq, hrun]
    exact ⟨h.documents, .nil⟩
  · change w.buildStep.runOn w.state = _ at hrun
    have hafter : (Assoc.keys after).Nodup := hcollected.result ▸ nodup_keys_collect h.operations
    rw [build_eq, hrun]
    dsimp only
    split <;> exact ⟨h.documents, hafter⟩

end Keyed

theorem Reachable.keyed {w : Workspace} (h : w.Reachable) : w.Keyed := by
  induction h with
  | new options _ => exact ⟨.nil, .nil⟩
  | add _ _ ih => exact ih.add _
  | update _ _ ih => exact ih.update _
  | remove _ _ ih => exact ih.remove _
  | updateSchema _ _ ih | resetCaches _ ih => exact ⟨ih.documents, .nil⟩
  | reset _ _ => exact ⟨.nil, .nil⟩
  | build hw hu ih => exact ih.build hw.consistent hu

end Workspace

/-! ## Outputs after changes -/

/-- Artifacts of these kinds come from a fragment or an operation.  Others are declared for what refers to them. -/
def ArtifactKind.Defined (kind : ArtifactKind) : Prop :=
  kind = .fragment ∨ kind = .operation ∨ kind = .operationVariables

namespace Output

/-- An output gives all that a fresh one gives, as it gives it, and of fragments and operations nothing else.  Fragments may
be left that are not used any more, if such are to be left out. -/
structure Refreshes (skipUnused : Bool) (out fresh : Output) : Prop where
  artifacts : (fresh.artifacts.map bare).Subperm (out.artifacts.map bare)
  definitions : ∀ kind : ArtifactKind, kind.Defined → (kind = .fragment → skipUnused = false) →
    (out.ofKind kind).map bare = (fresh.ofKind kind).map bare
  operationsFile : skipUnused = false → ∀ minify, (out.operationsFile minify).toOption = (fresh.operationsFile minify).toOption
  operationTypes : out.templates.Discreet → ∀ importFrom, out.operationTypes importFrom = fresh.operationTypes importFrom
  /-- If nothing is left over, the texts are the same. -/
  sameTexts : out.artifacts.length ≤ fresh.artifacts.length → SameTexts out fresh

/-- Two attempts fail, or the first output gives all that the second one gives. -/
def Refreshed (skipUnused : Bool) : Except Failure Output → Except Failure Output → Prop
  | .error _, .error _ => True
  | .ok out, .ok fresh => Refreshes skipUnused out fresh
  | _, _ => False

/-- An output refreshes another one if it has its artifacts and its operations, and the same fragments and operations. -/
theorem refreshes_ofParts {skipUnused : Bool} {artifacts fresh : List (Artifact ArtifactKind)}
    {operations operations' : List CollectedOperation} {templates : Script.Templates} {hooks : List Hook}
    (ha : (fresh.map bare).Subperm (artifacts.map bare))
    (hd : ∀ kind : ArtifactKind, kind.Defined → (kind = .fragment → skipUnused = false) →
      ((artifacts.filter (fun a => a.kind = kind)).map bare).Perm ((fresh.filter (fun a => a.kind = kind)).map bare))
    (hnames : (artifacts.map fun a => (a.kind, a.name)).Nodup)
    (ho : (operations.map view).Perm (operations'.map view)) (hops : (operations.map (·.name)).Nodup) :
    Refreshes skipUnused (ofParts artifacts operations templates hooks) (ofParts fresh operations' templates hooks) := by
  have hperm := fun l : List (Artifact ArtifactKind) => Text.sortBy_perm artifactLe l
  have hsorted := sorted_sortBy artifacts
  have hsorted' := sorted_sortBy fresh
  have hdistinct := ((hperm artifacts).map fun a => (a.kind, a.name)).nodup_iff.2 hnames
  have hviews := map_view_sortBy_of_perm ho hops
  have hkinds : ∀ kind : ArtifactKind, kind.Defined → (kind = .fragment → skipUnused = false) →
      ((ofParts artifacts operations templates hooks).ofKind kind).map bare =
        ((ofParts fresh operations' templates hooks).ofKind kind).map bare := by
    intro kind hkind hskip
    refine map_bare_eq_of_perm ?_ (List.Pairwise.sublist List.filter_sublist hsorted)
      (List.Pairwise.sublist List.filter_sublist hsorted') (hdistinct.sublist (List.filter_sublist.map _))
    have hfilter := fun l : List (Artifact ArtifactKind) => ((hperm l).filter (fun a => decide (a.kind = kind))).map bare
    exact (hfilter artifacts).trans ((hd kind hkind hskip).trans (hfilter fresh).symm)
  refine ⟨?_, hkinds, fun hskip minify => ?_, operationTypes_congr hviews rfl rfl, fun hlength => ?_⟩
  · exact ((hperm fresh).map bare).subperm.trans (ha.trans ((hperm artifacts).map bare).symm.subperm)
  · have hfragments := congrArg (List.map fun a : Artifact ArtifactKind => (a.graphqlName, a.source))
      (hkinds .fragment (Or.inl rfl) fun _ => hskip)
    rw [List.map_map, List.map_map] at hfragments
    exact toOption_operationsFile_congr hfragments hviews rfl rfl minify
  · have hall : (artifacts.map bare).Perm (fresh.map bare) := by
      refine (ha.perm_of_length_le ?_).symm
      rw [List.length_map, List.length_map]
      exact (hperm artifacts).length_eq ▸ (hperm fresh).length_eq ▸ hlength
    refine sameTexts_of_bare (map_bare_eq_of_perm ?_ hsorted hsorted' hdistinct) hviews rfl rfl
    exact ((hperm artifacts).map bare).trans (hall.trans ((hperm fresh).map bare).symm)

/-- Of a kind of which both states made the same, the artifacts are the same, but for what these depend on. -/
theorem perm_bare_filter {c c' : Sources} {late late' : TypeRef → Prop} {jobOf jobOf' : String → Option Job} {s s' : State}
    (hs : Idle c late jobOf s) (hs' : Idle c' late' jobOf' s') (h : s.progress.Within s'.progress) {kind : ArtifactKind}
    (hkind : ∀ name, Assoc.has s'.store (kind, name) → Assoc.has s.store (kind, name)) :
    (((Assoc.values s'.store).filter (fun a => a.kind = kind)).map bare).Perm
      (((Assoc.values s.store).filter (fun a => a.kind = kind)).map bare) := by
  have hfilter : ∀ t : State, (∀ e ∈ t.store, e.2.kind = e.1.1) →
      ((Assoc.values t.store).filter (fun a => a.kind = kind)).map bare =
        ((drafts t).filter (fun e => e.1.1 = kind)).map bareDraft := by
    intro t ht
    have hall := congrArg (List.filter fun a : Artifact ArtifactKind => a.kind = kind) (map_bare_values ht)
    rw [List.filter_map, List.filter_map] at hall
    exact hall
  have hnodup : ∀ {t : State}, t.Distinct → (((drafts t).filter (fun e => e.1.1 = kind)).map Prod.fst).Nodup :=
    fun ht => (nodup_drafts ht).sublist (List.filter_sublist.map _)
  rw [hfilter s hs.sound.kinds, hfilter s' hs'.sound.kinds]
  refine (perm_of_keyed Prod.fst (hnodup hs'.sound.distinct) (hnodup hs.sound.distinct) (fun e he => ?_) fun e he => ?_).map _
  · -- what the second state made of the kind the first one made too, and there it is the same
    obtain ⟨he, hek⟩ := List.mem_filter.1 he
    obtain ⟨⟨⟨kind', name⟩, piece⟩, hmem, rfl⟩ := List.mem_map.1 he
    obtain rfl : kind' = kind := by simpa using hek
    have hget := Assoc.get?_of_mem (keys_progress s' ▸ hs'.sound.distinct.store) hmem
    have hhas : Assoc.has s.progress (kind', name) := by
      rw [has_progress]
      refine hkind name ?_
      rw [← has_progress, Assoc.has, hget]
      rfl
    obtain ⟨piece₀, hpiece₀⟩ := Option.isSome_iff_exists.1 hhas
    obtain ⟨piece', hpiece', hdraft, -⟩ := h _ _ hpiece₀
    cases hget.symm.trans hpiece'
    exact List.mem_filter.2 ⟨List.mem_map.2 ⟨_, Assoc.mem_of_get? hpiece₀, by rw [hdraft]⟩, hek⟩
  · obtain ⟨he, hek⟩ := List.mem_filter.1 he
    exact List.mem_filter.2 ⟨subset_drafts hs.sound.distinct h e he, hek⟩

end Output

/-! ## Builds after changes -/

section Retracing

variable {c : Setup} {documents : Assoc String Document} {skipUnused : Bool} {file file' : String} {s t : State}
  {o : Except Failure (String × Progress)}

/-- A build that starts over finds nothing missing where a build has kept and made all. -/
theorem Compile.Keeping.fresh_passes (h : Keeping c documents (firstJob (allJobs c.toConfig documents)) s)
    (hall : ∀ j ∈ allJobs c.toConfig documents, Generated s j.name) (hordered : Ordered c.toSources s.progress)
    (hu : UniqueNames documents) {late : TypeRef → Prop} {p : Progress}
    (hp : Passes c.toSources late file p (sectionsOf c.toConfig skipUnused documents) (.ok (file', s.progress)))
    (hfresh : Passes c.toSources (fun _ => False) noFile [] (sectionsOf c.toConfig skipUnused documents) o) :
    ∃ r, o = .ok r ∧ r.2.Within s.progress := by
  obtain ⟨rank, hwhole⟩ := h.whole hall hordered
  obtain ⟨r, ho, hr⟩ := hfresh.retraces hwhole (fun _ _ _ h => nomatch h) ordered_nil (hp.due hu)
  exact ⟨r, ho, hr.within⟩

/-- A build that keeps what is right makes what a build makes that starts over, and fails only if that one does. -/
theorem Compile.Keeping.passes_of_fresh (h : Keeping c documents (firstJob (allJobs c.toConfig documents)) s)
    (hordered : Ordered c.toSources s.progress) (hfragments : c.fragments = Workspace.collectFragments documents)
    (hu : UniqueNames documents) (ht : Idle c.toSources (fun _ => False) (firstJob (allJobs c.toConfig documents)) t)
    (hfresh : Passes c.toSources (fun _ => False) noFile [] (sectionsOf c.toConfig skipUnused documents)
      (.ok (file', t.progress)))
    {late : TypeRef → Prop} (hp : Passes c.toSources late file s.progress (sectionsOf c.toConfig skipUnused documents) o) :
    ∃ r, o = .ok r := by
  obtain ⟨⟨rank, hwhole⟩, -⟩ := retraceable_of_passes hfragments hu (.refl _) ht hfresh
  rw [← hfragments] at hwhole
  obtain ⟨r, ho, -⟩ := hp.retraces hwhole (h.idle.sound.progress_agrees hwhole.sound hordered) hordered (hfresh.due hu)
  exact ⟨r, ho⟩

end Retracing

namespace Workspace

section Fresh

variable {c : Sources} {documents : Assoc String Document} {skipUnused : Bool} {late : TypeRef → Prop} {s t : State}
  {file : String} {before after after' : Assoc String CollectedOperation} {entries entries' : List (Job × List String)}

/-- What a build made is found again by one that starts over, if it comes from a fragment or an operation. -/
theorem has_of_defined (hu : UniqueNames documents) (hs : Idle c late (firstJob (allJobs c.toConfig documents)) s)
    (hfragments : c.fragments = collectFragments documents)
    (hfresh : Passes c (fun _ => False) noFile [] (sectionsOf c.toConfig skipUnused documents) (.ok (file, t.progress)))
    (hcollected : Collected c (firstJob (allJobs c.toConfig documents)) (allJobs c.toConfig documents) [] t entries' after')
    {kind : ArtifactKind} (hkind : kind.Defined) (hskip : kind = .fragment → skipUnused = false) {name : String}
    (hnode : Assoc.has s.store (kind, name)) : Assoc.has t.store (kind, name) := by
  obtain ⟨a, ha⟩ := Option.isSome_iff_exists.1 hnode
  obtain ⟨n, hn, hmet⟩ := (hs.sound.made _ a ha).met
  have hgenerated : ∀ j, firstJob (allJobs c.toConfig documents) name = some j → Generated t name := by
    intro j hj
    obtain ⟨hmem, rfl⟩ := (firstJob_iff hu).1 hj
    rw [← hcollected.jobs] at hmem
    obtain ⟨e, he, rfl⟩ := List.mem_map.1 hmem
    obtain ⟨_, -, hattributed⟩ := hcollected.attributed e he
    exact hattributed.generated
  rcases hkind with rfl | rfl | rfl
  · cases hn
    obtain ⟨f, hf⟩ := Need.known_of_complete hmet
    rw [hfragments] at hf
    obtain ⟨hname, d, hd, hfd⟩ := mem_of_collectFragments hf
    have hsec : fragmentSection (f.file, d) ∈ sectionsOf c.toConfig skipUnused documents :=
      List.mem_append_left _ (by
        rw [if_neg (by simp [hskip rfl])]
        exact List.mem_map_of_mem hd)
    have hdue := ((hfresh.due hu _ hsec).2 (.fragment f.fragment.name) (List.mem_map.2 ⟨_, hfd, rfl⟩)).settled
    rw [hname] at hdue
    exact (has_progress t _).symm.trans hdue
  · obtain ⟨j, hj, -⟩ := Option.map_eq_some_iff.1 hn
    exact (hgenerated j hj).1
  · obtain ⟨j, hj, -⟩ := Option.map_eq_some_iff.1 hn
    exact (hgenerated j hj).2

/-- What a build has kept and made gives all that one gives that starts over. -/
theorem refreshes_of_within {templates : Script.Templates} {hooks : List Hook} (hu : UniqueNames documents) (hfragments : c.fragments = collectFragments documents)
    (hs : Idle c late (firstJob (allJobs c.toConfig documents)) s)
    (ht : Idle c (fun _ => False) (firstJob (allJobs c.toConfig documents)) t)
    (hfresh : Passes c (fun _ => False) noFile [] (sectionsOf c.toConfig skipUnused documents) (.ok (file, t.progress)))
    (hkeys : (Assoc.keys before).Nodup) (hissued : ∀ name ∈ Assoc.keys before, ∃ file, Issues documents name file)
    (hcollected : Collected c (firstJob (allJobs c.toConfig documents)) (allJobs c.toConfig documents) before s entries after)
    (hcollected' : Collected c (firstJob (allJobs c.toConfig documents)) (allJobs c.toConfig documents) [] t entries' after')
    (hwithin : t.progress.Within s.progress)
    (hnames : (Output.ofParts (Assoc.values s.store) (Assoc.values after) templates hooks).DistinctNames) :
    Output.Refreshes skipUnused (.ofParts (Assoc.values s.store) (Assoc.values after) templates hooks)
      (.ofParts (Assoc.values t.store) (Assoc.values after') templates hooks) := by
  have hjobs : (entries.map Prod.fst).Perm (entries'.map Prod.fst) := by
    rw [hcollected.jobs, hcollected'.jobs]
  have huses : ∀ e ∈ entries, ∀ e' ∈ entries', e.1 = e'.1 → ∀ f, f ∈ fragmentsUsed e.2 ↔ f ∈ fragmentsUsed e'.2 := by
    intro e he e' he' hjob f
    rw [hcollected.used e he, hcollected'.used e' he', hjob]
  obtain ⟨hviews, hdistinct⟩ := Output.perm_view_collect c.toConfig hjobs (hcollected.nodup_names hu) huses
  have hnone : ∀ e ∈ documents, (jobsOf c.toConfig e.1 e.2.operations).2 = none := fun e he =>
    (hfresh.due hu (operationSection c.toConfig e) (List.mem_append_right _ (List.mem_map_of_mem he))).1
  have hbefore := perm_collect_of_issued hnone hcollected.jobs hkeys hissued
  rw [hcollected.result, hcollected'.result] at *
  refine Output.refreshes_ofParts (Output.subperm_bare ht hs hwithin) (fun kind hkind hskip => ?_)
    (((Text.sortBy_perm _ _).map _).nodup_iff.1 hnames) (((hbefore.map _).map _).trans hviews)
    (((hbefore.map _).map _).nodup_iff.2 hdistinct)
  exact Output.perm_bare_filter ht hs hwithin fun name =>
    has_of_defined hu hs hfragments hfresh hcollected' hkind hskip

end Fresh

/-- The output for the documents of a workspace is that of a workspace with these documents in which nothing was made. -/
theorem outputOf_eq (schema : Schema) (options : Options) {documents : Assoc String Document}
    (h : (Assoc.keys documents).Nodup) :
    outputOf schema options documents = ({ new schema options with documents } : Workspace).build.1 := by
  have hkeys : (Assoc.keys (new schema options).documents ++ Assoc.keys documents).Nodup := h
  rw [outputOf, add_of_nodup _ hkeys]
  rfl

/-- After any calls, a build fails just if a build of the same documents fails that starts over, and else gives all that
that one gives. -/
theorem Reachable.build_refreshes {w : Workspace} (hw : w.Reachable) (hu : UniqueNames w.documents)
    (hnames : ∀ out, w.build.1 = .ok out → out.DistinctNames) :
    Output.Refreshed w.options.skipUnusedFragments w.build.1 (outputOf w.schema w.options w.documents) := by
  obtain ⟨jobOf, hkept⟩ := hw.consistent.kept
  have hk := hkept.collecting hu
  have hordered := hk.idle.sound.rankedByUse_iff.1 hw.traced.ranked
  have hpasses := hk.passes (c := w.collecting.setup) rfl hu w.options.skipUnusedFragments w.operations
  have hfresh := build_empty (w := { Workspace.new w.schema w.options with documents := w.documents }) ⟨rfl, rfl⟩
  rw [outputOf_eq w.schema w.options hw.keyed.documents]
  rcases hpasses with ⟨e, hp, he⟩ | ⟨after, s, hp, hrun, hidle, -, entries, hcollected⟩
  · rcases hfresh with ⟨e', -, he'⟩ | ⟨t, file, -, -, hp', -, ht, -⟩
    · rw [build_error he, he']
      trivial
    · obtain ⟨r, h⟩ := hk.passes_of_fresh hordered rfl hu ht hp' hp
      cases h
  · obtain ⟨after', s', hrun', hkept', -, hall⟩ :=
      (hw.consistent.builds hu).resolve_left fun ⟨e, he⟩ => by
        rw [show w.buildStep.runOn w.state = _ from hrun] at he
        cases he
    cases hrun.symm.trans hrun'
    have hordered' := hp.ordered hordered
    rcases hfresh with ⟨e', hp', -⟩ | ⟨t, file, entries', after', hp', hbuild, ht, hcollected'⟩
    · obtain ⟨r, h, -⟩ := hkept'.fresh_passes hall hordered' hu hp hp'
      cases h
    · obtain ⟨r, h, hwithin⟩ := hkept'.fresh_passes hall hordered' hu hp hp'
      cases h
      have hout := build_ok hrun
      rw [hout, hbuild]
      refine refreshes_of_within hu rfl hidle ht hp' hw.keyed.operations (fun name hname => ?_) hcollected hcollected'
        hwithin (hnames _ hout)
      obtain ⟨e, he, rfl⟩ := List.mem_map.1 hname
      exact ⟨_, hw.sourced e he⟩

end Workspace

end ResponseTypes
