import Mathlib.Data.List.Induction
import ResponseTypes.Proofs.Build.Replaying
import ResponseTypes.Proofs.Build.Sealed
import ResponseTypes.Proofs.Build.Transparent

/-!
# Building again

A second build finds all artifacts that the first one left: it does no work, and collects the same operations with the same
keys (`build_again`).
-/

namespace ResponseTypes

set_option autoImplicit false

open Compile
open GraphQL (Document)

/-- The same operation, up to the order in which its keys were recorded. -/
structure SameOperation (a b : CollectedOperation) : Prop where
  keys : ∀ k, k ∈ a.origin.keys ↔ k ∈ b.origin.keys
  rest : b = { a with origin := { a.origin with keys := b.origin.keys } }

theorem SameOperation.view {a b : CollectedOperation} (h : SameOperation a b) : Output.view a = Output.view b := by
  rw [h.rest]
  exact Output.alike_of_uses fun f => by simp only [Dependency.mem_fragmentsUsed, h.keys]

/-- The same operations in the same order. -/
def SameOperations (m m' : Assoc String CollectedOperation) : Prop :=
  List.Forall₂ (fun e e' => e.1 = e'.1 ∧ SameOperation e.2 e'.2) m m'

namespace SameOperations

variable {m m' : Assoc String CollectedOperation}

theorem refl (m : Assoc String CollectedOperation) : SameOperations m m :=
  List.forall₂_same.2 fun _ _ => ⟨rfl, fun _ => Iff.rfl, rfl⟩

theorem insert (h : SameOperations m m') (name : String) {a b : CollectedOperation} (hab : SameOperation a b) :
    SameOperations (Assoc.insert m name a) (Assoc.insert m' name b) :=
  Assoc.forall₂_insert (R := SameOperation) h name hab

/-- Operations that are the same are told the same. -/
theorem values (h : SameOperations m m') : (Assoc.values m).map Output.view = (Assoc.values m').map Output.view := by
  induction h with
  | nil => rfl
  | cons he _ ih => exact List.cons_eq_cons.2 ⟨he.2.view, ih⟩

end SameOperations

section Collect

variable {c : Config} {m : Assoc String CollectedOperation} {entries : List (Job × List String)}

theorem collect_concat (e : Job × List String) :
    collect c m (entries ++ [e]) = Assoc.insert (collect c m entries) e.1.name (collected c e.1 e.2) := by
  rw [collect, List.foldl_append]
  rfl

theorem mem_keys_collect : ∀ e ∈ entries, e.1.name ∈ Assoc.keys (collect c m entries) := by
  induction entries using List.reverseRecOn with
  | nil => exact fun _ he => absurd he List.not_mem_nil
  | append_singleton entries e ih =>
    intro e' he'
    rw [collect_concat, Assoc.mem_keys_insert]
    rcases List.mem_append.1 he' with he' | he'
    · exact Or.inl (ih e' he')
    · exact Or.inr (by rw [List.mem_singleton.1 he'])

/-- What an operation was before does not matter when it is collected last. -/
theorem insert_collect {name : String} {a b : CollectedOperation} (h : ∀ e ∈ entries, e.1.name ∈ Assoc.keys m) :
    Assoc.insert (collect c (Assoc.insert m name a) entries) name b = Assoc.insert (collect c m entries) name b := by
  induction entries generalizing m with
  | nil => exact Assoc.insert_insert_self m name a b
  | cons e entries ih =>
    obtain ⟨he, hrest⟩ := List.forall_mem_cons.1 h
    change Assoc.insert (collect c (Assoc.insert (Assoc.insert m name a) e.1.name _) entries) name b =
      Assoc.insert (collect c (Assoc.insert m e.1.name _) entries) name b
    by_cases hname : name = e.1.name
    · rw [hname, Assoc.insert_insert_self]
    · rw [Assoc.insert_comm hname he]
      exact ih fun e' he' => Assoc.mem_keys_insert.2 (Or.inl (hrest e' he'))

/-- Collecting the operations of the same jobs again, with the same keys, changes no more than the order of keys. -/
theorem sameOperations_collect {entries' : List (Job × List String)}
    (h : List.Forall₂ (fun e e' => e.1 = e'.1 ∧ ∀ k, k ∈ e.2 ↔ k ∈ e'.2) entries entries') :
    SameOperations (collect c m entries.reverse) (collect c (collect c m entries.reverse) entries'.reverse) := by
  induction h with
  | nil => exact .refl m
  | @cons e e' entries entries' he hrest ih =>
    obtain ⟨j, keys⟩ := e
    obtain ⟨j', keys'⟩ := e'
    obtain ⟨rfl, hkeys⟩ := he
    have hjobs : entries.map Prod.fst = entries'.map Prod.fst := List.forall₂_eq_eq_eq ▸
      List.forall₂_map_left_iff.2 (List.forall₂_map_right_iff.2 (hrest.imp fun _ _ h => h.1))
    have hnames : ∀ e ∈ entries'.reverse, e.1.name ∈ Assoc.keys (collect c m entries.reverse) := by
      intro e he
      have hjob : e.1 ∈ entries.map Prod.fst := hjobs ▸ List.mem_map_of_mem (List.mem_reverse.1 he)
      obtain ⟨e₀, he₀, hjob⟩ := List.mem_map.1 hjob
      rw [← hjob]
      exact mem_keys_collect e₀ (List.mem_reverse.2 he₀)
    rw [List.reverse_cons, List.reverse_cons, collect_concat, collect_concat, insert_collect hnames]
    exact ih.insert j.name ⟨hkeys, rfl⟩

end Collect

/-- Operations of the same jobs have the same keys if the same work was done. -/
theorem forall₂_jobKeys {s s' : State} (hs : SameWork s s') (henabled : s'.tracker.enabled = s.tracker.enabled)
    {entries entries' : List (Job × List String)} (hjobs : entries.map Prod.fst = entries'.map Prod.fst)
    (h : ∀ e ∈ entries, JobKeys s e.1 e.2) (h' : ∀ e ∈ entries', JobKeys s' e.1 e.2) :
    List.Forall₂ (fun e e' => e.1 = e'.1 ∧ ∀ k, k ∈ e.2 ↔ k ∈ e'.2) entries entries' := by
  induction entries generalizing entries' with
  | nil =>
    rw [List.map_nil, eq_comm, List.map_eq_nil_iff] at hjobs
    rw [hjobs]
    exact .nil
  | cons e entries ih =>
    cases entries' with
    | nil => cases hjobs
    | cons e' entries' =>
      obtain ⟨hjob, hrest⟩ := List.cons_eq_cons.1 hjobs
      rw [List.forall_mem_cons] at h h'
      obtain ⟨a, v, ha, hv, hkeys⟩ := h.1.of_stored (fun _ _ hstored => hs.store ▸ hstored) henabled
      obtain ⟨a', v', ha', hv', hkeys'⟩ := h'.1
      rw [← hjob] at ha' hv' hkeys'
      cases ha.symm.trans ha'
      cases hv.symm.trans hv'
      exact .cons ⟨hjob, fun k => (hkeys k).trans (hkeys' k).symm⟩ (ih hrest h.2 h'.2)

/-- What a build of documents that succeeds has done. -/
structure Completed (c : Setup) (skipUnused : Bool) (documents : Assoc String Document)
    (before after : Assoc String CollectedOperation) (s : State) : Prop where
  closed : s.tracker.scopes = []
  fragments : skipUnused = false → ∀ e ∈ documents, ∀ f ∈ e.2.fragments, Owned s f.name
  jobs : ∀ e ∈ documents, (jobsOf c.toConfig e.1 e.2.operations).2 = none
  operations : ∃ entries, entries.map Prod.fst = allJobs c.toConfig documents ∧ after = collect c.toConfig before entries ∧
    ∀ e ∈ entries, JobKeys s e.1 e.2

section Build

variable {c : Setup} {skipUnused : Bool} {documents : Assoc String Document} {before after : Assoc String CollectedOperation}
  {s s' : State}

theorem completed_of_runOn_operations (hc : c.Named) (hfiles : ∀ e ∈ documents, e.1 ≠ "")
    (hfragments : skipUnused = false → ∀ e ∈ documents, ∀ f ∈ e.2.fragments, Owned s f.name)
    (hrun : (do
      let operations ← Workspace.generateOperations c documents before
      let tracker ← Tracks.tracker.read
      if tracker.hasOpenScope then Action.fail (.scopesLeftOpen (some tracker.currentFile))
      else return operations : Step _).runOn s = (.ok after, s')) :
    Completed c skipUnused documents before after s' := by
  obtain ⟨operations, s₁, hoperations, hrun⟩ := runOn_bind_ok hrun
  obtain ⟨_, s₂, hread, hrun⟩ := runOn_bind_ok hrun
  cases hread
  split at hrun
  · cases hrun
  · rename_i hclosed
    cases hrun
    have hproceeds := (rules_proceeding hc).builds.generateOperations documents before _ _ _ hoperations
    obtain ⟨hnone, hentries⟩ := keys_generateOperations hc hfiles hoperations
    refine ⟨?_, fun hskip e he f hf => hproceeds.owned _ List.not_mem_nil (hfragments hskip e he f hf), hnone, hentries⟩
    rwa [Tracker.hasOpenScope, Bool.not_eq_true', Bool.not_eq_false, List.isEmpty_iff] at hclosed

theorem completed_of_runOn_generateAll (hc : c.Named) (hfiles : ∀ e ∈ documents, e.1 ≠ "")
    (hrun : (Workspace.generateAll c skipUnused documents before).runOn s = (.ok after, s')) :
    Completed c skipUnused documents before after s' := by
  unfold Workspace.generateAll at hrun
  cases skipUnused with
  | true => exact completed_of_runOn_operations hc hfiles (fun h => nomatch h) hrun
  | false =>
    obtain ⟨_, s₁, hfragments, hrun⟩ := runOn_bind_ok hrun
    exact completed_of_runOn_operations hc hfiles (fun _ => owned_generateFragments hc hfragments) hrun

/-- After a build that succeeded the next one does no work, and collects the same operations. -/
theorem Completed.again (h : Completed c skipUnused documents before after s) (hc : c.Named)
    (hfragments : c.fragments = Workspace.collectFragments documents) (hfiles : ∀ e ∈ documents, e.1 ≠ "") :
    ∃ after' s', (Workspace.generateAll c skipUnused documents after).runOn s = (.ok after', s') ∧ SameWork s s' ∧
      SameOperations after after' := by
  obtain ⟨entries, hjobs, rfl, hkeys⟩ := h.operations
  have hpresent : ∀ j ∈ allJobs c.toConfig documents, Present s j := by
    intro j hj
    rw [← hjobs] at hj
    obtain ⟨e, he, rfl⟩ := List.mem_map.1 hj
    obtain ⟨a, v, ha, hv, -⟩ := hkeys e he
    exact ⟨⟨a, ha⟩, v, hv⟩
  have hreplays : Replays s 0 (Workspace.generateAll c skipUnused documents (collect c.toConfig before entries)) :=
    replays_generateAll (fun e he f hf => by rw [hfragments]; exact known_collectFragments he hf) h.fragments h.jobs hpresent _
  obtain ⟨after', s', hrun, hs, -⟩ := hreplays s (.refl s) (by rw [h.closed]; rfl)
  refine ⟨after', s', hrun, hs, ?_⟩
  obtain ⟨_, _, hbubbles⟩ := ((rules_proceeding hc).builds.generateAll skipUnused documents _ _ _ _ hrun).bubbles
  obtain ⟨entries', hjobs', rfl, hkeys'⟩ := (completed_of_runOn_generateAll hc hfiles hrun).operations
  have hsame := forall₂_jobKeys hs hbubbles.enabled (hjobs.trans hjobs'.symm) hkeys hkeys'
  have hcollect := sameOperations_collect (c := c.toConfig) (m := before) (List.rel_reverse hsame)
  rwa [List.reverse_reverse, List.reverse_reverse] at hcollect

end Build

namespace Workspace

/-- What a build that succeeds leaves. -/
theorem build_done {w : Workspace} {after : Assoc String CollectedOperation} {s : State}
    (h : w.buildStep.runOn w.state = (.ok after, s)) :
    ∃ journal, w.build = (.ok (.ofParts (Assoc.values s.store) (Assoc.values after) w.options.templates w.options.hooks),
      { w.collecting with state := { s with journal }, operations := after }) := by
  rw [build_eq, h]
  dsimp only
  split <;> exact ⟨_, rfl⟩

/-- What a build that succeeded gave is given by the next one too, which leaves what was generated as it is. -/
structure Repeats (w : Workspace) (out : Output) (w' : Workspace) (out' : Output) : Prop where
  work : SameWork w.state w'.state
  operations : SameOperations w.operations w'.operations
  documents : w'.documents = w.documents
  fragments : w'.fragments = w.fragments
  artifacts : out'.artifacts = out.artifacts
  files : Output.SameFiles out out'
  code : ∀ kinds, out'.code kinds = out.code kinds

end Workspace

end ResponseTypes
