import ResponseTypes.Proofs.Build.History
import ResponseTypes.Proofs.Plan.Ordered

/-!
# Fragment uses

* `Resolved` : what lists uses of fragments lists uses of such as are kept, with all uses that these list;
* `Traced` : collected operations list such uses, and fragments can be ranked by the uses that they list.

Calls leave what is kept traced, so that no fragment uses itself (`Reachable.uses_resolved`).
-/

namespace ResponseTypes

set_option autoImplicit false

open Compile
open Dependency (fragmentsUsed)
open GraphQL (Document TypeRef)

namespace Compile

/-- Fragments whose use is listed have artifacts and fields, and the uses that the artifacts list are listed too. -/
def Resolved (s : State) (keys : List String) : Prop :=
  ∀ name ∈ fragmentsUsed keys, ∃ a m, Assoc.get? s.store (fragmentNode name) = some a ∧
    Assoc.get? s.fieldMaps name = some m ∧ ∀ other ∈ fragmentsUsed a.origin.keys, other ∈ fragmentsUsed keys

/-- Fragments whose use is listed were made, a result depends on their files, and the uses that they list are listed too. -/
def UsesBacked (s : State) (o : Origin) : Prop :=
  ∀ name ∈ fragmentsUsed o.keys, ∃ a, Assoc.get? s.store (fragmentNode name) = some a ∧
    (s.tracker.enabled → Covers o a.origin) ∧ ∀ other ∈ fragmentsUsed a.origin.keys, other ∈ fragmentsUsed o.keys

/-- Fragments can be ranked so that they list uses of lower ones only. -/
def RankedByUse (s : State) : Prop :=
  ∃ rank : String → Nat, ∀ name a, Assoc.get? s.store (fragmentNode name) = some a →
    ∀ other ∈ fragmentsUsed a.origin.keys, rank other < rank name

section Sound

variable {c : Sources} {late : TypeRef → Prop} {jobOf : String → Option Job} {stack : Stack} {s s' : State} {node : Node}
  {a : Artifact ArtifactKind} {o : Origin} {name file : String}

/-- What is reached from an artifact was made, and the artifact depends on its files. -/
theorem Sound.backed_of_reached (h : Sound c late jobOf stack s) (ha : Assoc.get? s.store node = some a)
    (hr : Reached c (spreadsOf c jobOf node) name) : Backed s a.origin (fragmentNode name) := by
  obtain ⟨first, hfirst, hr⟩ := hr
  induction hr with
  | refl => exact h.spread node a ha first hfirst
  | tail _ hs ih =>
    obtain ⟨b, hb, hc⟩ := ih
    obtain ⟨b', hb', hc'⟩ := h.spread _ b hb _ (mem_fragmentsIn.2 hs)
    exact ⟨b', hb', fun henabled => (hc henabled).trans (hc' henabled)⟩

/-- A result that lists the uses of an artifact and depends on its files lists uses that are backed. -/
theorem Sound.usesBacked (h : Sound c late jobOf stack s) (ha : Assoc.get? s.store node = some a)
    (hc : s.tracker.enabled → Covers o a.origin)
    (hkeys : ∀ name, name ∈ fragmentsUsed o.keys ↔ Reached c (spreadsOf c jobOf node) name) : UsesBacked s o := by
  intro name hname
  have hr := (hkeys name).1 hname
  obtain ⟨b, hb, hcb⟩ := h.backed_of_reached ha hr
  refine ⟨b, hb, fun henabled => (hc henabled).trans (hcb henabled), fun other hother => (hkeys other).2 ?_⟩
  exact Reached.trans (fun _ hnext => hr.step (mem_fragmentsIn.1 hnext)) ((h.uses _ b hb other).1 hother)

/-- Uses that are backed are resolved, as the fields of fragments are kept with their artifacts. -/
theorem Sound.resolved (h : Sound c late jobOf stack s) (ho : UsesBacked s o) : Resolved s o.keys := by
  intro name hname
  obtain ⟨a, ha, -, hothers⟩ := ho name hname
  obtain ⟨m, hm, -⟩ := h.fields name (by rw [Assoc.has, ha]; rfl)
  exact ⟨a, m, ha, hm, hothers⟩

/-- Fragments are ranked by use just if they are in order. -/
theorem Sound.rankedByUse_iff (h : Sound c late jobOf stack s) : RankedByUse s ↔ Ordered c s.progress := by
  constructor
  · rintro ⟨rank, hrank⟩
    refine ⟨rank, fun name hname other hs => ?_⟩
    rw [has_progress] at hname ⊢
    obtain ⟨a, ha⟩ := Option.isSome_iff_exists.1 hname
    have hreached : Reached c (spreadsOf c jobOf (fragmentNode name)) other := ⟨other, mem_fragmentsIn.2 hs, .refl⟩
    obtain ⟨b, hb, -⟩ := h.backed_of_reached ha hreached
    exact ⟨by rw [Assoc.has, hb]; rfl, hrank name a ha other ((h.uses _ a ha other).2 hreached)⟩
  · rintro ⟨rank, hrank⟩
    refine ⟨rank, fun name a ha other hother => (hrank.reached_lt ?_ ((h.uses _ a ha other).1 hother)).2⟩
    rw [has_progress, Assoc.has, ha]
    rfl

/-- What was made stays. -/
theorem UsesBacked.mono (h : UsesBacked s o) (hs : Extends s s') : UsesBacked s' o := by
  intro name hname
  obtain ⟨a, ha, hc, hothers⟩ := h name hname
  exact ⟨a, hs.store _ a ha, fun henabled => hc (hs.enabled ▸ henabled), hothers⟩

theorem UsesBacked.purge (h : UsesBacked s o) (hp : Purged file s s') (hne : file ≠ "") (henabled : s.tracker.enabled)
    (ho : !o.dependsOn file) : UsesBacked s' o := by
  intro name hname
  obtain ⟨a, ha, hc, hothers⟩ := h name hname
  exact ⟨a, (hp.store _ a).2 ⟨ha, (hc henabled).stays hne ho⟩, fun _ => hc henabled, hothers⟩

end Sound

end Compile

/-- A build keeps fragments in order. -/
theorem Passes.ordered {c : Sources} {late : TypeRef → Prop} {file : String} {p : Progress} {sections : List Section}
    {r : String × Progress} (h : Passes c late file p sections (.ok r)) (hp : Ordered c p) : Ordered c r.2 :=
  h.preserves hp fun _ _ _ _ _ hr => hr.ordered

theorem mem_collect {c : Config} {operations : Assoc String CollectedOperation} {entries : List (Job × List String)}
    {e : String × CollectedOperation} (he : e ∈ collect c operations entries) :
    e ∈ operations ∨ ∃ entry ∈ entries, e = (entry.1.name, collected c entry.1 entry.2) := by
  induction entries generalizing operations with
  | nil => exact Or.inl he
  | cons entry rest ih =>
    rcases ih he with he | ⟨entry', hentry, he⟩
    · exact (Assoc.mem_insert he).symm.imp id fun he => ⟨entry, List.mem_cons_self, he⟩
    · exact Or.inr ⟨entry', List.mem_cons_of_mem _ hentry, he⟩

namespace Workspace

variable {w : Workspace} {file : String}

/-- The uses that collected operations list are backed, and fragments are ranked by the uses that they list. -/
structure Traced (w : Workspace) : Prop where
  ranked : RankedByUse w.state
  operations : ∀ e ∈ w.operations, UsesBacked w.state e.2.origin

namespace Traced

/-- Nothing is listed where nothing is kept. -/
theorem of_nothing (hs : w.state.store = []) (hoperations : w.operations = []) : w.Traced := by
  refine ⟨⟨fun _ => 0, fun name a ha => ?_⟩, fun e he => ?_⟩
  · rw [hs] at ha
    cases ha
  · rw [hoperations] at he
    cases he

theorem add (h : w.Traced) (documents : List (String × Document)) : (w.add documents).2.Traced := by
  obtain ⟨all, hall, -⟩ := w.add_documents documents
  rw [hall]
  exact ⟨h.ranked, h.operations⟩

/-- What stays after a purge lists uses that are backed, whatever becomes of the documents. -/
theorem purging (h : w.Traced) (hw : w.Consistent) (hne : file ≠ "") (documents : Assoc String Document)
    (journal : List Message) :
    ({ w with
      documents
      operations := if w.options.trackDependencies then w.operations.filter (fun e => !e.2.origin.dependsOn file) else []
      state := { (if w.options.trackDependencies then w.state.without file else w.state.reset) with
        journal } } : Workspace).Traced := by
  cases htracking : w.options.trackDependencies with
  | false => exact of_nothing rfl rfl
  | true =>
    obtain ⟨jobOf, hkept⟩ := hw.kept
    have hp := hkept.idle.sound.distinct.purged file
    obtain ⟨rank, hrank⟩ := h.ranked
    refine ⟨⟨rank, fun name a ha => hrank name a ((hp.store _ a).1 ha).1⟩, fun e he => ?_⟩
    obtain ⟨he, ho⟩ := List.mem_filter.1 he
    exact ((h.operations e he).purge hp hne (hw.tracking.trans htracking) ho).mono ⟨rfl, fun _ _ ha => ha⟩

theorem update (h : w.Traced) (hw : w.Consistent) (documents : List (String × Document))
    (hfiled : ∀ e ∈ documents, e.1 ≠ "") : (w.update documents).2.Traced := by
  induction documents generalizing w with
  | nil => exact h
  | cons e rest ih =>
    obtain ⟨file, d⟩ := e
    obtain ⟨hfile, hrest⟩ := List.forall_mem_cons.1 hfiled
    have hfirst := hw.update [(file, d)] fun e he => by
      rw [List.mem_singleton.1 he]
      exact hfile
    rw [Workspace.update] at hfirst ⊢
    split
    · rename_i hhas
      rw [if_pos hhas] at hfirst
      refine ih ?_ hfirst hrest
      obtain ⟨journal, hpurge⟩ := w.purge_eq file
      rw [hpurge]
      exact h.purging hw hfile _ journal
    · exact h

theorem remove (h : w.Traced) (hw : w.Consistent) (hne : file ≠ "") : (w.remove file).Traced := by
  obtain ⟨journal, hpurge⟩ := ({ w with documents := Assoc.erase w.documents file } : Workspace).purge_eq file
  rw [Workspace.remove, hpurge]
  exact h.purging hw hne _ journal

/-- The operations of a build list uses that are backed, and those that were there before still do. -/
theorem build (h : w.Traced) (hw : w.Consistent) (hu : UniqueNames w.documents) : w.build.2.Traced := by
  obtain ⟨jobOf, hkept⟩ := hw.kept
  have hcollecting := hkept.collecting hu
  have hpasses := hcollecting.passes (c := w.collecting.setup) rfl hu w.options.skipUnusedFragments w.operations
  rcases hpasses with ⟨e, -, he⟩ | ⟨after, s, hp, hrun, hidle, hyields, entries, hcollected⟩
  · obtain ⟨s, hrun⟩ := runOn_eq_of_fst he
    change w.buildStep.runOn w.state = _ at hrun
    rw [build_eq, hrun]
    exact of_nothing rfl rfl
  · change w.buildStep.runOn w.state = _ at hrun
    have hranked : RankedByUse s :=
      hidle.sound.rankedByUse_iff.2 (hp.ordered (hcollecting.idle.sound.rankedByUse_iff.1 h.ranked))
    have hoperations : ∀ e ∈ after, UsesBacked s e.2.origin := by
      intro e he
      rw [hcollected.result] at he
      rcases mem_collect he with he | ⟨entry, hentry, rfl⟩
      · exact (h.operations e he).mono hyields.kept.toExtends
      · obtain ⟨file, hfile, hattributed⟩ := hcollected.attributed entry hentry
        have hmem : entry.1 ∈ allJobs w.setup.toConfig w.documents := hcollected.jobs ▸ List.mem_map_of_mem hentry
        have hfiled := (Keeping.told_of_unique hu hw.filed hmem).file
        obtain ⟨a, ha, hc⟩ := hattributed.response
        rw [hfile hfiled] at hc
        exact hidle.sound.usesBacked ha hc hattributed.used
    rw [build_eq, hrun]
    dsimp only
    split <;> exact ⟨hranked, hoperations⟩

end Traced

/-- What calls lead to is traced. -/
theorem Reachable.traced (h : w.Reachable) : w.Traced := by
  induction h with
  | new options hs => exact .of_nothing rfl rfl
  | add _ hfiled ih => exact ih.add _
  | update hw hfiled ih => exact ih.update hw.consistent _ hfiled
  | remove hw hne ih => exact ih.remove hw.consistent hne
  | updateSchema _ hs ih => exact .of_nothing rfl rfl
  | resetCaches _ ih => exact .of_nothing rfl rfl
  | reset _ ih => exact .of_nothing rfl rfl
  | build hw hu ih => exact ih.build hw.consistent hu

/-- What calls lead to lists uses of fragments that are kept, with all uses that these list, and no fragment uses
itself. -/
theorem Reachable.uses_resolved (h : w.Reachable) :
    (∀ e ∈ w.state.store, Resolved w.state e.2.origin.keys) ∧
      (∀ e ∈ w.operations, Resolved w.state e.2.origin.keys) ∧
      ∀ name a, (fragmentNode name, a) ∈ w.state.store → name ∉ fragmentsUsed a.origin.keys := by
  obtain ⟨jobOf, hkept⟩ := h.consistent.kept
  have hsound := hkept.idle.sound
  have hget : ∀ e ∈ w.state.store, Assoc.get? w.state.store e.1 = some e.2 := fun e => Assoc.get?_of_mem hsound.distinct.store
  obtain ⟨rank, hrank⟩ := h.traced.ranked
  refine ⟨fun e he => ?_, fun e he => hsound.resolved (h.traced.operations e he), fun name a ha hname => ?_⟩
  · exact hsound.resolved (hsound.usesBacked (hget e he) (fun _ _ _ hdep => hdep) (hsound.uses e.1 e.2 (hget e he)))
  · exact lt_irrefl _ (hrank name a (hget _ ha) name hname)

/-- After a build of the forum, the operation that spreads one fragment lists the use of both, as that one spreads the other.
All that is listed is resolved. -/
theorem uses_resolved_forum :
    let w := forum.build.2
    w.operations.map (fun e => (e.1, fragmentsUsed e.2.origin.keys)) = [("Me", ["Contact", "Profile"]), ("Names", [])] ∧
      (∀ e ∈ w.state.store, Resolved w.state e.2.origin.keys) ∧
      (∀ e ∈ w.operations, Resolved w.state e.2.origin.keys) ∧
      ∀ name a, (fragmentNode name, a) ∈ w.state.store → name ∉ fragmentsUsed a.origin.keys :=
  ⟨by decide +kernel, Reachable.uses_resolved (.build reachable_forum uniqueNames_forum)⟩

end Workspace

end ResponseTypes
