import ResponseTypes.Proofs.Build.Books
import ResponseTypes.Proofs.Build.Uses

/-!
# What removal leaves

`Workspace.Current` : all that a workspace keeps is defined in its documents, or uses such fragments alone.  Calls leave it so
(`Reachable.current`).  So nothing is left of a document that was removed or replaced (`Reachable.remove_forgets`,
`Reachable.update_forgets`).
-/

namespace ResponseTypes

set_option autoImplicit false

open Compile
open Dependency (fragmentsUsed)
open GraphQL (Document)

/-- What is reached from what a result used was made. -/
theorem Compile.Sound.has_of_reached {c : Sources} {late : GraphQL.TypeRef → Prop} {jobOf : String → Option Job}
    {stack : Stack} {s : State} (h : Sound c late jobOf stack s) {o : Origin} {needs : List Need}
    (hneeds : ∀ n ∈ needs, n.Backed s o) {name : String} (hr : Reached c (fragmentsIn needs) name) :
    Assoc.has s.store (fragmentNode name) := by
  obtain ⟨first, hfirst, hr⟩ := hr
  rw [← has_progress]
  induction hr with
  | refl => exact Compile.Backed.has (hneeds (.fragment first) (mem_fragmentsIn.1 hfirst))
  | tail _ hs ih =>
    rw [has_progress] at ih
    obtain ⟨a, ha⟩ := Option.isSome_iff_exists.1 ih
    exact (h.spread _ a ha _ (mem_fragmentsIn.2 hs)).has

namespace Workspace

variable {w : Workspace} {file : String}

/-! ## Collected operations -/

/-- Collected operations are those of the documents. -/
def Sourced (w : Workspace) : Prop :=
  ∀ e ∈ w.operations, Issues w.documents e.1 e.2.origin.file

namespace Sourced

theorem of_nothing (h : w.operations = []) : w.Sourced := fun e he => by
  rw [h] at he
  cases he

theorem add (h : w.Sourced) (documents : List (String × Document)) : (w.add documents).2.Sourced := by
  induction documents generalizing w with
  | nil => exact h
  | cons e rest ih =>
    obtain ⟨file, d⟩ := e
    rw [Workspace.add]
    split
    · exact h
    · rename_i hnew
      refine ih fun e he => ?_
      obtain ⟨d', hd', hissues⟩ := h e he
      have hget : Assoc.get? w.documents file = none := by simpa [Assoc.has] using hnew
      exact ⟨d', insert_eq_append hget d ▸ List.mem_append_left _ hd', hissues⟩

/-- What is left after a purge comes from other files. -/
theorem purging (h : w.Sourced) {documents : Assoc String Document}
    (hdocuments : ∀ e ∈ w.documents, e.1 ≠ file → e ∈ documents) (state : State) :
    ({ w with
      documents
      operations := if w.options.trackDependencies then w.operations.filter (fun e => !e.2.origin.dependsOn file) else []
      state } : Workspace).Sourced := by
  intro e he
  dsimp only at he ⊢
  split at he
  · obtain ⟨he, hstays⟩ := List.mem_filter.1 he
    obtain ⟨d, hd, hissues⟩ := h e he
    refine ⟨d, hdocuments _ hd ?_, hissues⟩
    rintro rfl
    simp [Origin.dependsOn] at hstays
  · cases he

theorem update (h : w.Sourced) (documents : List (String × Document)) : (w.update documents).2.Sourced := by
  induction documents generalizing w with
  | nil => exact h
  | cons e rest ih =>
    obtain ⟨file, d⟩ := e
    rw [Workspace.update]
    split
    · obtain ⟨journal, hpurge⟩ := w.purge_eq file
      refine ih ?_
      rw [hpurge]
      exact h.purging (fun e he hne => mem_insert_of_ne he hne) _
    · exact h

theorem remove (h : w.Sourced) (file : String) : (w.remove file).Sourced := by
  obtain ⟨journal, hpurge⟩ := ({ w with documents := Assoc.erase w.documents file } : Workspace).purge_eq file
  rw [Workspace.remove, hpurge]
  exact h.purging (fun e he hne => List.mem_filter.2 ⟨he, by simp [hne]⟩) _

/-- A build collects the operations of the documents. -/
theorem build (h : w.Sourced) (hw : w.Consistent) (hu : UniqueNames w.documents) : w.build.2.Sourced := by
  obtain ⟨jobOf, hkept⟩ := hw.kept
  have hpasses :=
    (hkept.collecting hu).passes (c := w.collecting.setup) rfl hu w.options.skipUnusedFragments w.operations
  rcases hpasses with ⟨e, -, he⟩ | ⟨after, s, -, hrun, -, -, entries, hcollected⟩
  · obtain ⟨s, hrun⟩ := runOn_eq_of_fst he
    change w.buildStep.runOn w.state = _ at hrun
    rw [build_eq, hrun]
    exact of_nothing rfl
  · change w.buildStep.runOn w.state = _ at hrun
    have hsourced : ∀ e ∈ after, Issues w.documents e.1 e.2.origin.file := by
      intro e he
      rw [hcollected.result] at he
      rcases mem_collect he with he | ⟨entry, hentry, rfl⟩
      · exact h e he
      · exact issues_of_mem_allJobs (hcollected.jobs ▸ List.mem_map_of_mem hentry)
    rw [build_eq, hrun]
    dsimp only
    split <;> exact hsourced

end Sourced

theorem Reachable.sourced (h : w.Reachable) : w.Sourced := by
  induction h with
  | new options hs => exact .of_nothing rfl
  | add _ _ ih => exact ih.add _
  | update _ _ ih => exact ih.update _
  | remove _ _ ih => exact ih.remove _
  | updateSchema _ _ _ => exact .of_nothing rfl
  | resetCaches _ _ => exact .of_nothing rfl
  | reset _ _ => exact .of_nothing rfl
  | build hw hu ih => exact ih.build hw.consistent hu

/-! ## What is kept -/

/-- Where artifacts, cache entries and collected operations come from. -/
def origins (w : Workspace) : List Origin :=
  w.state.store.map (·.2.origin) ++ w.state.shapes.entries.map (·.2.2) ++ w.state.inputs.entries.map (·.2.2) ++
    w.operations.map (·.2.origin)

/-- What is kept is defined in the documents, and uses fragments that were made. -/
structure Current (w : Workspace) : Prop where
  fragments : ∀ name, Assoc.has w.state.store (fragmentNode name) ∨ Assoc.has w.state.fieldMaps name →
    ∃ file, Defines w.documents name file
  operations : ∀ name, Assoc.has w.state.store (operationNode name) ∨ Assoc.has w.state.store (variablesNode name) ∨
    Assoc.has w.operations name → ∃ file, Issues w.documents name file
  uses : ∀ o ∈ w.origins, ∀ name ∈ fragmentsUsed o.keys, Assoc.has w.state.store (fragmentNode name)

/-- An operation whose types were made is one of the documents. -/
theorem issues_of_made {c : Setup} {documents : Assoc String Document} {jobOf : String → Option Job} {s : State}
    (h : Keeping c documents jobOf s) {node : Node} (hnode : Assoc.has s.store node) {name : String}
    (hname : node = operationNode name ∨ node = variablesNode name) : ∃ file, Issues documents name file := by
  obtain ⟨a, ha⟩ := Option.isSome_iff_exists.1 hnode
  obtain ⟨n, hn, hmet⟩ := (h.idle.sound.made node a ha).met
  have hjob : ∃ j, j.name = name ∧ (n = .operation j ∨ n = .arguments j) := by
    have hplace := Need.node_of_complete hmet
    rcases hname with rfl | rfl
    all_goals
      obtain ⟨j, hj, rfl⟩ := Option.map_eq_some_iff.1 hn
      cases hplace
      exact ⟨j, rfl, by simp⟩
  obtain ⟨j, rfl, hj⟩ := hjob
  exact ⟨j.file, issues_of_mem_allJobs (h.operations node n hnode hn j hj)⟩

/-- Calls leave nothing that is not of the documents. -/
theorem Reachable.current (h : w.Reachable) (ha : w.Arises) : w.Current := by
  obtain ⟨jobOf, hkept⟩ := h.consistent.kept
  have hsound := hkept.idle.sound
  have hbooks := ha.booked.orderly
  obtain ⟨hstore, hoperations, -⟩ := h.uses_resolved
  refine ⟨fun name hname => ?_, fun name hname => ?_, fun o ho name hname => ?_⟩
  · rcases hname with hname | hname
    · obtain ⟨f, d, hf, hd, hfd⟩ := hkept.fragments name hname
      exact ⟨f.file, d, hd, f.fragment, hfd, hsound.named name f hf⟩
    · obtain ⟨m, hm⟩ := Option.isSome_iff_exists.1 hname
      exact ⟨m.origin.file, hbooks.homes _ (Assoc.mem_of_get? hm)⟩
  · rcases hname with hname | hname | hname
    · exact issues_of_made hkept hname (Or.inl rfl)
    · exact issues_of_made hkept hname (Or.inr rfl)
    · obtain ⟨op, hop⟩ := Option.isSome_iff_exists.1 hname
      exact ⟨op.origin.file, h.sourced _ (Assoc.mem_of_get? hop)⟩
  · have hresolved : ∀ {keys}, Resolved w.state keys → name ∈ fragmentsUsed keys →
        Assoc.has w.state.store (fragmentNode name) := fun hr hname => by
      obtain ⟨a, -, ha, -⟩ := hr name hname
      rw [Assoc.has, ha]
      rfl
    simp only [origins, List.mem_append, List.mem_map] at ho
    rcases ho with ((⟨e, he, rfl⟩ | ⟨e, he, rfl⟩) | ⟨e, he, rfl⟩) | ⟨e, he, rfl⟩
    · exact hresolved (hstore e he) hname
    · obtain ⟨t, ht, -⟩ := (hbooks.shapes e he).typed
      obtain ⟨-, hneeds, huses⟩ :=
        hsound.shapes e.1.1 e.1.2 e.2.1 e.2.2 (Assoc.get?_of_mem hsound.distinct.shapes he) t ht
      exact hsound.has_of_reached hneeds ((huses name).1 hname)
    · obtain ⟨-, -, hnone⟩ := hsound.inputs e.1 e.2.1 e.2.2 (Assoc.get?_of_mem hsound.distinct.inputs he)
      rw [hnone] at hname
      cases hname
    · exact hresolved (hoperations e he) hname

/-! ## Removal -/

/-- Nothing of what a document defines is kept, and nothing that uses its fragments. -/
structure Forgets (w : Workspace) (d : Document) : Prop where
  fragments : ∀ f ∈ d.fragments, ¬Assoc.has w.state.store (fragmentNode f.name) ∧ ¬Assoc.has w.state.fieldMaps f.name
  operations : ∀ op ∈ d.operations, ∀ name, op.name = some name →
    ¬Assoc.has w.state.store (operationNode name) ∧ ¬Assoc.has w.state.store (variablesNode name) ∧
      ¬Assoc.has w.operations name
  uses : ∀ f ∈ d.fragments, ∀ o ∈ w.origins, f.name ∉ fragmentsUsed o.keys

/-- What is of the documents is nothing of another one, if all names are different. -/
theorem Current.forgets (h : w.Current) {documents : Assoc String Document} (hu : UniqueNames documents)
    (hdocuments : ∀ e ∈ w.documents, e ∈ documents ∧ e.1 ≠ file) {d : Document} (hd : (file, d) ∈ documents) :
    w.Forgets d := by
  have hfragment : ∀ f ∈ d.fragments, ¬∃ file', Defines w.documents f.name file' := by
    rintro f hf ⟨file', d', hd', hdefines⟩
    obtain ⟨hd', hne⟩ := hdocuments _ hd'
    exact hne (hu.home hd hf ⟨d', hd', hdefines⟩)
  have hoperation : ∀ op ∈ d.operations, ∀ name, op.name = some name → ¬∃ file', Issues w.documents name file' := by
    rintro op hop name hname ⟨file', d', hd', hissues⟩
    obtain ⟨hd', hne⟩ := hdocuments _ hd'
    exact hne (hu.issuer hd hop hname ⟨d', hd', hissues⟩)
  refine ⟨fun f hf => ⟨fun hhas => ?_, fun hhas => ?_⟩,
    fun op hop name hname => ⟨fun hhas => ?_, fun hhas => ?_, fun hhas => ?_⟩, fun f hf o ho hused => ?_⟩
  · exact hfragment f hf (h.fragments f.name (Or.inl hhas))
  · exact hfragment f hf (h.fragments f.name (Or.inr hhas))
  · exact hoperation op hop name hname (h.operations name (Or.inl hhas))
  · exact hoperation op hop name hname (h.operations name (Or.inr (Or.inl hhas)))
  · exact hoperation op hop name hname (h.operations name (Or.inr (Or.inr hhas)))
  · exact hfragment f hf (h.fragments f.name (Or.inl (h.uses o ho f.name hused)))

/-- The workspace without the documents of some files. -/
def removeAll (w : Workspace) (files : List String) : Workspace :=
  files.foldl Workspace.remove w

theorem mem_documents_remove {e : String × Document} (he : e ∈ (w.remove file).documents) :
    e ∈ w.documents ∧ e.1 ≠ file := by
  obtain ⟨journal, hpurge⟩ := ({ w with documents := Assoc.erase w.documents file } : Workspace).purge_eq file
  rw [Workspace.remove, hpurge] at he
  obtain ⟨he, hother⟩ := List.mem_filter.1 he
  exact ⟨he, by simpa using hother⟩

theorem mem_documents_removeAll {files : List String} {e : String × Document}
    (he : e ∈ (w.removeAll files).documents) : e ∈ w.documents ∧ e.1 ∉ files := by
  induction files generalizing w with
  | nil => exact ⟨he, List.not_mem_nil⟩
  | cons file rest ih =>
    obtain ⟨he, hrest⟩ := ih he
    obtain ⟨he, hne⟩ := mem_documents_remove he
    exact ⟨he, List.not_mem_cons_of_ne_of_not_mem hne hrest⟩

theorem Reachable.removeAll (h : w.Reachable) {files : List String} (hfiles : ∀ file ∈ files, file ≠ "") :
    (w.removeAll files).Reachable := by
  induction files generalizing w with
  | nil => exact h
  | cons file rest ih =>
    obtain ⟨hne, hrest⟩ := List.forall_mem_cons.1 hfiles
    exact ih (h.remove hne) hrest

theorem Arises.removeAll (h : w.Arises) (files : List String) : (w.removeAll files).Arises := by
  induction files generalizing w with
  | nil => exact h
  | cons file rest ih => exact ih (h.remove file)

theorem Reachable.removeAll_forgets (h : w.Reachable) (ha : w.Arises) (hu : UniqueNames w.documents)
    {files : List String} (hfiles : ∀ file ∈ files, file ≠ "") (hfile : file ∈ files) {d : Document}
    (hd : (file, d) ∈ w.documents) : (w.removeAll files).Forgets d := by
  refine ((h.removeAll hfiles).current (ha.removeAll files)).forgets hu (fun e he => ?_) hd
  obtain ⟨he, hother⟩ := mem_documents_removeAll he
  exact ⟨he, fun heq => hother (heq ▸ hfile)⟩

/-- Nothing is left of a document that is removed. -/
theorem Reachable.remove_forgets (h : w.Reachable) (ha : w.Arises) (hu : UniqueNames w.documents) {d : Document}
    (hd : (file, d) ∈ w.documents) : (w.remove file).Forgets d :=
  h.removeAll_forgets ha hu (List.forall_mem_singleton.2 (h.consistent.filed _ hd)) List.mem_cons_self hd

/-! ## Replacement -/

/-- A purge does not look at the documents. -/
theorem purge_withDocuments (w : Workspace) (documents : Assoc String Document) (file : String) :
    ({ w with documents } : Workspace).purge file = { w.purge file with documents } := by
  unfold purge
  cases w.options.trackDependencies with
  | false => rfl
  | true =>
    simp only [Bool.not_true, Bool.false_eq_true, if_false]
    split <;> rfl

/-- Of documents that are replaced no more is left than if they were removed; all of them were there. -/
theorem update_eq_removeAll (w : Workspace) {documents : List (String × Document)} (before : Assoc String Document)
    (hok : (({ w with documents := before } : Workspace).update documents).1 = .ok ()) :
    (∀ e ∈ documents, e.1 ∈ Assoc.keys before) ∧
      ∃ after, (({ w with documents := before } : Workspace).update documents).2 =
        { w.removeAll (documents.map Prod.fst) with documents := after } := by
  induction documents generalizing w before with
  | nil => exact ⟨fun _ he => absurd he List.not_mem_nil, before, rfl⟩
  | cons e rest ih =>
    obtain ⟨file, d⟩ := e
    rw [update] at hok ⊢
    split at hok
    · rename_i hhas
      rw [if_pos hhas]
      obtain ⟨_, hold⟩ := Option.isSome_iff_exists.1 hhas
      have hkeys : file ∈ Assoc.keys before := Assoc.mem_keys_of_get? hold
      simp only [purge_withDocuments] at hok ⊢
      -- the documents of `w` do not matter, so the rest is replaced after a removal just as after a purge
      have hremoved : w.remove file = { w.purge file with documents := Assoc.erase w.documents file } :=
        w.purge_withDocuments _ file
      obtain ⟨hrest, after, hafter⟩ := ih (w.remove file) (Assoc.insert before file d) (hremoved ▸ hok)
      rw [Assoc.keys_insert, if_pos hkeys] at hrest
      rw [hremoved] at hafter
      refine ⟨List.forall_mem_cons.2 ⟨hkeys, hrest⟩, after, hafter.trans ?_⟩
      rw [← hremoved]
      rfl
    · cases hok

/-- Nothing is left of documents that are replaced, until the next build. -/
theorem Reachable.update_forgets (h : w.Reachable) (ha : w.Arises) (hu : UniqueNames w.documents)
    {documents : List (String × Document)} (hok : (w.update documents).1 = .ok ())
    (hfile : file ∈ documents.map Prod.fst) {d : Document} (hd : (file, d) ∈ w.documents) :
    (w.update documents).2.Forgets d := by
  obtain ⟨hregistered, after, hafter⟩ := w.update_eq_removeAll w.documents hok
  have hfiles : ∀ file ∈ documents.map Prod.fst, file ≠ "" := by
    intro file hfile
    obtain ⟨e, he, rfl⟩ := List.mem_map.1 hfile
    obtain ⟨e', he', heq⟩ := List.mem_map.1 (hregistered e he)
    exact heq ▸ h.consistent.filed e' he'
  have hforgets := h.removeAll_forgets ha hu hfiles hfile hd
  rw [hafter]
  exact { hforgets with }

end Workspace

end ResponseTypes
