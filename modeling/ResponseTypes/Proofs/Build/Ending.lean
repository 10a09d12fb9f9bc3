import ResponseTypes.Proofs.Build.Books
import ResponseTypes.Proofs.Build.Uses
import ResponseTypes.Proofs.Plan.Ending

/-!
# Builds come to an end

A build that starts from nothing never fails for want of an end, whatever the documents are (`outputOf_ends`): fragments
that spread each other are found out when the first of them is generated again.  One that goes on from earlier builds does
not either, if all names are different (`Reachable.build_ends`).
-/

namespace ResponseTypes

set_option autoImplicit false

open Compile
open GraphQL (Document Operation TypeRef)

section Sections

variable {c : Sources} {late : TypeRef → Prop} {documents : Assoc String Document} {j : Job}

theorem Passes.ends {file : String} {p : Progress} {sections : List Section} {o : Except Failure (String × Progress)}
    (h : Passes c late file p sections o) (hc : c.Named) (hkeys : c.KeysNamed) (hp : Solid c p)
    (hneeds : ∀ sec ∈ sections, ∀ n ∈ sec.needs, n.Proper c.toConfig)
    (hfailure : ∀ sec ∈ sections, sec.failure ≠ some .endless) : o ≠ .error .endless := by
  induction h with
  | nil => exact fun h => by cases h
  | broken hr =>
    exact fun h => hr.ends hc hkeys hp (hneeds _ List.mem_cons_self) (congrArg _ (Except.error.inj h))
  | failed _ hf =>
    exact fun h => hfailure _ List.mem_cons_self (hf.trans (congrArg some (Except.error.inj h)))
  | passed hr _ _ ih =>
    exact ih (hr.solid hc hp) (List.forall_mem_cons.1 hneeds).2 (List.forall_mem_cons.1 hfailure).2

theorem failure_jobsOf (c : Config) (file : String) (ops : List Operation) :
    (jobsOf c file ops).2 ≠ some .endless := by
  induction ops with
  | nil => exact fun h => by cases h
  | cons op rest ih =>
    rw [jobsOf]
    split
    · exact ih
    · split
      · exact fun h => by cases h
      · exact ih

theorem failure_of_mem_sectionsOf {c : Config} {skipUnused : Bool} {sec : Section}
    (h : sec ∈ sectionsOf c skipUnused documents) : sec.failure ≠ some .endless := by
  rcases List.mem_append.1 h with h | h
  · split at h
    · cases h
    · obtain ⟨e, -, rfl⟩ := List.mem_map.1 h
      exact fun h => by cases h
  · obtain ⟨e, -, rfl⟩ := List.mem_map.1 h
    exact failure_jobsOf c e.1 e.2.operations

theorem proper_of_mem_sectionsOf {c : Config} (hnamed : OperationsNamed documents) {skipUnused : Bool} {sec : Section}
    (h : sec ∈ sectionsOf c skipUnused documents) : ∀ n ∈ sec.needs, n.Proper c := by
  intro n hn
  rcases List.mem_append.1 h with h | h
  · split at h
    · cases h
    · obtain ⟨e, -, rfl⟩ := List.mem_map.1 h
      obtain ⟨f, -, rfl⟩ := List.mem_map.1 hn
      trivial
  · obtain ⟨e, he, rfl⟩ := List.mem_map.1 h
    obtain ⟨j, hj, hn⟩ := List.mem_flatMap.1 hn
    obtain ⟨-, hop, hroot⟩ := of_mem_jobsOf hj
    rcases List.mem_cons.1 hn with rfl | hn
    · exact ⟨known_root hroot, hnamed e he j.op hop⟩
    · rw [List.mem_singleton.1 hn]
      trivial

end Sections

namespace Workspace

variable {w : Workspace}

/-- A build that makes the runs of its sections, after solid fragments, does not fail for want of an end. -/
theorem build_ends_of_passes {late : TypeRef → Prop} {jobOf : String → Option Job} {jobs : Job → Prop}
    {result : State → Assoc String CollectedOperation → Prop}
    (hd : ∀ e ∈ w.documents, e.2.KeysNamed)
    (h : PassesAt w.collecting.setup late jobOf jobs
      (sectionsOf w.collecting.setup.toConfig w.options.skipUnusedFragments w.documents) w.buildStep result w.state)
    (hp : Solid w.collecting.setup.toSources w.state.progress) : w.build.1 ≠ .error .endless := by
  have hkeys := keysNamed_collecting hd
  have hnamed : OperationsNamed w.documents := fun e he => (hd e he).operations
  rcases h with ⟨e, hpasses, he⟩ | ⟨after, s, -, hrun, -⟩
  · have hend := hpasses.ends (named_setup w) hkeys hp (fun _ => proper_of_mem_sectionsOf hnamed) fun _ =>
      failure_of_mem_sectionsOf
    rw [build_error he]
    exact fun h => hend (congrArg _ (Except.error.inj h))
  · rw [build_ok hrun]
    exact fun h => by cases h

/-- A build that starts from nothing does not fail for want of an end. -/
theorem Empty.build_ends (h : w.Empty) (hd : ∀ e ∈ w.documents, e.2.KeysNamed) :
    w.build.1 ≠ .error .endless := by
  refine build_ends_of_passes hd (passes_empty h) ?_
  rw [h.state]
  exact ⟨ordered_nil, fun _ _ h => by cases h⟩

/-- Documents are added or one of them is there already; those there afterwards were there or are among them. -/
theorem add_cases (w : Workspace) (documents : List (String × Document)) :
    ((w.add documents).1 = .ok () ∨ ∃ file, (w.add documents).1 = .error (.duplicateDocument file)) ∧
      ∀ e ∈ (w.add documents).2.documents, e ∈ w.documents ∨ e ∈ documents := by
  induction documents generalizing w with
  | nil => exact ⟨Or.inl rfl, fun _ => Or.inl⟩
  | cons e rest ih =>
    obtain ⟨file, d⟩ := e
    rw [add]
    split
    · exact ⟨Or.inr ⟨file, rfl⟩, fun _ => Or.inl⟩
    · obtain ⟨houtcome, hfrom⟩ := ih { w with documents := Assoc.insert w.documents file d }
      refine ⟨houtcome, fun e he => ?_⟩
      rcases hfrom e he with he | he
      · rcases Assoc.mem_insert he with rfl | he
        · exact Or.inr List.mem_cons_self
        · exact Or.inl he
      · exact Or.inr (List.mem_cons_of_mem _ he)

/-- Neither do documents that are built in one go. -/
theorem outputOf_ends (schema : Schema) (options : Options) {documents : List (String × Document)}
    (hd : ∀ e ∈ documents, e.2.KeysNamed) :
    outputOf schema options documents ≠ .error .endless := by
  obtain ⟨all, hall, -⟩ := (new schema options).add_documents documents
  obtain ⟨houtcome, hfrom⟩ := (new schema options).add_cases documents
  rw [hall] at hfrom
  rcases hadd : (new schema options).add documents with ⟨o, w⟩
  rw [hadd] at hall houtcome
  obtain rfl : w = _ := hall
  rw [outputOf, hadd]
  rcases houtcome with rfl | ⟨file, rfl⟩
  · exact Empty.build_ends ⟨rfl, rfl⟩ fun e he => hd e ((hfrom e he).resolve_left List.not_mem_nil)
  · exact fun h => by cases h

/-- Nor does a build that goes on from earlier ones, if all names are different. -/
theorem Reachable.build_ends (h : w.Reachable) (ha : w.Arises) (hu : UniqueNames w.documents) :
    w.build.1 ≠ .error .endless := by
  obtain ⟨jobOf, hkept⟩ := h.consistent.kept
  have hcollecting := hkept.collecting hu
  have hordered := hcollecting.idle.sound.rankedByUse_iff.1 h.traced.ranked
  exact build_ends_of_passes (fun e he => (ha.booked.filed e he).2)
    (hcollecting.passes (c := w.collecting.setup) rfl hu w.options.skipUnusedFragments w.operations)
    (hcollecting.idle.sound.solid hordered)

end Workspace

end ResponseTypes
