import ResponseTypes.Proofs.Branch.Asked
import ResponseTypes.Proofs.Build.Unused

/-!
# Fragments that operations are exported with

The fragments of a collected operation are those that following spreads leads to from its selections
(`Reachable.build_exports`), where spreads are followed as compiling comes across them.  So an operation is exported with no
fragment that its text does not lead to, and with all of these if compiling passes over no spread
(`Reachable.build_selfContained`).
-/

namespace ResponseTypes

set_option autoImplicit false

open Compile
open Dependency (fragmentsUsed)
open GraphQL (Document Selection TypeDef TypeRef)

namespace Compile

/-! ## Reached and followed -/

section Sound

variable {c : Sources} {late : TypeRef → Prop} {jobOf : String → Option Job} {stack : Stack} {s : State}
  {names : List String} {name above below : String} {j : Job}

/-- A fragment that was made spreads what is come across in it. -/
theorem Sound.spreads_iff (h : Sound c late jobOf stack s) (habove : Assoc.has s.store (fragmentNode above)) :
    Spreads c above below ↔ c.Seeing above below := by
  obtain ⟨a, ha⟩ := Option.isSome_iff_exists.1 habove
  obtain ⟨n, hn, hmet⟩ := (h.made _ a ha).met
  cases hn
  obtain ⟨f, hf⟩ := Need.known_of_complete hmet
  simp only [Need.Meets, Need.complete, hf] at hmet
  obtain ⟨shape, hshape, -⟩ := except_bind_ok hmet
  rw [Spreads, needs_fragment hf]
  exact fragmentPlan_asks hf shape hshape

/-- From fragments that were made, what is reached is what is followed. -/
theorem Sound.reached_iff (h : Sound c late jobOf stack s)
    (hnames : ∀ first ∈ names, Assoc.has s.store (fragmentNode first)) : Reached c names name ↔ Followed c.Seeing names name :=
  ⟨fun hname => Followed.congr hname fun _ habove _ _ => (h.spreads_iff (h.reached habove hnames)).1,
    fun hname => hname.congr fun _ _ habove _ => (h.spreads_iff (h.reached habove hnames)).2⟩

/-- What is reached from an operation that was made is what is followed from its selections. -/
theorem Sound.reached_operation (h : Sound c late jobOf stack s) (hj : jobOf j.name = some j) (hroot : Known c.toConfig j.root)
    (hmade : Assoc.has s.store (operationNode j.name)) : Reached c (spreadsOf c jobOf (operationNode j.name)) name ↔
      Followed c.Seeing (seenIn c.toConfig j.root j.op.selections) name := by
  obtain ⟨a, ha⟩ := Option.isSome_iff_exists.1 hmade
  obtain ⟨n, hn, hmet⟩ := (h.made _ a ha).met
  cases (needOf_operation hj).symm.trans hn
  simp only [Need.Meets, Need.complete] at hmet
  obtain ⟨shape, hshape, -⟩ := except_bind_ok hmet
  have hasks : ∀ f, (f ∈ seenIn c.toConfig j.root j.op.selections → f ∈ spreadsOf c jobOf (operationNode j.name)) ∧
      (f ∈ spreadsOf c jobOf (operationNode j.name) →
        Followed c.Seeing (seenIn c.toConfig j.root j.op.selections) f) := by
    intro f
    rw [spreadsOf, needsAt_eq (needOf_operation hj), Need.needs, fragmentsIn_append, fragmentsIn_of_codes codes_ensureHelpers,
      List.nil_append, mem_fragmentsIn]
    exact operationPlan_asks hroot shape hshape
  rw [h.reached_iff fun first hfirst => ?_]
  · exact ⟨fun hname => hname.trans fun first => (hasks first).2, fun hname => hname.mono fun first => (hasks first).1⟩
  · obtain ⟨b, hb, -⟩ := h.spread _ a ha first hfirst
    rw [Assoc.has, hb]
    rfl

end Sound

/-! ## The text -/

section Text

variable {c : Sources} {t : TypeDef} {sels : List Selection} {name : String}

theorem Sources.Seeing.spreading {other : String} (h : c.Seeing name other) : c.Spreading name other := by
  obtain ⟨f, t, hf, -, hother⟩ := h
  exact ⟨f, hf, (mem_spreadsInAll t _).2 (Or.inl hother)⟩

/-- Compiling selections passes over no spread, neither among them nor in fragments that it comes across. -/
def MissesNone (c : Sources) (t : TypeDef) (sels : List Selection) : Prop :=
  missedIn c.toConfig t sels = [] ∧ ∀ name, Followed c.Seeing (seenIn c.toConfig t sels) name →
    ∀ f ∈ Assoc.get? c.fragments name, ∃ t, c.schema.type? f.fragment.condition = some t ∧
      missedIn c.toConfig t f.fragment.selections = []

/-- If nothing is passed over, the spreads in the text are come across. -/
theorem mem_spreadsInAll_of_missedIn (h : missedIn c.toConfig t sels = []) :
    name ∈ spreadsInAll sels ↔ name ∈ seenIn c.toConfig t sels := by
  rw [mem_spreadsInAll (c := c) t, h, or_iff_left List.not_mem_nil]

/-- If nothing is passed over, what is followed in the text is come across. -/
theorem followed_spreading_iff (hnone : MissesNone c t sels) :
    Followed c.Spreading (spreadsInAll sels) name ↔ Followed c.Seeing (seenIn c.toConfig t sels) name := by
  obtain ⟨hnone, hbelow⟩ := hnone
  have hsame : spreadsInAll sels ⊆ seenIn c.toConfig t sels := fun _ => (mem_spreadsInAll_of_missedIn hnone).1
  refine ⟨fun h => (h.mono hsame).congr ?_, fun h => ?_⟩
  · rintro above - habove other ⟨f, hf, hother⟩
    obtain ⟨t', ht', hnone'⟩ := hbelow above habove f hf
    exact ⟨f, t', hf, ht', (mem_spreadsInAll_of_missedIn hnone').1 hother⟩
  · refine (h.congr fun _ _ _ _ => Sources.Seeing.spreading).mono fun _ => (mem_spreadsInAll_of_missedIn hnone).2

end Text

end Compile

namespace Workspace

variable {w : Workspace} {out : Output}

/-- After any calls, the operations of an output are those that the build collected, with all of the documents. -/
theorem Reachable.build_collected (hw : w.Reachable) (hu : UniqueNames w.documents) (h : w.build.1 = .ok out) :
    ∃ s entries after, Idle w.collecting.setup.toSources (Writable w.collecting.setup.toSources)
        (firstJob (allJobs w.setup.toConfig w.documents)) s ∧
      Collected w.collecting.setup.toSources (firstJob (allJobs w.setup.toConfig w.documents))
        (allJobs w.setup.toConfig w.documents) w.operations s entries after ∧
      ∀ op, op ∈ out.operations ↔ op ∈ entries.map fun e => collected w.setup.toConfig e.1 e.2 := by
  obtain ⟨jobOf, hkept⟩ := hw.consistent.kept
  rcases (hkept.collecting hu).passes (c := w.collecting.setup) rfl hu w.options.skipUnusedFragments w.operations with
    ⟨e, -, he⟩ | ⟨after, s, hp, hrun, hidle, -, entries, hcollected⟩
  · rw [build_error he] at h
    cases h
  · cases (build_ok hrun).symm.trans h
    refine ⟨s, entries, after, hidle, hcollected, fun op => (Text.sortBy_perm _ _).mem_iff.trans ?_⟩
    rw [← Output.values_collect _ (hcollected.nodup_names hu), hcollected.result]
    refine ((perm_collect_of_issued (fun d hd => ?_) hcollected.jobs hw.keyed.operations fun name hname => ?_).map Prod.snd).mem_iff
    · exact (hp.due hu (operationSection w.setup.toConfig d) (List.mem_append_right _ (List.mem_map_of_mem hd))).1
    · obtain ⟨e, he, rfl⟩ := List.mem_map.1 hname
      exact ⟨_, hw.sourced e he⟩

/-- After any calls, the fragments of each operation of an output are those that are followed from its selections, each once. -/
theorem Reachable.build_exports (hw : w.Reachable) (hu : UniqueNames w.documents) (h : w.build.1 = .ok out) :
    ∀ op ∈ out.operations, ∃ j ∈ allJobs w.setup.toConfig w.documents, ∃ keys, op = collected w.setup.toConfig j keys ∧
      (Output.fragmentsOf op).Nodup ∧ ∀ name, name ∈ Output.fragmentsOf op ↔
        Followed w.collecting.setup.Seeing (seenIn w.setup.toConfig j.root j.op.selections) name := by
  intro op hop
  obtain ⟨s, entries, after, hidle, hcollected, hoperations⟩ := hw.build_collected hu h
  obtain ⟨⟨j, keys⟩, he, rfl⟩ := List.mem_map.1 ((hoperations op).1 hop)
  obtain ⟨_, -, hattributed⟩ := hcollected.attributed _ he
  have hj : j ∈ allJobs w.setup.toConfig w.documents := hcollected.jobs ▸ List.mem_map_of_mem he
  obtain ⟨d, -, hd⟩ := List.mem_flatMap.1 hj
  refine ⟨j, hj, keys, rfl, (Text.sortBy_perm _ _).nodup_iff.2 (Text.nodup_distinct _), fun name => ?_⟩
  calc name ∈ Output.fragmentsOf (collected w.setup.toConfig j keys)
      ↔ name ∈ fragmentsUsed keys := Text.mem_sorted.trans Text.mem_distinct
    _ ↔ Reached w.collecting.setup.toSources _ name := hattributed.used name
    _ ↔ Followed _ _ name :=
      hidle.sound.reached_operation (hu.firstJob hj) (known_root (of_mem_jobsOf hd).2.2) hattributed.generated.1

/-- If compiling passes over no spread, each operation of an output has just the fragments that its text leads to: those that
are spread in it or in one of these, at any depth. -/
theorem Reachable.build_selfContained (hw : w.Reachable) (hu : UniqueNames w.documents) (h : w.build.1 = .ok out)
    (hnone : ∀ j ∈ allJobs w.setup.toConfig w.documents, MissesNone w.collecting.setup.toSources j.root j.op.selections) :
    ∀ op ∈ out.operations, ∃ j ∈ allJobs w.setup.toConfig w.documents, ∃ keys, op = collected w.setup.toConfig j keys ∧
      (Output.fragmentsOf op).Nodup ∧ ∀ name, name ∈ Output.fragmentsOf op ↔
        Followed w.collecting.setup.Spreading (spreadsInAll j.op.selections) name := by
  intro op hop
  obtain ⟨j, hj, keys, rfl, hdistinct, hfollowed⟩ := hw.build_exports hu h op hop
  exact ⟨j, hj, keys, rfl, hdistinct, fun name => (hfollowed name).trans (followed_spreading_iff (hnone j hj)).symm⟩

end Workspace

end ResponseTypes
