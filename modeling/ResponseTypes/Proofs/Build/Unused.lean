import ResponseTypes.Proofs.Build.Refreshed

/-!
# Unused fragments

* `Need.Reaches` : a fragment has to be made for a need;
* `Run.reached` : a run makes no other fragments than those that its needs reach.

So a build that starts over and leaves unused fragments out gives just the fragments that its operations use
(`outputOf_fragment_iff`).
-/

namespace ResponseTypes

set_option autoImplicit false

open Compile
open Dependency (fragmentsUsed)
open GraphQL (Document TypeRef)

/-! ## Fragments that runs make -/

namespace Compile

section Reaching

variable {c : Sources} {late : TypeRef → Prop} {stack : Stack} {file : String} {p p' : Progress} {n m : Need}
  {name : String}

/-- The fragment has to be made for the need. -/
def Need.Reaches (c : Sources) (n : Need) (name : String) : Prop :=
  match n with
  | .fragment first => Reached c [first] name
  | n => Reached c (fragmentsIn (n.needs c)) name

theorem Need.reaches_self : (Need.fragment name).Reaches c name :=
  ⟨name, List.mem_singleton_self _, .refl⟩

/-- What is reached from something that is needed for a need is reached from that need. -/
theorem Need.Reaches.of_needs (h : m.Reaches c name) (hm : m ∈ n.needs c) : n.Reaches c name := by
  cases m with
  | fragment first =>
    have hreached : Reached c (fragmentsIn (n.needs c)) name :=
      Reached.trans (fun other hother => (List.mem_singleton.1 hother) ▸ reached_of_mem_needs hm) h
    cases n with
    | fragment above => exact reached_singleton.2 (Or.inr hreached)
    | declared d | code type | operation j | arguments j => exact hreached
  | declared d =>
    obtain ⟨other, hother, -⟩ := h
    obtain ⟨d', hd⟩ | ⟨type, htype⟩ := Need.Coded.needs (Or.inl ⟨d, rfl⟩) _ (mem_fragmentsIn.1 hother)
    · cases hd
    · cases htype
  | code type =>
    obtain ⟨other, hother, -⟩ := h
    obtain ⟨d, hd⟩ | ⟨type', htype⟩ := Need.Coded.needs (Or.inr ⟨type, rfl⟩) _ (mem_fragmentsIn.1 hother)
    · cases hd
    · cases htype
  | operation j | arguments j => exact (n.inner_needs _ hm).elim

/-- A run makes fragments that its needs reach, and no others. -/
theorem Run.reached {needs : List Need} (h : Run c late stack file p needs (.ok p'))
    (hname : Assoc.has p' (fragmentNode name)) : Assoc.has p (fragmentNode name) ∨ ∃ n ∈ needs, n.Reaches c name := by
  generalize ho : Except.ok p' = o at h
  induction h generalizing p' with
  | nil =>
    cases ho
    exact Or.inl hname
  | later _ _ ih | settled _ _ ih =>
    exact (ih hname ho).imp_right fun ⟨n, hn, hr⟩ => ⟨n, List.mem_cons_of_mem _ hn, hr⟩
  | circular | broken | lacking => cases ho
  | @built _ _ p p₁ p₂ n rest _ _ _ _ hcomplete _ ih ihr =>
    have hinner : Assoc.has p₁ (fragmentNode name) → Assoc.has p (fragmentNode name) ∨ ∃ m ∈ n :: rest, m.Reaches c name :=
      fun h => (ih h rfl).imp_right fun ⟨m, hm, hr⟩ => ⟨n, List.mem_cons_self, hr.of_needs hm⟩
    rcases ihr hname ho with hname | ⟨m, hm, hr⟩
    · rcases Need.complete_eq hcomplete with ⟨-, rfl⟩ | ⟨node, piece, hnode, -, rfl⟩
      · exact hinner hname
      · rcases has_append_singleton.1 hname with hname | rfl
        · exact hinner hname
        · obtain rfl := Need.eq_fragment_of_node hnode
          exact Or.inr ⟨_, List.mem_cons_self, Need.reaches_self⟩
    · exact Or.inr ⟨m, List.mem_cons_of_mem _ hm, hr⟩

end Reaching

end Compile

/-- A build makes fragments that the needs of its sections reach, and no others. -/
theorem Passes.reached {c : Sources} {late : TypeRef → Prop} {file name : String} {p : Progress} {sections : List Section}
    {r : String × Progress} (h : Passes c late file p sections (.ok r)) (hname : Assoc.has r.2 (fragmentNode name)) :
    Assoc.has p (fragmentNode name) ∨ ∃ sec ∈ sections, ∃ n ∈ sec.needs, n.Reaches c name := by
  refine h.preserves (P := fun q => Assoc.has q (fragmentNode name) →
    Assoc.has p (fragmentNode name) ∨ ∃ sec ∈ sections, ∃ n ∈ sec.needs, n.Reaches c name) Or.inl ?_ hname
  intro sec hsec _ q q' hr hq hname
  exact (hr.reached hname).elim hq fun hn => Or.inr ⟨sec, hsec, hn⟩

/-! ## Fragments of outputs -/

/-- The artifact of a fragment tells its name. -/
theorem Compile.Sound.graphqlName_fragment {c : Sources} {late : TypeRef → Prop} {jobOf : String → Option Job}
    {stack : Stack} {s : State} (h : Sound c late jobOf stack s) {name : String} {a : Artifact ArtifactKind}
    (ha : Assoc.get? s.store (fragmentNode name) = some a) : a.graphqlName = some name := by
  obtain ⟨n, hn, hmet⟩ := (h.made _ a ha).met
  cases hn
  obtain ⟨f, hf⟩ := Need.known_of_complete hmet
  simp only [Need.Meets, Need.complete, hf] at hmet
  obtain ⟨shape, -, hmet⟩ := except_bind_ok hmet
  obtain ⟨piece, hpiece, hmet⟩ := except_bind_ok hmet
  obtain ⟨fields, -, hpiece⟩ := except_bind_ok hpiece
  obtain ⟨finished, -, hpiece⟩ := except_bind_ok hpiece
  cases hpiece
  have hdraft := congrArg (fun piece => piece.draft.graphqlName) (piece_eq (Except.ok.inj hmet))
  exact hdraft.symm.trans (congrArg some (h.named name f hf))

namespace Workspace

section Output

variable {c : Sources} {late : TypeRef → Prop} {jobOf : String → Option Job} {s : State} {name : String}
  {operations : List CollectedOperation} {templates : Script.Templates} {hooks : List Hook}

/-- The fragments of an output are those that were made. -/
theorem fragment_mem_ofParts_iff (hs : Idle c late jobOf s) :
    (∃ a ∈ (Output.ofParts (Assoc.values s.store) operations templates hooks).ofKind .fragment, a.graphqlName = some name) ↔
      Assoc.has s.store (fragmentNode name) := by
  have hmem : ∀ a, a ∈ (Output.ofParts (Assoc.values s.store) operations templates hooks).ofKind .fragment ↔
      a ∈ Assoc.values s.store ∧ a.kind = .fragment := by
    intro a
    rw [Output.ofKind, List.mem_filter, decide_eq_true_iff]
    exact and_congr_left fun _ => (Text.sortBy_perm _ _).mem_iff
  constructor
  · rintro ⟨a, ha, hname⟩
    obtain ⟨ha, hkind⟩ := (hmem a).1 ha
    obtain ⟨⟨⟨kind, key⟩, a⟩, he, rfl⟩ := List.mem_map.1 ha
    obtain rfl : kind = .fragment := (hs.sound.kinds _ he).symm.trans hkind
    have hget : Assoc.get? s.store (fragmentNode key) = some a := Assoc.get?_of_mem hs.sound.distinct.store he
    obtain rfl : key = name := Option.some.inj ((hs.sound.graphqlName_fragment hget).symm.trans hname)
    rw [Assoc.has, hget]
    rfl
  · intro hhas
    obtain ⟨a, ha⟩ := Option.isSome_iff_exists.1 hhas
    have he := Assoc.mem_of_get? ha
    exact ⟨a, (hmem a).2 ⟨List.mem_map_of_mem he, hs.sound.kinds _ he⟩, hs.sound.graphqlName_fragment ha⟩

end Output

/-- When unused fragments are left out, a build that starts over makes the fragments that its operations use. -/
theorem fragment_made_iff {c : Sources} {documents : Assoc String Document} {s : State} {file : String}
    {entries : List (Job × List String)} {after : Assoc String CollectedOperation} (hu : UniqueNames documents)
    (hs : Idle c (fun _ => False) (firstJob (allJobs c.toConfig documents)) s)
    (hp : Passes c (fun _ => False) noFile [] (sectionsOf c.toConfig true documents) (.ok (file, s.progress)))
    (hcollected : Collected c (firstJob (allJobs c.toConfig documents)) (allJobs c.toConfig documents) [] s entries after)
    (name : String) :
    Assoc.has s.store (fragmentNode name) ↔ ∃ op ∈ Assoc.values after, name ∈ Output.fragmentsOf op := by
  have huses : ∀ e : Job × List String, name ∈ Output.fragmentsOf (collected c.toConfig e.1 e.2) ↔ name ∈ fragmentsUsed e.2 :=
    fun e => Text.mem_sorted.trans Text.mem_distinct
  rw [hcollected.result, Output.values_collect _ (hcollected.nodup_names hu)]
  constructor
  · intro hhas
    rw [← has_progress] at hhas
    obtain ⟨sec, hsec, n, hn, hr⟩ := (hp.reached hhas).resolve_left fun h => nomatch h
    obtain ⟨e, he, rfl⟩ := List.mem_map.1 ((List.mem_append.1 hsec).resolve_left List.not_mem_nil)
    obtain ⟨j, hj, hn⟩ := List.mem_flatMap.1 hn
    have hj : j ∈ allJobs c.toConfig documents := List.mem_flatMap.2 ⟨e, he, hj⟩
    rcases List.mem_pair.1 hn with rfl | rfl
    · have hspreads := needsAt_eq (c := c) (needOf_operation (hu.firstJob hj))
      rw [← hcollected.jobs] at hj
      obtain ⟨entry, hentry, rfl⟩ := List.mem_map.1 hj
      refine ⟨_, List.mem_map_of_mem hentry, (huses entry).2 ((hcollected.used entry hentry name).2 ?_)⟩
      rw [spreadsOf, hspreads]
      exact hr
    · -- variables need no fragments
      obtain ⟨other, hother, -⟩ := hr
      obtain ⟨d, hd⟩ | ⟨type, htype⟩ := Plan.coded_of_codes (codes_variablesPlan j) _ (mem_fragmentsIn.1 hother)
      · cases hd
      · cases htype
  · rintro ⟨op, hop, hname⟩
    obtain ⟨e, he, rfl⟩ := List.mem_map.1 hop
    obtain ⟨_, -, hattributed⟩ := hcollected.attributed e he
    rw [← has_progress]
    refine hs.sound.has_reached ?_ ((hattributed.used name).1 ((huses e).1 hname))
    rw [has_progress]
    exact hattributed.generated.1

/-- A build that starts over and leaves unused fragments out gives the fragments that its operations use. -/
theorem outputOf_fragment_iff {schema : Schema} {options : Options} {documents : Assoc String Document}
    (hskip : options.skipUnusedFragments = true) (hfiles : (Assoc.keys documents).Nodup) (hu : UniqueNames documents)
    {out : Output} (h : outputOf schema options documents = .ok out) (name : String) :
    (∃ a ∈ out.ofKind .fragment, a.graphqlName = some name) ↔ ∃ op ∈ out.operations, name ∈ Output.fragmentsOf op := by
  rw [outputOf_eq schema options hfiles] at h
  rcases build_empty (w := { new schema options with documents }) ⟨rfl, rfl⟩ with
    ⟨e, -, he⟩ | ⟨s, file, entries, after, hp, hbuild, hs, hcollected⟩
  · rw [he] at h
    cases h
  · cases hbuild.symm.trans h
    rw [fragment_mem_ofParts_iff hs, fragment_made_iff hu hs (hskip ▸ hp) hcollected]
    exact exists_congr fun op => and_congr_left fun _ => (Text.sortBy_perm _ _).mem_iff.symm

end Workspace

end ResponseTypes
