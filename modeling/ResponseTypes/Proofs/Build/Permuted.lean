import ResponseTypes.Proofs.Build.Uses
import ResponseTypes.Proofs.Output.Sorted
import ResponseTypes.Proofs.Plan.Retrace

/-!
# The order of documents

What a build makes of some documents can be retraced by a build of the same documents in another order (`retraceable_of_passes`).
So either both fail, or both make the same artifacts and operations, and their outputs give the same texts
(`outputOf_perm`).
-/

namespace ResponseTypes

set_option autoImplicit false

open Compile
open Dependency (fragmentsUsed)
open GraphQL (Document TypeRef)

/-! ## Retracing builds -/

/-- What there is nothing to make for needs nothing with other fragments. -/
theorem Compile.Need.Settled.withFragments {c : Sources} {stack : Stack} {p : Progress} {n : Need}
    (h : n.Settled c stack p) (fragments : Assoc String FragmentDef) : n.Settled (c.withFragments fragments) stack p := by
  cases n with
  | code type =>
    have hsame : Plan.Same c fragments (codePlan c.toConfig type) (codePlan c.toConfig type) :=
      Plan.same_of_codes _ (codes_codePlan type)
    obtain ⟨⟨text, htext⟩, hsettled⟩ := h
    exact ⟨⟨text, hsame.outcome.trans htext⟩, fun d hd => hsettled d (hsame.needs ▸ hd)⟩
  | declared d | fragment name | operation j | arguments j => exact h

theorem Compile.Need.Done.withFragments {c : Sources} {late : TypeRef → Prop} {stack : Stack} {p : Progress} {n : Need}
    (h : n.Done c late stack p) (fragments : Assoc String FragmentDef) :
    n.Done (c.withFragments fragments) late stack p :=
  h.imp (fun h => h.withFragments fragments) id

section Passes

variable {c : Sources} {late : TypeRef → Prop} {jobOf : String → Option Job} {file : String} {p : Progress}
  {sections : List Section}

/-- After a build there is nothing left to make for its sections, none of which fails by itself. -/
theorem Passes.done {r : String × Progress} (h : Passes c late file p sections (.ok r)) :
    p.Le r.2 ∧ ∀ sec ∈ sections, sec.failure = none ∧ ∀ n ∈ sec.needs, n.Done c late .empty r.2 := by
  generalize ho : Except.ok r = o at h
  induction h with
  | nil =>
    cases ho
    exact ⟨fun _ _ h => h, fun _ h => absurd h List.not_mem_nil⟩
  | broken | failed => cases ho
  | passed hr hf _ ih =>
    obtain ⟨hle, hrest⟩ := ih ho
    refine ⟨fun node piece h => hle node piece (hr.le node piece h), List.forall_mem_cons.2 ⟨⟨hf, fun n hn => ?_⟩, hrest⟩⟩
    exact (hr.done n hn).mono hle

/-- A build makes all that is needed for what it makes. -/
theorem Passes.furnished {r : String × Progress} (h : Passes c late file p sections (.ok r))
    (hp : Furnished c late jobOf .empty p) (hsections : ∀ sec ∈ sections, ∀ n ∈ sec.needs, n.Known jobOf) :
    Furnished c late jobOf .empty r.2 :=
  h.preserves hp fun sec hsec _ _ _ hr hp => hr.furnished hp (hsections sec hsec) (Or.inl rfl)

/-- A build that needs what a whole state has makes what is there. -/
theorem Passes.retraces {s : State} {rank : String → Nat} (hw : Whole c jobOf s rank)
    {o : Except Failure (String × Progress)} (h : Passes c late file p sections o) (hp : p.Agrees s.progress)
    (hordered : Ordered c p)
    (hsections : ∀ sec ∈ sections, sec.failure = none ∧ ∀ n ∈ sec.needs, n.Due c jobOf s.progress) :
    ∃ r, o = .ok r ∧ s.progress.Repeats p r.2 := by
  have hbelow : ∀ n : Need, n.Below rank .empty := fun n => by
    cases n with
    | fragment name => exact fun other hother => absurd hother List.not_mem_nil
    | operation j | arguments j => rfl
    | declared d | code type => trivial
  induction h with
  | nil => exact ⟨_, rfl, .refl hp⟩
  | broken hr =>
    obtain ⟨p', h, -⟩ := hr.retraces hw hp hordered (hsections _ List.mem_cons_self).2 fun n _ => hbelow n
    cases h
  | failed hr hf => cases hf.symm.trans (hsections _ List.mem_cons_self).1
  | passed hr _ _ ih =>
    obtain ⟨hsec, hrest⟩ := List.forall_mem_cons.1 hsections
    obtain ⟨p', h, hp'⟩ := hr.retraces hw hp hordered hsec.2 fun n _ => hbelow n
    cases h
    obtain ⟨r, ho, hr'⟩ := ih hp'.agrees (hr.ordered hordered) hrest
    exact ⟨r, ho, hp'.trans hr'⟩

end Passes

/-! ## Documents in another order -/

section Permuted

variable {documents documents' : Assoc String Document}

theorem UniqueNames.perm (h : UniqueNames documents) (hperm : documents.Perm documents') : UniqueNames documents' where
  fragments := (hperm.flatMap_right _).nodup_iff.1 h.fragments
  operations := (hperm.flatMap_right _).nodup_iff.1 h.operations

/-- With distinct names, the fragments that are collected are those of the documents. -/
theorem UniqueNames.get?_collectFragments_iff (h : UniqueNames documents) {name : String} {f : FragmentDef} :
    Assoc.get? (Workspace.collectFragments documents) name = some f ↔
      f.fragment.name = name ∧ ∃ d, (f.file, d) ∈ documents ∧ f.fragment ∈ d.fragments := by
  refine ⟨mem_of_collectFragments, ?_⟩
  rintro ⟨rfl, d, hd, hf⟩
  exact h.get?_collectFragments hd hf

theorem UniqueNames.get?_collectFragments_perm (h : UniqueNames documents) (hperm : documents.Perm documents') (name : String) :
    Assoc.get? (Workspace.collectFragments documents') name = Assoc.get? (Workspace.collectFragments documents) name := by
  refine Option.ext fun f => ?_
  rw [h.get?_collectFragments_iff, (h.perm hperm).get?_collectFragments_iff]
  simp only [hperm.mem_iff]

/-- With distinct names, the operations that are found by name are those of the documents. -/
theorem firstJob_iff (h : UniqueNames documents) {c : Config} {name : String} {j : Job} :
    firstJob (allJobs c documents) name = some j ↔ j ∈ allJobs c documents ∧ j.name = name := by
  constructor
  · intro hj
    exact ⟨List.mem_of_find?_eq_some hj, by simpa using List.find?_some hj⟩
  · rintro ⟨hj, rfl⟩
    exact h.firstJob hj

theorem mem_sectionsOf_perm {c : Config} {skipUnused : Bool} {sec : Section} (hperm : documents.Perm documents') :
    sec ∈ sectionsOf c skipUnused documents' ↔ sec ∈ sectionsOf c skipUnused documents := by
  unfold sectionsOf
  rw [List.mem_append, List.mem_append]
  refine or_congr ?_ (hperm.map _).mem_iff.symm
  split
  · rfl
  · exact (hperm.map _).mem_iff.symm

/-- What sections need is known by the operations of the documents. -/
theorem known_of_mem_sectionsOf (h : UniqueNames documents) {c : Config} {skipUnused : Bool} {sec : Section}
    (hsec : sec ∈ sectionsOf c skipUnused documents) {n : Need} (hn : n ∈ sec.needs) :
    n.Known (firstJob (allJobs c documents)) := by
  have hhome : sec.AtHome (firstJob (allJobs c documents)) := atHome_sectionsOf (fun j hj => h.firstJob hj) sec hsec
  exact fun node hnode => (hhome "" n hn).needOf hnode

variable {c : Sources} {late : TypeRef → Prop} {stack : Stack} {file : String} {s : State} {skipUnused : Bool}

/-- What a build needs for its documents is due after it. -/
theorem Passes.due {p : Progress} {r : String × Progress} (hu : UniqueNames documents)
    (h : Passes c late file p (sectionsOf c.toConfig skipUnused documents) (.ok r)) :
    ∀ sec ∈ sectionsOf c.toConfig skipUnused documents,
      sec.failure = none ∧ ∀ n ∈ sec.needs, n.Due c (firstJob (allJobs c.toConfig documents)) r.2 := by
  intro sec hsec
  obtain ⟨hfailure, hdone⟩ := h.done.2 sec hsec
  refine ⟨hfailure, fun n hn => ⟨(hdone n hn).resolve_right ?_, known_of_mem_sectionsOf hu hsec hn⟩⟩
  rintro ⟨type, rfl, -⟩
  rcases List.mem_append.1 hsec with hsec | hsec
  · split at hsec
    · cases hsec
    · obtain ⟨e, -, rfl⟩ := List.mem_map.1 hsec
      obtain ⟨f, -, hf⟩ := List.mem_map.1 hn
      cases hf
  · obtain ⟨e, -, rfl⟩ := List.mem_map.1 hsec
    obtain ⟨j, -, hj⟩ := List.mem_flatMap.1 hn
    simp at hj

/-- What a build made can be retraced with the documents in another order. -/
structure Retraceable (c : Sources) (skipUnused : Bool) (documents documents' : Assoc String Document) (s : State) :
    Prop where
  whole : ∃ rank,
    Whole (c.withFragments (Workspace.collectFragments documents')) (firstJob (allJobs c.toConfig documents)) s rank
  due : ∀ sec ∈ sectionsOf c.toConfig skipUnused documents', sec.failure = none ∧ ∀ n ∈ sec.needs,
    n.Due (c.withFragments (Workspace.collectFragments documents')) (firstJob (allJobs c.toConfig documents)) s.progress

theorem unmoved_perm (hfragments : c.fragments = Workspace.collectFragments documents) (hu : UniqueNames documents)
    (hperm : documents.Perm documents') : Unmoved c (Workspace.collectFragments documents') s where
  same name _ := hfragments ▸ hu.get?_collectFragments_perm hperm name
  named _ _ hf := (mem_of_collectFragments hf).1

theorem retraceable_of_passes (hfragments : c.fragments = Workspace.collectFragments documents) (hu : UniqueNames documents)
    (hperm : documents.Perm documents')
    (hidle : Idle c (fun _ => False) (firstJob (allJobs c.toConfig documents)) s)
    (hp : Passes c (fun _ => False) noFile [] (sectionsOf c.toConfig skipUnused documents) (.ok (file, s.progress))) :
    Retraceable c skipUnused documents documents' s := by
  have hunmoved := unmoved_perm (s := s) hfragments hu hperm
  have hsound := hidle.sound.withFragments hunmoved fun _ _ => rfl
  obtain ⟨rank, hrank⟩ := hsound.rankedByUse_iff.1 (hidle.sound.rankedByUse_iff.2 (hp.ordered ordered_nil))
  refine ⟨⟨rank, hsound, fun node hnode m hm => ?_, hrank⟩, fun sec hsec => ?_⟩
  · rw [has_progress] at hnode
    rw [hidle.sound.needsAt_withFragments hunmoved hnode rfl] at hm
    refine Need.Done.withFragments (hp.furnished furnished_nil (fun _ hsec _ hn => ?_) node ?_ m hm) _
    · exact known_of_mem_sectionsOf hu hsec hn
    · rw [has_progress]
      exact hnode
  · have hsec := (mem_sectionsOf_perm hperm).1 hsec
    obtain ⟨hfailure, hdue⟩ := hp.due hu sec hsec
    exact ⟨hfailure, fun n hn => ⟨(hdue n hn).settled.withFragments _, (hdue n hn).known⟩⟩

/-- A build of the documents in another order makes nothing else, and does not fail. -/
theorem Retraceable.passes (h : Retraceable c skipUnused documents documents' s) {o : Except Failure (String × Progress)}
    (hp : Passes (c.withFragments (Workspace.collectFragments documents')) (fun _ => False) noFile []
      (sectionsOf c.toConfig skipUnused documents') o) : ∃ r, o = .ok r ∧ r.2.Within s.progress := by
  obtain ⟨rank, hwhole⟩ := h.whole
  obtain ⟨r, ho, hr⟩ := hp.retraces hwhole (fun _ _ _ h => nomatch h) ordered_nil h.due
  exact ⟨r, ho, hr.within⟩

end Permuted

/-! ## Outputs -/

namespace Output

/-- Lists in which elements are told apart have the same elements if each is found in the other. -/
theorem perm_of_keyed {α κ : Type} {l l' : List α} (key : α → κ) (hl : (l.map key).Nodup) (hl' : (l'.map key).Nodup)
    (h : ∀ a ∈ l, a ∈ l') (h' : ∀ a ∈ l', a ∈ l) : l.Perm l' :=
  (List.perm_ext_iff_of_nodup hl.of_map hl'.of_map).2 fun a => ⟨h a, h' a⟩

theorem keys_progress (s : State) : Assoc.keys s.progress = Assoc.keys s.store := by
  simp only [Assoc.keys, State.progress, List.map_map]
  rfl

/-- What a state made, without files and keys. -/
def drafts (s : State) : List (Node × Draft) :=
  s.progress.map fun e => (e.1, e.2.draft)

theorem nodup_drafts {s : State} (hs : s.Distinct) : ((drafts s).map Prod.fst).Nodup := by
  have hkeys : (drafts s).map Prod.fst = Assoc.keys s.store := by
    rw [← keys_progress, drafts, List.map_map]
    rfl
  rw [hkeys]
  exact hs.store

theorem subset_drafts {s s' : State} (hs : s.Distinct) (h : s.progress.Within s'.progress) :
    ∀ e ∈ drafts s, e ∈ drafts s' := by
  intro e he
  obtain ⟨⟨node, piece⟩, hmem, rfl⟩ := List.mem_map.1 he
  obtain ⟨piece', hget', hdraft, -⟩ := h node piece (Assoc.get?_of_mem (keys_progress s ▸ hs.store) hmem)
  exact List.mem_map.2 ⟨(node, piece'), Assoc.mem_of_get? hget', by rw [hdraft]⟩

/-- The artifact of a draft, without what it depends on. -/
def bareDraft (e : Node × Draft) : Artifact ArtifactKind :=
  { e.2 with kind := e.1.1, origin := ⟨"", []⟩ }

theorem map_bare_values {s : State} (hs : ∀ e ∈ s.store, e.2.kind = e.1.1) :
    (Assoc.values s.store).map bare = (drafts s).map bareDraft := by
  rw [Assoc.values, drafts, State.progress, List.map_map, List.map_map, List.map_map]
  refine List.map_congr_left fun e he => ?_
  simp only [Function.comp, bare, bareDraft, ← hs e he]

/-- What was made in another state too has its artifacts there, but for what these depend on. -/
theorem subperm_bare {c c' : Sources} {late late' : TypeRef → Prop} {jobOf jobOf' : String → Option Job} {s s' : State}
    (hs : Idle c late jobOf s) (hs' : Idle c' late' jobOf' s') (h : s.progress.Within s'.progress) :
    ((Assoc.values s.store).map bare).Subperm ((Assoc.values s'.store).map bare) := by
  rw [map_bare_values hs.sound.kinds, map_bare_values hs'.sound.kinds]
  obtain ⟨made, hperm, hsub⟩ :=
    List.subperm_of_subset (nodup_drafts hs.sound.distinct).of_map (subset_drafts hs.sound.distinct h)
  exact ⟨made.map bareDraft, hperm.map bareDraft, hsub.map bareDraft⟩

/-- Operations with distinct names are collected one after the other. -/
theorem collect_eq_append (c : Config) (entries : List (Job × List String)) (m : Assoc String CollectedOperation)
    (h : (Assoc.keys m ++ entries.map (·.1.name)).Nodup) :
    collect c m entries = m ++ entries.map fun e => (e.1.name, collected c e.1 e.2) := by
  induction entries generalizing m with
  | nil => exact (List.append_nil m).symm
  | cons e rest ih =>
    have hnew : Assoc.get? m e.1.name = none :=
      Assoc.get?_eq_none.2 fun hmem => (List.nodup_append.1 h).2.2 _ hmem _ List.mem_cons_self rfl
    have hcons : collect c m (e :: rest) = collect c (Assoc.insert m e.1.name (collected c e.1 e.2)) rest := rfl
    rw [hcons, insert_eq_append hnew, ih, List.append_assoc]
    · rfl
    · rw [Assoc.keys, List.map_append, List.append_assoc]
      exact h

theorem values_collect (c : Config) {entries : List (Job × List String)} (h : (entries.map (·.1.name)).Nodup) :
    Assoc.values (collect c [] entries) = entries.map fun e => collected c e.1 e.2 := by
  rw [collect_eq_append c entries [] h, Assoc.values, List.nil_append, List.map_map]
  rfl

/-- Operations that are collected for the same jobs and use the same fragments are told the same. -/
theorem perm_view_collect (c : Config) {entries entries' : List (Job × List String)}
    (hjobs : (entries.map Prod.fst).Perm (entries'.map Prod.fst)) (hnames : (entries.map (·.1.name)).Nodup)
    (huses : ∀ e ∈ entries, ∀ e' ∈ entries', e.1 = e'.1 → ∀ f, f ∈ fragmentsUsed e.2 ↔ f ∈ fragmentsUsed e'.2) :
    ((Assoc.values (collect c [] entries)).map view).Perm ((Assoc.values (collect c [] entries')).map view) ∧
      ((Assoc.values (collect c [] entries)).map (·.name)).Nodup := by
  have hnames' : (entries'.map (·.1.name)).Nodup := by
    have hperm := hjobs.map (·.name)
    rw [List.map_map, List.map_map] at hperm
    exact hperm.nodup_iff.1 hnames
  have hview : ∀ e ∈ entries, ∀ e' ∈ entries', e.1 = e'.1 → view (collected c e.1 e.2) = view (collected c e'.1 e'.2) := by
    intro e he e' he' hjob
    rw [← hjob]
    exact alike_of_uses (a := collected c e.1 e.2) (huses e he e' he' hjob)
  rw [values_collect c hnames, values_collect c hnames', List.map_map, List.map_map, List.map_map]
  refine ⟨perm_of_keyed (fun v => v.1.name) ?_ ?_ (fun v hv => ?_) (fun v hv => ?_), hnames⟩
  · rw [List.map_map]
    exact hnames
  · rw [List.map_map]
    exact hnames'
  · obtain ⟨e, he, rfl⟩ := List.mem_map.1 hv
    obtain ⟨e', he', hjob⟩ := List.mem_map.1 (hjobs.mem_iff.1 (List.mem_map_of_mem he))
    exact List.mem_map.2 ⟨e', he', (hview e he e' he' hjob.symm).symm⟩
  · obtain ⟨e', he', rfl⟩ := List.mem_map.1 hv
    obtain ⟨e, he, hjob⟩ := List.mem_map.1 (hjobs.mem_iff.2 (List.mem_map_of_mem he'))
    exact List.mem_map.2 ⟨e, he, hview e he e' he' hjob⟩

end Output

/-- With distinct names, the operations that are collected have distinct names. -/
theorem Collected.nodup_names {c : Sources} {documents : Assoc String Document} {jobOf : String → Option Job}
    {before after : Assoc String CollectedOperation} {s : State} {entries : List (Job × List String)}
    (h : Collected c jobOf (allJobs c.toConfig documents) before s entries after) (hu : UniqueNames documents) :
    (entries.map (·.1.name)).Nodup := by
  have hall : ((allJobs c.toConfig documents).map (·.name)).Nodup := hu.operations.sublist (sublist_allJobs _ documents)
  rw [← h.jobs, List.map_map] at hall
  exact hall

namespace Workspace

/-- Documents of different files are all added. -/
theorem add_of_nodup (w : Workspace) {documents : List (String × Document)}
    (h : (Assoc.keys w.documents ++ Assoc.keys documents).Nodup) :
    w.add documents = (.ok (), { w with documents := w.documents ++ documents }) := by
  induction documents generalizing w with
  | nil => rw [List.append_nil]; rfl
  | cons e rest ih =>
    obtain ⟨file, d⟩ := e
    have hnew : Assoc.get? w.documents file = none :=
      Assoc.get?_eq_none.2 fun hmem => (List.nodup_append.1 h).2.2 _ hmem _ List.mem_cons_self rfl
    rw [add, if_neg (by rw [Assoc.has, hnew]; simp), insert_eq_append hnew, ih]
    · simp only [List.append_assoc, List.singleton_append]
    · rw [Assoc.keys, List.map_append, List.append_assoc]
      exact h

end Workspace

end ResponseTypes
