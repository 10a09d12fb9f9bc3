import ResponseTypes.Proofs.Plan.Mooring

/-!
# Finalized builds

All that a build makes is `Finalized`.  A fragment that was generated is used again without effect (`calm_generateFragment`);
so what asks for the fields of such fragments is calm, and finds the fields that there are (`calm_query`).  When a fragment
is flattened and finished, all that it refers to was generated (`moors_buildFragment`).  Generating a fragment moors, by the
recursion of `generateFragment` (`moors_generateFragment`), and so does all that a build does (`moors_generateAll`).
-/

namespace ResponseTypes.Compile

set_option autoImplicit false

open GraphQL (Document Operation)
open Shape (FieldsCite)

variable {c : Setup} {building : List String} {s s' : State} {name : String} {generate : Generator} {α : Type}

/-! ## Using fragments again -/

/-- The fragment was generated, and the keys of its artifact are held. -/
def Fetched (name : String) (s : State) : Prop :=
  ∃ a, Assoc.get? s.store (fragmentNode name) = some a ∧ (s.tracker.enabled = true → ∀ k ∈ a.origin.keys, s.tracker.Holds k)

theorem Fetched.calm (h : Fetched name s) (hcalm : Calm s s') : Fetched name s' := by
  obtain ⟨a, ha, hkeys⟩ := h
  obtain ⟨_, _, hb⟩ := hcalm.bubbles
  exact ⟨a, hcalm.store ▸ ha, fun he k hk => (hkeys (hb.enabled ▸ he) k hk).mono hb⟩

theorem calm_attributeFields {a : Unit} (hrun : (attributeFields name).runOn s = (.ok a, s')) : Calm s s' := by
  obtain ⟨maps, heq, hmaps⟩ := runOn_attributeFields name s
  rw [heq] at hrun
  cases hrun
  refine ⟨⟨_, _, .refl _⟩, rfl, rfl, hmaps.distinct, fun other => ?_⟩
  have hfields := congrArg (Option.map Prod.fst) (hmaps.fields other)
  rw [Option.map_map, Option.map_map] at hfields
  exact hfields

theorem reuse_of_fragmentInProgress {a : Artifact ArtifactKind} {artifactName : String}
    (ha : Assoc.get? s.store (fragmentNode name) = some a)
    (hrun : (fragmentInProgress name).runOn s = (.ok artifactName, s')) :
    (Store.reuse a : Step String).runOn s = (.ok artifactName, s') := by
  have hget : Assoc.get? (State.storePart.get s) (ArtifactKind.fragment, name) = some a := ha
  unfold fragmentInProgress at hrun
  obtain ⟨_, _, hread, hrun⟩ := runOn_bind_ok hrun
  cases hread
  simp only [hget] at hrun
  exact hrun

theorem calm_generateFragment {a : Artifact ArtifactKind} {artifactName : String}
    (ha : Assoc.get? s.store (fragmentNode name) = some a)
    (hrun : (generateFragment c building name).runOn s = (.ok artifactName, s')) : Calm s s' ∧ Fetched name s' := by
  rw [generateFragment.eq_def] at hrun
  split at hrun
  · cases hrun
  · obtain ⟨_, s₁, hact, hrun⟩ := runOn_bind_ok hrun
    obtain ⟨_, s₂, hattribute, hrun⟩ := runOn_bind_ok hrun
    cases hrun
    have hreuse : (Store.reuse a : Step String).runOn s = (.ok artifactName, s₁) := by
      split at hact
      · exact reuse_of_fragmentInProgress ha hact
      · exact (runOn_artifact_some ha).symm.trans hact
    obtain ⟨hcalm, hheld⟩ := calm_reuse hreuse
    have hattributed := calm_attributeFields hattribute
    have hfetched : Fetched name s₁ := ⟨a, hcalm.store ▸ ha, hheld⟩
    exact ⟨hcalm.trans hattributed, hfetched.calm hattributed⟩

/-- Fragments are there after they were asked for, with their keys held, and asking for those that are there is calm. -/
structure Fetches (c : Setup) (building : List String) (generate : Generator) : Prop where
  moors : ∀ name, Moors c building (generate name) fun _ => Fetched name
  calm : ∀ name s s', (∃ a, Assoc.get? s.store (fragmentNode name) = some a) →
    (generate name).runOn s = (.ok (), s') → Calm s s'

theorem fetches_generating (h : ∀ name, Moors c building (generating c building name) fun _ => Fetched name) :
    Fetches c building (generating c building) := by
  refine ⟨h, fun name s s' hmade hrun => ?_⟩
  obtain ⟨a, ha⟩ := hmade
  obtain ⟨_, s₁, hgenerate, hrun⟩ := runOn_bind_ok hrun
  cases hrun
  exact (calm_generateFragment ha hgenerate).1

theorem moors_useFragment (hc : c.toSources.Named) (h : Fetches c building generate) (name : String) :
    Moors c building (useFragment c generate name) fun f s => f.CitedIn c.toConfig (Held c.toConfig s) := by
  unfold useFragment
  split
  · exact moors_failHere _
  · rename_i f hf
    refine moors_bind (moors_add _) fun _ => moors_map (fun _ => f) (h.moors name) fun _ s hfetched parent => ?_
    obtain rfl := hc name f hf
    exact ⟨rfl, rfl, hfetched⟩

/-! ## Queries -/

theorem fieldsOf_of_fragmentFields {fields : Fields} (hrun : (fragmentFields generate name).runOn s = (.ok fields, s')) :
    (generate name).runOn s = (.ok (), s') ∧ s'.fieldsOf name = some fields := by
  unfold fragmentFields at hrun
  obtain ⟨_, s₁, hgenerate, hrun⟩ := runOn_bind_ok hrun
  obtain ⟨_, _, hread, hrun⟩ := runOn_bind_ok hrun
  cases hread
  split at hrun
  · rename_i m hm
    cases hrun
    exact ⟨hgenerate, congrArg (Option.map FieldMap.fields) hm⟩
  · cases hrun

/-- What asks for fragments that were generated is calm, and finds the fields that they have. -/
theorem calm_query (h : Fetches c building generate) {R : FragmentRef → Prop} {q : Query α} {P : α → Prop} {a : α}
    (hmade : ∀ r, R r → ∃ a, Assoc.get? s.store (fragmentNode r.fragment) = some a)
    (hq : q.Within (Referred R) s.fieldsOf P) (hrun : (q.perform (fragmentFields generate)).runOn s = (.ok a, s')) :
    Calm s s' ∧ P a := by
  induction q generalizing s with
  | done b =>
    cases hrun
    exact ⟨.refl _, hq⟩
  | lack e => cases hrun
  | fields name next ih =>
    obtain ⟨⟨r, hr, rfl⟩, hnext⟩ := hq
    obtain ⟨fields, s₁, hfetch, hrun⟩ := runOn_bind_ok hrun
    obtain ⟨hgenerate, hfields⟩ := fieldsOf_of_fragmentFields hfetch
    have hcalm := h.calm _ s s₁ (hmade r hr) hgenerate
    have hsame : s₁.fieldsOf = s.fieldsOf := funext hcalm.fields
    rw [hsame] at hfields
    obtain ⟨hrest, ha⟩ := ih fields (fun r hr => hcalm.store ▸ hmade r hr) (hsame ▸ hnext fields hfields) hrun
    exact ⟨hcalm.trans hrest, ha⟩

/-- Finishing a shape whose references are held is calm and gives a composed shape. -/
theorem calm_finish (h : Fetches c building generate) (hs : Moored c.toConfig s) {selected tree : Shape}
    (hcites : selected.Cites (Held c.toConfig s)) (hrun : (finish generate selected).runOn s = (.ok tree, s')) :
    Calm s s' ∧ tree.Formed (composed (Grounded c.toConfig s')) := by
  obtain ⟨_, _, hread, hrun⟩ := runOn_bind_ok hrun
  cases hread
  have hmade : ∀ r, Grounded c.toConfig s r → ∃ a, Assoc.get? s.store (fragmentNode r.fragment) = some a := fun r hr =>
    hr.made.imp fun _ => And.left
  have hgrounded : selected.Cites (Grounded c.toConfig s) := hcites.mono fun r => hs.grounded
  obtain ⟨hcalm, htree⟩ := calm_query h hmade (finishWithin_composed hs.composable _ selected hgrounded) hrun
  exact ⟨hcalm, composed_mono htree fun r hr => hr.mono hcalm.enlarges⟩

/-- What a query ensures whatever it is answered is true of what comes of it. -/
theorem Query.of_runOn_perform {fieldsOf : String → Step Fields} {q : Query α} {P : α → Prop} {a : α} (hq : q.Ensures .any P)
    (hrun : (q.perform fieldsOf).runOn s = (.ok a, s')) : P a := by
  induction q generalizing s with
  | done b =>
    cases hrun
    exact hq
  | lack e => cases hrun
  | fields name next ih =>
    obtain ⟨fields, s₁, -, hrun⟩ := runOn_bind_ok hrun
    exact ih fields (hq fields trivial) hrun

/-- Finishing keeps whether a shape is nullable. -/
theorem nullable_finish {selected tree : Shape} (hrun : (finish generate selected).runOn s = (.ok tree, s')) :
    tree.nullable = selected.nullable := by
  obtain ⟨_, _, -, hrun⟩ := runOn_bind_ok hrun
  exact congrArg Note.nullable (Query.of_runOn_perform (P := fun t => t.note = selected.note) (finishWithin_note _ selected) hrun)

/-! ## Generating fragments -/

/-- The draft of a fragment is finalized, its fields are kept, and what they refer to is held. -/
structure Drafted (c : Setup) (name : String) (draft : Draft) (s : State) : Prop where
  named : draft.name = c.naming.fragment name
  fields : ∃ fields, s.fieldsOf name = some fields ∧ FieldsCite (Held c.toConfig s) fields
  final : Finalized c s (fragmentNode name) draft

theorem Drafted.calm {draft : Draft} (h : Drafted c name draft s) (hcalm : Calm s s') : Drafted c name draft s' := by
  obtain ⟨fields, hfields, hcite⟩ := h.fields
  have hheld : ∀ r, Held c.toConfig s r → Held c.toConfig s' r := fun r hr =>
    (hcalm.furthers : Furthers c [] s s').held hr
  exact ⟨h.named, ⟨fields, (hcalm.fields name).trans hfields, hcite.mono hheld⟩, h.final.mono hcalm.enlarges⟩

theorem moors_buildFragment (hc : c.toSources.Named) {f : FragmentDef} (hf : Assoc.get? c.fragments name = some f)
    (hname : name ∈ building) (h : Fetches c building (generating c building)) :
    Moors c building (buildFragment c f (generating c building)) (Drafted c name) := by
  intro s draft s' hs hu hrun
  obtain rfl := hc name f hf
  obtain ⟨selected, s₁, hselect, hrun⟩ := runOn_bind_ok hrun
  obtain ⟨fields, s₂, hflat, hrun⟩ := runOn_bind_ok hrun
  obtain ⟨_, s₃, hkeep, hrun⟩ := runOn_bind_ok hrun
  obtain ⟨tree, s₄, hfinish, hrun⟩ := runOn_bind_ok hrun
  cases hrun
  rw [runOn_keepFields] at hkeep
  cases hkeep
  obtain ⟨hs₁, hf₁, hcites⟩ :=
    moors_perform (moors_host (moors_useFragment hc h)) (fun R => fragmentPlan_cites R f) s selected s₁ hs hu hselect
  -- what is selected refers to fragments that were generated, and `f` was not
  have hmade : ∀ r, Held c.toConfig s₁ r → ∃ a, Assoc.get? s₁.store (fragmentNode r.fragment) = some a := fun r hr =>
    hr.made.imp fun _ => And.left
  obtain ⟨hcalm, hflattened⟩ := calm_query h hmade (flatFields_flattened hs₁.flattened selected hcites) hflat
  have hs₂ := hcalm.moored hs₁
  have hf₂ := hf₁.trans hcalm.furthers
  have hnone := hf₂.unmade hu _ hname
  have hs₃ := hs₂.keep hnone hflattened.own hflattened.distinct
  have hf₃ : Furthers c building s₁ (withFields f fields s₂) := (hcalm.furthers).trans (.keep hnone fields)
  obtain ⟨hfinished, htree⟩ := calm_finish h hs₃ (hcites.mono fun r => hf₃.held) hfinish
  have hf₄ := hf₃.trans hfinished.furthers
  have hfields : s'.fieldsOf f.fragment.name = some fields := by
    rw [hfinished.fields, fieldsOf_withFields, if_pos rfl]
  exact ⟨hfinished.moored hs₃, hf₁.trans hf₄, rfl, ⟨fields, hfields, hflattened.cites.mono fun r => hf₄.held⟩,
    .fragment hf hselect hfinish htree⟩

/-- The artifact of a fragment, if building it moors while it is being generated. -/
theorem moors_fragment (hname : name ∉ building) {given : Option String} {build : Step Draft}
    (hbuild : Moors c (name :: building) build (Drafted c name)) :
    Moors c building (artifact .fragment name given build) fun _ => Fetched name := by
  intro s artifactName s' hs hu hrun
  cases hget : Assoc.get? s.store (fragmentNode name) with
  | some a =>
    obtain ⟨hcalm, hheld⟩ := calm_reuse ((runOn_artifact_some hget).symm.trans hrun)
    exact ⟨hcalm.moored hs, hcalm.furthers, a, hcalm.store ▸ hget, hheld⟩
  | none =>
    obtain ⟨draft, s₁, t, keys, t', hbuilt, hadd, hfinish, rfl⟩ := made_of_runOn_artifact hget hrun
    have hu₀ : Unmade (name :: building) s := List.forall_mem_cons.2 ⟨hget, hu⟩
    obtain ⟨hs₁, hf, hdraft⟩ := hbuild _ draft s₁ (hs.opened given) hu₀ hbuilt
    obtain ⟨fields, hfields, hcite⟩ := hdraft.fields
    obtain ⟨hnone, hunmade⟩ := List.forall_mem_cons.1 (hf.unmade hu₀)
    have hb := Tracker.bubbles_add hadd
    have henabled : t'.enabled = s₁.tracker.enabled := (Tracker.enabled_finish hfinish).trans hb.enabled
    have hanchored : ∀ r, Held c.toConfig s₁ r → Anchored c.toConfig s₁ (· ∈ keys) r := fun r hr =>
      hr.mono ⟨fun _ _ => id, fun _ _ _ => rfl⟩ rfl fun he k hk => (hk.mono hb).closed (hb.enabled.trans he) hfinish
    refine ⟨hs₁.stored henabled fun other h => ?_, hf.store hget hadd hfinish (fun _ => ⟨hunmade, fun other hother h => ?_⟩)
      (fun other h => ?_) hdraft.final, _, Assoc.get?_insert_self _ _ _, fun he k hk => ?_⟩
    · cases h
      exact ⟨hnone, hdraft.named, fun fields' h => Option.some.inj (hfields.symm.trans h) ▸ hcite.mono hanchored⟩
    · cases h
      exact hname hother
    · cases h
      exact ⟨hnone, fields, hfields⟩
    · exact Tracker.holds_finish ((hb.enabled.trans henabled.symm).trans he) hfinish hk

theorem moors_attributing {act : Step String} (h : Moors c building act fun _ => Fetched name) :
    Moors c building (attributing name act) fun _ => Fetched name := by
  intro s artifactName s' hs hu hrun
  obtain ⟨_, s₁, hfirst, hrun⟩ := runOn_bind_ok hrun
  obtain ⟨_, s₂, hattribute, hrun⟩ := runOn_bind_ok hrun
  cases hrun
  obtain ⟨hs₁, hf₁, hfetched⟩ := h s _ s₁ hs hu hfirst
  have hcalm := calm_attributeFields hattribute
  exact ⟨hcalm.moored hs₁, hf₁.trans hcalm.furthers, hfetched.calm hcalm⟩

/-- A fragment that is not being generated is generated when it is asked for first; one that is being generated is not there,
so asking for it fails. -/
theorem moors_generateFragment (hc : c.toSources.Named) (building : List String) (name : String) :
    Moors c building (generateFragment c building name) fun _ => Fetched name := by
  induction building, name using generateFragment.induct c with
  | case1 building name hf =>
    rw [generateFragment.eq_def]
    split
    · exact moors_failHere _
    · rename_i hf'
      cases hf.symm.trans hf'
  | case2 building name f hf ih =>
    rw [generateFragment.eq_def]
    split
    · exact moors_failHere _
    · rename_i f' hf'
      cases hf.symm.trans hf'
      refine moors_attributing ?_
      split
      · rename_i hb
        intro s artifactName s' hs hu hrun
        unfold fragmentInProgress at hrun
        obtain ⟨_, _, hread, hrun⟩ := runOn_bind_ok hrun
        cases hread
        have hnone : Assoc.get? (State.storePart.get s) (ArtifactKind.fragment, name) = none := hu name hb
        simp only [hnone] at hrun
        cases hrun
      · rename_i hb
        have hfetches := fetches_generating fun other => moors_discard (ih hb other)
        refine moors_fragment hb (moors_marking mutePart_fragmentMarks.toSilentPart name ?_ fun _ _ _ hcalm h => h.calm hcalm)
        exact moors_buildFragment hc hf List.mem_cons_self hfetches

/-! ## Operations and builds -/

section Builds

variable (hc : c.toSources.Named)

include hc

theorem fetches_generator : Fetches c [] (generator c) :=
  fetches_generating fun name => moors_discard (moors_generateFragment hc [] name)

theorem moors_operationHost : (host c (useFragment c (generator c))).Moors c [] :=
  moors_host (moors_useFragment hc (fetches_generator hc))

theorem moors_buildOperation (j : Job) :
    Moors c [] (buildOperation c j) fun draft s => Finalized c s (operationNode j.name) draft := by
  refine moors_bind (moors_modify mutePart_counters.toSilentPart _) fun _ => ?_
  refine moors_bind (moors_codes (moors_operationHost hc) (codes_ensureHelpers (c := c.toSources))) fun _ => ?_
  intro s draft s' hs hu hrun
  obtain ⟨tree, s₂, hshape, hrun⟩ := runOn_bind_ok hrun
  obtain ⟨selected, s₁, hselect, hfinish⟩ := runOn_bind_ok hshape
  cases hrun
  obtain ⟨hs₁, hf₁, hcites⟩ := moors_perform (moors_operationHost hc) (fun R => operationPlan_cites c.toSources R j.op j.root)
    s selected s₁ hs hu hselect
  obtain ⟨hcalm, htree⟩ := calm_finish (fetches_generator hc) hs₁ hcites hfinish
  exact ⟨hcalm.moored hs₁, hf₁.trans hcalm.furthers, .operation hselect hfinish htree⟩

theorem moors_buildVariables (j : Job) : Moors c [] (buildVariables c j) fun _ _ => True :=
  moors_codes (moors_operationHost hc) (codes_variablesPlan (c := c.toSources) j)

theorem moors_generateJob (j : Job) : Moors c [] (generateJob c j) fun _ _ => True := by
  have hresponse : Moors c [] (artifact .operation j.name none (buildOperation c j)) fun _ _ => True :=
    moors_artifact nofun (moors_buildOperation hc j)
  have hvariables : Moors c [] (artifact .operationVariables j.name none (buildVariables c j)) fun _ _ => True :=
    moors_artifact nofun (moors_mono (moors_buildVariables hc j) fun _ _ _ => .other nofun nofun)
  have hscope := moors_inScope none (fun _ keys => collected c.toConfig j keys) (moors_bind hresponse fun _ => hvariables)
  simp only [bind_assoc] at hscope
  exact hscope

/-- All that a build does moors. -/
theorem moors_generateAll (skipUnused : Bool) (documents : Assoc String Document) (operations : Assoc String CollectedOperation) :
    Moors c [] (Workspace.generateAll c skipUnused documents operations) fun _ _ => True := by
  have hrules : BuildRules c fun act => Moors c [] act fun _ _ => True :=
    { pure a := moors_pure a fun _ => trivial
      fail e := moors_fail e
      bind := moors_bind
      read p := moors_read p
      modify hp f := moors_modify hp.toSilentPart f
      skipped _ _ := moors_modify silentPart_journal _
      inScope given _ f h := moors_inScope given f h
      fragment name := moors_mono ((fetches_generator hc).moors name) fun _ _ _ => trivial
      operation := fun {j} _ => moors_generateJob hc j }
  exact hrules.generateAll skipUnused documents operations

end Builds

end ResponseTypes.Compile
