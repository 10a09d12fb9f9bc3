import ResponseTypes.Proofs.Plan.Answering
import ResponseTypes.Proofs.Plan.Bubbling
import ResponseTypes.Proofs.Plan.Sealing

/-!
# Proceeding

A step that succeeds records keys and keeps all artifacts, and fragments that are not being generated keep their fields
(`Proceeds`).  All that a build does proceeds in that way (`rules_proceeding`).  An artifact that is asked for records what its
keys bring when they are merged, whether it is there or is made (`gains_artifact`).
-/

namespace ResponseTypes.Compile

set_option autoImplicit false

/-- A fragment was generated, and its fields have the keys of its type. -/
def Owned (s : State) (name : String) : Prop :=
  ∃ a, Assoc.get? s.store (fragmentNode name) = some a ∧
    ∀ m, Assoc.get? s.fieldMaps name = some m → m.origin.keys = [] → a.origin.keys = []

/-- Keys were recorded, artifacts are kept, and so are the fields of fragments that were generated and are not being
generated again. -/
structure Proceeds (stack : List Node) (s s' : State) : Prop where
  bubbles : ∃ inner outer, s.tracker.Bubbles inner outer s'.tracker
  stored : ∀ node a, Assoc.get? s.store node = some a → Assoc.get? s'.store node = some a
  owned : ∀ name, fragmentNode name ∉ stack → Owned s name → Owned s' name

variable {stack : List Node} {s s' s'' : State} {α β : Type}

namespace Proceeds

theorem refl (s : State) : Proceeds stack s s :=
  ⟨⟨_, _, .refl _⟩, fun _ _ => id, fun _ _ => id⟩

theorem trans (h : Proceeds stack s s') (h' : Proceeds stack s' s'') : Proceeds stack s s'' := by
  obtain ⟨_, _, hb⟩ := h.bubbles
  obtain ⟨_, _, hb'⟩ := h'.bubbles
  exact ⟨⟨_, _, hb.trans hb'⟩, fun node a ha => h'.stored node a (h.stored node a ha),
    fun name hname ho => h'.owned name hname (h.owned name hname ho)⟩

/-- Where nothing but the tracker matters. -/
theorem of_tracker {inner outer : String → Prop} (h : s.tracker.Bubbles inner outer s'.tracker) (hstore : s'.store = s.store)
    (hmaps : s'.fieldMaps = s.fieldMaps) : Proceeds stack s s' :=
  ⟨⟨_, _, h⟩, fun _ _ ha => hstore ▸ ha, fun _ _ ⟨a, ha, hm⟩ => ⟨a, hstore ▸ ha, hmaps ▸ hm⟩⟩

/-- Where nothing matters. -/
theorem of_silent (htracker : s'.tracker = s.tracker) (hstore : s'.store = s.store) (hmaps : s'.fieldMaps = s.fieldMaps) :
    Proceeds stack s s' := by
  have hb : s.tracker.Bubbles (fun _ => False) (fun _ => False) s'.tracker := by
    rw [htracker]
    exact .refl _
  exact .of_tracker hb hstore hmaps

end Proceeds

/-- A step proceeds if it succeeds. -/
def Proceeding (stack : List Node) (act : Step α) : Prop :=
  ∀ s a s', act.runOn s = (.ok a, s') → Proceeds stack s s'

theorem proceeding_pure (a : α) : Proceeding stack (pure a : Step α) := by
  intro s _ _ h
  cases h
  exact .refl s

theorem proceeding_fail (e : Failure) : Proceeding stack (Action.fail e : Step α) := fun _ _ _ h => nomatch h

theorem proceeding_bind {act : Step α} {f : α → Step β} (h : Proceeding stack act) (hf : ∀ a, Proceeding stack (f a)) :
    Proceeding stack (act >>= f) := by
  intro s b s'' hrun
  obtain ⟨a, s', hact, hrun⟩ := runOn_bind_ok hrun
  exact (h s a s' hact).trans (hf a s' b s'' hrun)

theorem proceeding_read (p : Part State α) : Proceeding stack p.read := by
  intro s _ _ h
  cases h
  exact .refl s

theorem sequential_proceeding : Sequential fun act => Proceeding stack act where
  pure := proceeding_pure
  fail := proceeding_fail
  read := proceeding_read
  bind := proceeding_bind

theorem proceeding_modify {p : Part State α} (hp : SilentPart p) (f : α → α) : Proceeding stack (p.modify f) := by
  intro s _ _ h
  rw [runOn_modify] at h
  cases h
  exact .of_silent (hp.tracker _ s) (hp.store _ s) (hp.fieldMaps _ s)

theorem proceeding_marking {marks : Part State (List String)} (hmarks : SilentPart marks) (name : String) {act : Step α}
    (h : Proceeding stack act) : Proceeding stack (marking marks name act) :=
  fun s a s' hrun => proceeding_bind (proceeding_modify hmarks (·.insert name))
    (fun _ => proceeding_bind h fun a => proceeding_bind (proceeding_modify hmarks (·.erase name)) fun _ => proceeding_pure a)
    s a s' (runOn_marking_ok hrun)

/-! ## Tracking -/

theorem proceeding_add (d : Dependency) : Proceeding stack (Tracking.add d : Step Unit) := by
  intro s _ _ h
  obtain ⟨t, hadd, rfl⟩ := runOn_add_ok h
  exact .of_tracker (Tracker.bubbles_add hadd) rfl rfl

theorem proceeding_merge (keys : List String) (file : Option String) :
    Proceeding stack (Tracking.merge keys file : Step Unit) := by
  intro s _ _ h
  obtain ⟨t, hmerge, rfl⟩ := runOn_merge_ok h
  exact .of_tracker (Tracker.bubbles_merge hmerge) rfl rfl

/-- What is done in a scope of its own proceeds. -/
theorem Proceeds.close {given : Option String} {keys : List String} (h : Proceeds stack (opened given s) s')
    (hfinish : (Tracking.finish : Step (List String)).runOn s' = (.ok keys, s'')) : Proceeds stack s s'' := by
  obtain ⟨t, hclosed, rfl⟩ := runOn_tracker_ok hfinish
  obtain ⟨inner, outer, hbubbles⟩ := h.bubbles
  exact ⟨⟨_, _, (hbubbles.close hclosed).2⟩, h.stored, h.owned⟩

theorem proceeding_inScope (given : Option String) {act : Step α} (f : α → List String → β) (h : Proceeding stack act) :
    Proceeding stack (do
      Tracking.start given
      let a ← act
      let keys ← Tracking.finish
      return f a keys) := by
  intro s b s' hrun
  obtain ⟨a, s₁, keys, hact, hfinish, -⟩ := runOn_inScope_ok hrun
  exact (h _ a s₁ hact).close hfinish

/-! ## Memos -/

/-- A memo that is a part of states. -/
structure MemoPart {κ : Type} (memo : Part State (Memo κ α)) : Prop where
  tracker : ∀ m s, (memo.set m s).tracker = s.tracker
  store : ∀ m s, (memo.set m s).store = s.store
  fieldMaps : ∀ m s, (memo.set m s).fieldMaps = s.fieldMaps

theorem memoPart_shapes : MemoPart State.shapesPart := ⟨fun _ _ => rfl, fun _ _ => rfl, fun _ _ => rfl⟩

theorem memoPart_inputs : MemoPart State.inputsPart := ⟨fun _ _ => rfl, fun _ _ => rfl, fun _ _ => rfl⟩

theorem MemoPart.modify {κ : Type} {memo : Part State (Memo κ α)} (hmemo : MemoPart memo) (f : Memo κ α → Memo κ α) :
    Proceeding stack (memo.modify f) := by
  intro s _ _ h
  rw [runOn_modify] at h
  cases h
  exact .of_silent (hmemo.tracker _ s) (hmemo.store _ s) (hmemo.fieldMaps _ s)

theorem proceeding_memoized {κ : Type} [DecidableEq κ] {memo : Part State (Memo κ α)} (hmemo : MemoPart memo) (enabled : Bool)
    (key : κ) {compute : Step α} (h : Proceeding stack compute) :
    Proceeding stack (Memo.memoized memo enabled key compute) := by
  unfold Memo.memoized
  split
  · exact h
  · refine proceeding_bind (proceeding_read memo) fun m => ?_
    split
    · refine proceeding_bind (hmemo.modify _) fun _ => ?_
      exact proceeding_bind (proceeding_merge _ _) fun _ => proceeding_pure _
    · refine proceeding_bind (hmemo.modify _) fun _ s b s' hrun => ?_
      obtain ⟨_, s₁, hstart, hrun⟩ := runOn_bind_ok hrun
      obtain ⟨file, s₂, hfile, hrun⟩ := runOn_bind_ok hrun
      obtain ⟨a, s₃, hcompute, hrun⟩ := runOn_bind_ok hrun
      obtain ⟨keys, s₄, hfinish, hrun⟩ := runOn_bind_ok hrun
      obtain ⟨_, s₅, hkeep, hrun⟩ := runOn_bind_ok hrun
      have hs₁ : opened none s = s₁ := congrArg Prod.snd hstart
      have hs₂ : s₁ = s₂ := congrArg Prod.snd hfile
      have hs' : s₅ = s' := congrArg Prod.snd hrun
      subst hs₁ hs₂ hs'
      exact ((h _ a s₃ hcompute).close hfinish).trans (hmemo.modify _ s₄ _ _ hkeep)

/-! ## Artifacts -/

section Artifacts

variable {stack' : List Node} {kind : ArtifactKind} {key name : String} {given : Option String} {build : Step Draft}
  {a : Artifact ArtifactKind}

theorem stored_of_runOn_artifact (hrun : (artifact kind key given build).runOn s = (.ok name, s')) :
    ∃ a, Assoc.get? s'.store (kind, key) = some a := by
  cases hget : Assoc.get? s.store (kind, key) with
  | some a =>
    obtain ⟨t, -, rfl⟩ := runOn_reuse_ok ((runOn_artifact_some hget).symm.trans hrun)
    exact ⟨a, hget⟩
  | none =>
    obtain ⟨draft, s₁, t, keys, t', -, -, -, rfl⟩ := made_of_runOn_artifact hget hrun
    exact ⟨_, Assoc.get?_insert_self _ _ _⟩

/-- An artifact that is asked for is there afterwards, and what is recorded is what merging its keys brings. -/
theorem gains_artifact (h : Proceeding stack' build) (hrun : (artifact kind key given build).runOn s = (.ok name, s')) :
    ∃ a, Assoc.get? s'.store (kind, key) = some a ∧
      s.tracker.Bubbles (· ∈ s.tracker.mergedKeys a.origin.keys (some a.origin.file))
        (· ∈ s.tracker.mergedKeys a.origin.keys (some a.origin.file)) s'.tracker := by
  cases hget : Assoc.get? s.store (kind, key) with
  | some a =>
    obtain ⟨t, hmerge, rfl⟩ := runOn_reuse_ok ((runOn_artifact_some hget).symm.trans hrun)
    exact ⟨a, hget, Tracker.bubbles_merge hmerge⟩
  | none =>
    obtain ⟨draft, s₁, t, keys, t', hbuild, hadd, hfinish, rfl⟩ := made_of_runOn_artifact hget hrun
    obtain ⟨inner, outer, hbubbles⟩ := (h _ draft s₁ hbuild).bubbles
    obtain ⟨hkeys, hclosed⟩ := (hbubbles.trans (Tracker.bubbles_add hadd)).close hfinish
    have hfile : (opened given s).tracker.currentFile = Tracker.fileAfter s.tracker.currentFile given := by
      obtain ⟨_, -, hcurrent, -⟩ := s.tracker.start_eq given
      exact hcurrent
    have hmerged : ∀ k, k ∈ keys ∧ s.tracker.records k = true ↔
        k ∈ s.tracker.mergedKeys keys (some (opened given s).tracker.currentFile) := fun k =>
      (Tracker.mem_mergedKeys_close fun henabled => (hkeys _).2 (Or.inr ⟨henabled, by rw [hfile]⟩)).symm
    exact ⟨_, Assoc.get?_insert_self _ _ _, hclosed.mono hmerged hmerged⟩

/-- Asking for an artifact proceeds if building it does, when it is not there. -/
theorem proceeding_artifact (given : Option String)
    (hstack : ∀ name, fragmentNode name ∈ stack' → fragmentNode name ∈ stack ∨ fragmentNode name = (kind, key))
    (h : Proceeding stack' build) : Proceeding stack (artifact kind key given build) := by
  intro s _ s' hrun
  obtain ⟨_, -, hgains⟩ := gains_artifact h hrun
  cases hget : Assoc.get? s.store (kind, key) with
  | some a =>
    obtain ⟨t, -, rfl⟩ := runOn_reuse_ok ((runOn_artifact_some hget).symm.trans hrun)
    exact .of_tracker hgains rfl rfl
  | none =>
    obtain ⟨draft, s₁, t, keys, t', hbuild, -, -, rfl⟩ := made_of_runOn_artifact hget hrun
    have hproceeds := h _ draft s₁ hbuild
    have hother : ∀ {node : Node} {a : Artifact ArtifactKind}, Assoc.get? s.store node = some a → node ≠ (kind, key) := by
      rintro node a ha rfl
      cases hget.symm.trans ha
    refine ⟨⟨_, _, hgains⟩, fun node a ha => ?_, fun name hname ho => ?_⟩
    · exact (Assoc.get?_insert_of_ne _ _ (hother ha).symm).trans (hproceeds.stored node a ha)
    · have hnode : fragmentNode name ≠ (kind, key) := by
        obtain ⟨a, ha, -⟩ := ho
        exact hother ha
      obtain ⟨a, ha, hm⟩ := hproceeds.owned name (fun hmem => (hstack name hmem).elim hname hnode) ho
      exact ⟨a, (Assoc.get?_insert_of_ne _ _ hnode.symm).trans ha, hm⟩

end Artifacts

/-! ## Fragments -/

theorem proceeding_keepFields {name : String} {f : FragmentDef} (hname : f.fragment.name = name)
    (hstack : fragmentNode name ∈ stack) (fields : Fields) : Proceeding stack (keepFields f fields) := by
  intro s _ s' hrun
  rw [runOn_keepFields] at hrun
  cases hrun
  refine ⟨⟨_, _, .refl _⟩, fun _ _ => id, fun other hother ⟨a, ha, hm⟩ => ⟨a, ha, fun m hget => hm m ?_⟩⟩
  have hne : f.fragment.name ≠ other := by
    rintro rfl
    exact hother (hname ▸ hstack)
  rwa [withFields, withFieldMaps, Assoc.get?_insert_of_ne _ _ hne] at hget

/-- Giving the fields of a fragment their keys changes nothing if they have them. -/
theorem attributeFields_eq (name : String) (s : State) :
    ∃ maps, (attributeFields name).runOn s = (.ok (), { s with fieldMaps := maps }) ∧
      (∀ other, other ≠ name → Assoc.get? maps other = Assoc.get? s.fieldMaps other) ∧
      (Owned s name → maps = s.fieldMaps) ∧
      ∀ a, Assoc.get? s.store (fragmentNode name) = some a → Owned { s with fieldMaps := maps } name := by
  rcases attributeFields_cases name s with ⟨hrun, hkeys⟩ | ⟨m, a, hm, ha, hempty, hrun⟩
  · exact ⟨_, hrun, fun _ _ => rfl, fun _ => rfl, fun a ha => ⟨a, ha, fun m hm hnone => absurd hnone (hkeys m a hm ha)⟩⟩
  · refine ⟨_, hrun, fun other hne => Assoc.get?_insert_of_ne _ _ hne.symm, ?_, fun a' ha' => ⟨a', ha', ?_⟩⟩
    · rintro ⟨a', ha', howned⟩
      cases ha.symm.trans ha'
      exact Assoc.insert_eq_self (hm.trans (by rw [howned m hm hempty, ← hempty]))
    · intro m' hm' hkeys
      cases ha.symm.trans ha'
      cases (Assoc.get?_insert_self _ _ _).symm.trans hm'
      exact hkeys

theorem proceeding_attributeFields (name : String) : Proceeding stack (attributeFields name) := by
  intro s _ s' hrun
  obtain ⟨maps, heq, hother, hsame, -⟩ := attributeFields_eq name s
  rw [heq] at hrun
  cases hrun
  refine ⟨⟨_, _, .refl _⟩, fun _ _ => id, fun other hstack ho => ?_⟩
  by_cases hne : other = name
  · subst hne
    rw [hsame ho]
    exact ho
  · obtain ⟨a, ha, hm⟩ := ho
    exact ⟨a, ha, fun m hget => hm m (hother other hne ▸ hget)⟩

/-! ## Builds -/

theorem answering_proceeding (c : Setup) (stack : List Node) :
    Answering c (fun _ _ => True) fun _ act => Proceeding stack act where
  pure _ a := proceeding_pure a
  failHere _ e := sequential_proceeding.failHere e
  bind := proceeding_bind
  count _ _ := proceeding_modify mutePart_counters.toSilentPart _
  use _ _ := proceeding_add _
  leads _ := trivial
  leadsOn _ _ := trivial
  self _ _ _ := proceeding_add _
  shape key _ h := proceeding_memoized memoPart_shapes c.cached key h
  code type _ h := proceeding_memoized memoPart_inputs c.cached type h
  declared d _ _ h := proceeding_artifact none (fun _ => Or.inl)
    (markingInput_of (fun n => proceeding_marking mutePart_inputMarks.toSilentPart n) d h)

/-- All that a build does proceeds. -/
theorem rules_proceeding {c : Setup} (hc : c.Named) : Rules c fun stack act => Proceeding stack act where
  pure _ a := proceeding_pure a
  fail _ e := proceeding_fail e
  failHere _ e := sequential_proceeding.failHere e
  bind := proceeding_bind
  read _ p := proceeding_read p
  modify _ _ hp f := proceeding_modify hp.toSilentPart f
  skipped _ _ _ := proceeding_modify silentPart_journal _
  keepFields hf hname fields := proceeding_keepFields (hc _ _ hf) hname fields
  attributeFields _ name := proceeding_attributeFields name
  inScope given _ f h := proceeding_inScope given f h
  artifact given _ _ h := proceeding_artifact given (fun _ hmem => (List.mem_cons.1 hmem).symm) h
  marking hmarks name _ h := proceeding_marking hmarks.toSilentPart name h
  again _ name := sequential_proceeding.fragmentInProgress proceeding_merge name
  perform hstack h _ := (answering_proceeding c _).perform hstack h _

end ResponseTypes.Compile
