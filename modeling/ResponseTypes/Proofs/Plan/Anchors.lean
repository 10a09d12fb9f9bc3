import ResponseTypes.Proofs.Exact.Omitting
import ResponseTypes.Proofs.Plan.Citing
import ResponseTypes.Proofs.Plan.Proceeding

/-!
# Anchored references

A reference is `Anchored` by keys if its fragment is there under the name that it gives, and the keys of the fragment's
artifact are among them.  In a `Moored` state all shapes and fields that are kept have their references anchored by the keys
they are kept with, so that what refers to a fragment is discarded with it.

`Furthers` : what was made stays, and what was made meanwhile is `Finalized`.  `Calm` : nothing was made, and the fields of
fragments are the same.
-/

namespace ResponseTypes

set_option autoImplicit false

namespace Tracker

variable {t t' : Tracker} {k : String} {keys : List String}

/-- All open scopes have recorded the key. -/
def Holds (t : Tracker) (k : String) : Prop :=
  ∀ scope ∈ t.scopes, k ∈ scope.keys

/-- What is held stays held, since scopes gain keys only. -/
theorem Holds.mono {inner outer : String → Prop} (h : t.Holds k) (hb : t.Bubbles inner outer t') : t'.Holds k := by
  have hrest : ∀ l m, List.Forall₂ (Scope.Gains outer) l m → (∀ s ∈ l, k ∈ s.keys) → ∀ s ∈ m, k ∈ s.keys := by
    intro l m hlm hl
    induction hlm with
    | nil => exact hl
    | cons hab _ ih =>
      obtain ⟨ha, hl⟩ := List.forall_mem_cons.1 hl
      exact List.forall_mem_cons.2 ⟨(hab.keys k).2 (Or.inl ha), ih hl⟩
  have hgains := hb.scopes
  unfold Holds at h ⊢
  generalize t.scopes = l at h hgains
  generalize t'.scopes = m at hgains ⊢
  cases hgains with
  | none => exact h
  | some hab hlm =>
    obtain ⟨ha, hl⟩ := List.forall_mem_cons.1 h
    exact List.forall_mem_cons.2 ⟨(hab.keys k).2 (Or.inl ha), hrest _ _ hlm hl⟩

theorem holds_merge {file : Option String} (h : t.enabled = true) (hmerge : t.merge keys file = .ok t') (hk : k ∈ keys) :
    t'.Holds k := by
  rw [merge_ok hmerge]
  refine List.forall_mem_map.2 fun scope _ => Scope.mem_recordAll.2 (Or.inr ?_)
  exact mem_mergedKeys.2 ⟨Or.inl hk, records_of_enabled h k⟩

theorem enabled_finish (hfinish : t.finish = .ok (keys, t')) : t'.enabled = t.enabled := by
  unfold finish at hfinish
  split at hfinish
  · cases hfinish
  · dsimp only at hfinish
    split at hfinish <;> cases hfinish <;> rfl

/-- The keys of a scope that is closed are held by those around it. -/
theorem holds_finish (h : t.enabled = true) (hfinish : t.finish = .ok (keys, t')) (hk : k ∈ keys) : t'.Holds k := by
  obtain ⟨_, _, -, -, -, -, houter⟩ := finish_ok h hfinish
  intro scope hscope
  obtain ⟨_, -, hkeys⟩ := houter scope hscope
  exact (hkeys k).2 (Or.inr hk)

theorem Holds.closed (hk : t.Holds k) (h : t.enabled = true) (hfinish : t.finish = .ok (keys, t')) : k ∈ keys := by
  obtain ⟨scope, _, hscopes, hkeys, -⟩ := finish_ok h hfinish
  exact (hkeys k).2 (Or.inl (hk scope (hscopes ▸ List.mem_cons_self)))

end Tracker

namespace Compile

open Shape (FieldsCite)

/-- The fields that are kept of a fragment. -/
def State.fieldsOf (s : State) (name : String) : Option Fields :=
  (Assoc.get? s.fieldMaps name).map (·.fields)

theorem fieldsOf_withFields (f : FragmentDef) (fields : Fields) (s : State) (name : String) :
    (withFields f fields s).fieldsOf name = if f.fragment.name = name then some fields else s.fieldsOf name := by
  unfold State.fieldsOf withFields withFieldMaps
  rw [Assoc.get?_insert]
  split <;> rfl

/-- The fields of fragments that were generated are those they had. -/
theorem fieldsOf_withFields_of_made {f : FragmentDef} {s : State}
    (hnone : Assoc.get? s.store (fragmentNode f.fragment.name) = none) (fields : Fields) {name : String} {a : Artifact ArtifactKind} (ha : Assoc.get? s.store (fragmentNode name) = some a) :
    (withFields f fields s).fieldsOf name = s.fieldsOf name := by
  rw [fieldsOf_withFields, if_neg]
  rintro rfl
  cases hnone.symm.trans ha

/-! ## References -/

/-- The fragment was generated under the name that the reference gives, and the keys of its artifact are in `K` if
dependencies are tracked.  Nothing is omitted yet. -/
structure Anchored (c : Config) (s : State) (K : String → Prop) (r : FragmentRef) : Prop where
  whole : r.omitted = []
  named : r.artifact = c.naming.fragment r.fragment
  made : ∃ a, Assoc.get? s.store (fragmentNode r.fragment) = some a ∧
    (s.tracker.enabled = true → ∀ k ∈ a.origin.keys, K k)

/-- The reference is anchored by what all open scopes have recorded. -/
abbrev Held (c : Config) (s : State) (r : FragmentRef) : Prop :=
  Anchored c s s.tracker.Holds r

/-- The reference names a fragment that was generated, and omits some of its fields, each once, but not all. -/
structure Grounded (c : Config) (s : State) (r : FragmentRef) : Prop where
  named : r.artifact = c.naming.fragment r.fragment
  made : ∃ a, Assoc.get? s.store (fragmentNode r.fragment) = some a ∧ a.name = r.artifact
  omits : r.OmitsFrom ((s.fieldsOf r.fragment).getD [])

/-- The fragments of the first state are in the second, with their fields. -/
structure Enlarges (s s' : State) : Prop where
  made : ∀ name a, Assoc.get? s.store (fragmentNode name) = some a → Assoc.get? s'.store (fragmentNode name) = some a
  fields : ∀ name a, Assoc.get? s.store (fragmentNode name) = some a → s'.fieldsOf name = s.fieldsOf name

section References

variable {c : Config} {s s' : State} {K K' : String → Prop} {r : FragmentRef}

theorem Anchored.mono (h : Anchored c s K r) (hs : Enlarges s s') (henabled : s'.tracker.enabled = s.tracker.enabled)
    (hK : s.tracker.enabled = true → ∀ k, K k → K' k) : Anchored c s' K' r := by
  obtain ⟨a, ha, hkeys⟩ := h.made
  refine ⟨h.whole, h.named, a, hs.made _ a ha, fun he k hk => ?_⟩
  rw [henabled] at he
  exact hK he k (hkeys he k hk)

theorem Grounded.mono (h : Grounded c s r) (hs : Enlarges s s') : Grounded c s' r := by
  obtain ⟨a, ha, hname⟩ := h.made
  exact ⟨h.named, ⟨a, hs.made _ a ha, hname⟩, by rw [hs.fields _ a ha]; exact h.omits⟩

end References

/-! ## What is made -/

/-- Generating the fragments that a fragment spreads, while some are being generated. -/
abbrev generating (c : Setup) (building : List String) : Generator :=
  fun name => discard (generateFragment c building name)

/-- What was generated for a node: for a fragment or an operation it is written from a shape that was finished, from what was
selected, and is composed. -/
inductive Finalized (c : Setup) (s : State) : Node → Draft → Prop
  | fragment {name : String} {f : FragmentDef} {building : List String} {selected tree : Shape} {s₀ s₁ s₂ s₃ : State} :
    Assoc.get? c.fragments name = some f →
    ((fragmentPlan c.toConfig f).perform c.cached (host c (useFragment c (generating c building)))).runOn s₀ =
      (.ok selected, s₁) →
    (finish (generating c building) selected).runOn s₂ = (.ok tree, s₃) → tree.Formed (composed (Grounded c.toConfig s)) →
    Finalized c s (fragmentNode name) (fragmentDraft c.toConfig f tree)
  | operation {j : Job} {selected tree : Shape} {s₀ s₁ s₂ : State} :
    ((operationPlan c.toSources j.op j.root).perform c.cached (host c (useFragment c (generator c)))).runOn s₀ =
      (.ok selected, s₁) →
    (finish (generator c) selected).runOn s₁ = (.ok tree, s₂) → tree.Formed (composed (Grounded c.toConfig s)) →
    Finalized c s (operationNode j.name) (operationDraft c.toConfig j tree)
  | other {node : Node} {draft : Draft} : node.1 ≠ .fragment → node.1 ≠ .operation → Finalized c s node draft

variable {c : Setup} {building : List String} {s s' s'' : State} {node : Node} {α β : Type}

theorem Finalized.mono {draft : Draft} (h : Finalized c s node draft) (hs : Enlarges s s') : Finalized c s' node draft := by
  cases h with
  | fragment hf hselect hfinish htree => exact .fragment hf hselect hfinish (composed_mono htree fun r hr => hr.mono hs)
  | operation hselect hfinish htree => exact .operation hselect hfinish (composed_mono htree fun r hr => hr.mono hs)
  | other hfragment hoperation => exact .other hfragment hoperation

/-! ## Moored states -/

/-- What is kept stands once.  Fragments are generated under their names, their fields are their own, and all that is kept
has its references anchored by the keys it is kept with. -/
structure Moored (c : Config) (s : State) : Prop where
  artifacts : (Assoc.keys s.store).Nodup
  maps : (Assoc.keys s.fieldMaps).Nodup
  names : ∀ name a, Assoc.get? s.store (fragmentNode name) = some a → a.name = c.naming.fragment name
  own : ∀ name fields, s.fieldsOf name = some fields → Own fields ∧ (Assoc.keys fields).Nodup
  fields : ∀ name a fields, Assoc.get? s.store (fragmentNode name) = some a → s.fieldsOf name = some fields →
    FieldsCite (Anchored c s (· ∈ a.origin.keys)) fields
  shapes : ∀ e ∈ s.shapes.entries, e.2.1.Cites (Anchored c s (· ∈ e.2.2.keys))

namespace Moored

variable {config : Config} {K : String → Prop} {r : FragmentRef}

theorem congr (h : Moored config s) (henabled : s'.tracker.enabled = s.tracker.enabled) (hstore : s'.store = s.store)
    (hshapes : s'.shapes.entries = s.shapes.entries) (hmaps : (Assoc.keys s'.fieldMaps).Nodup)
    (hfields : ∀ name, s'.fieldsOf name = s.fieldsOf name) : Moored config s' := by
  have hanchored : ∀ {K r}, Anchored config s K r → Anchored config s' K r := fun ha =>
    ha.mono ⟨fun _ _ => hstore ▸ id, fun name _ _ => hfields name⟩ henabled fun _ _ => id
  have hown := fun name fields hname => h.own name fields (hfields name ▸ hname)
  refine ⟨hstore ▸ h.artifacts, hmaps, hstore ▸ h.names, hown, fun name a fields ha hname => ?_, fun e he => ?_⟩
  · exact (h.fields name a fields (hstore ▸ ha) (hfields name ▸ hname)).mono fun r => hanchored
  · exact (h.shapes e (hshapes ▸ he)).mono fun r => hanchored

theorem grounded (h : Moored config s) (hr : Anchored config s K r) : Grounded config s r := by
  obtain ⟨a, ha, -⟩ := hr.made
  exact ⟨hr.named, ⟨a, ha, (h.names _ a ha).trans hr.named.symm⟩, FragmentRef.omitsFrom_of_nil hr.whole _⟩

/-- The fields of fragments that are referred to refer to fragments whose keys are among those of the first. -/
theorem flattened (h : Moored config s) : AllFlattened (Held config s) s.fieldsOf := by
  intro r fields hr hfields
  obtain ⟨a, ha, hkeys⟩ := hr.made
  obtain ⟨hown, hdistinct⟩ := h.own _ fields hfields
  refine ⟨(h.fields _ a fields ha hfields).mono fun r hr => ?_, hown, hdistinct⟩
  exact hr.mono ⟨fun _ _ => id, fun _ _ _ => rfl⟩ rfl hkeys

theorem composable (h : Moored config s) : Composable (Grounded config s) s.fieldsOf where
  flattened r fields hr hfields := by
    obtain ⟨a, ha, -⟩ := hr.made
    obtain ⟨hown, hdistinct⟩ := h.own _ fields hfields
    exact ⟨(h.fields _ a fields ha hfields).mono fun r => h.grounded, hown, hdistinct⟩
  omits r fields omitted hr hfields homits := by
    refine ⟨hr.named, hr.made, ?_⟩
    change FragmentRef.OmitsFrom _ ((s.fieldsOf r.fragment).getD [])
    rw [hfields]
    exact homits

/-- An artifact is stored.  That of a fragment has its name, and the references in the fragment's fields are anchored by its
keys. -/
theorem stored (h : Moored config s) {draft : Draft} {o : Origin} {t : Tracker} (ht : t.enabled = s.tracker.enabled)
    (hfragment : ∀ name, node = fragmentNode name → Assoc.get? s.store node = none ∧
      draft.name = config.naming.fragment name ∧
        ∀ fields, s.fieldsOf name = some fields → FieldsCite (Anchored config s (· ∈ o.keys)) fields) :
    Moored config (stored node draft o t s) := by
  have hother : ∀ name a, Assoc.get? s.store (fragmentNode name) = some a →
      Assoc.get? (Compile.stored node draft o t s).store (fragmentNode name) = some a := by
    intro name a ha
    refine (Assoc.get?_insert_of_ne _ _ ?_).trans ha
    rintro rfl
    cases (hfragment name rfl).1.symm.trans ha
  have hanchored : ∀ {K r}, Anchored config s K r → Anchored config (Compile.stored node draft o t s) K r := fun ha =>
    ha.mono ⟨hother, fun _ _ _ => rfl⟩ ht fun _ _ => id
  refine ⟨Assoc.nodup_keys_insert h.artifacts _ _, h.maps, fun name a ha => ?_, h.own, fun name a fields ha hfields => ?_,
    fun e he => (h.shapes e he).mono fun r => hanchored⟩
  · rcases stored_cases ha with ⟨rfl, hdraft, -⟩ | ha
    · rw [hdraft]
      exact (hfragment name rfl).2.1
    · exact h.names name a ha
  · rcases stored_cases ha with ⟨rfl, -, horigin⟩ | ha
    · rw [horigin]
      exact ((hfragment name rfl).2.2 fields hfields).mono fun r => hanchored
    · exact (h.fields name a fields ha hfields).mono fun r => hanchored

/-- Fields are kept for a fragment that was not generated yet. -/
theorem keep (h : Moored config s) {f : FragmentDef} (hnone : Assoc.get? s.store (fragmentNode f.fragment.name) = none)
    {fields : Fields} (hown : Own fields) (hdistinct : (Assoc.keys fields).Nodup) : Moored config (withFields f fields s) := by
  have hother : ∀ name a, Assoc.get? s.store (fragmentNode name) = some a →
      (withFields f fields s).fieldsOf name = s.fieldsOf name := fun _ _ => fieldsOf_withFields_of_made hnone fields
  have hanchored : ∀ {K r}, Anchored config s K r → Anchored config (withFields f fields s) K r := fun ha =>
    ha.mono ⟨fun _ _ => id, hother⟩ rfl fun _ _ => id
  refine ⟨h.artifacts, Assoc.nodup_keys_insert h.maps _ _, h.names, fun name fields' hname => ?_,
    fun name a fields' ha hname => ?_, fun e he => (h.shapes e he).mono fun r => hanchored⟩
  · rw [fieldsOf_withFields] at hname
    split at hname
    · cases hname
      exact ⟨hown, hdistinct⟩
    · exact h.own name fields' hname
  · exact (h.fields name a fields' ha (hother name a ha ▸ hname)).mono fun r => hanchored

end Moored

/-! ## Furthering -/

/-- No fragment in `building` was generated. -/
def Unmade (building : List String) (s : State) : Prop :=
  ∀ name ∈ building, Assoc.get? s.store (fragmentNode name) = none

/-- Keys were recorded and artifacts made, but none of the fragments in `building`.  What was made before stays, with the
fields of fragments, and what was made since is as it should be. -/
structure Furthers (c : Setup) (building : List String) (s s' : State) : Prop where
  bubbles : ∃ inner outer, s.tracker.Bubbles inner outer s'.tracker
  stored : ∀ node a, Assoc.get? s.store node = some a → Assoc.get? s'.store node = some a
  fields : ∀ name a, Assoc.get? s.store (fragmentNode name) = some a → s'.fieldsOf name = s.fieldsOf name
  unmade : Unmade building s → Unmade building s'
  kept : ∀ name a, Assoc.get? s.store (fragmentNode name) = none → Assoc.get? s'.store (fragmentNode name) = some a →
    ∃ fields, s'.fieldsOf name = some fields
  finalized : ∀ node a, Assoc.get? s.store node = none → Assoc.get? s'.store node = some a → Finalized c s' node a.toDraft

namespace Furthers

theorem enlarges (h : Furthers c building s s') : Enlarges s s' :=
  ⟨fun name => h.stored (fragmentNode name), h.fields⟩

theorem enabled (h : Furthers c building s s') : s'.tracker.enabled = s.tracker.enabled := by
  obtain ⟨_, _, hb⟩ := h.bubbles
  exact hb.enabled

/-- What was held is held. -/
theorem held (h : Furthers c building s s') {r : FragmentRef} (hr : Held c.toConfig s r) : Held c.toConfig s' r := by
  obtain ⟨_, _, hb⟩ := h.bubbles
  exact hr.mono h.enlarges h.enabled fun _ _ hk => hk.mono hb

theorem trans (h : Furthers c building s s') (h' : Furthers c building s' s'') : Furthers c building s s'' where
  bubbles := by
    obtain ⟨_, _, hb⟩ := h.bubbles
    obtain ⟨_, _, hb'⟩ := h'.bubbles
    exact ⟨_, _, hb.trans hb'⟩
  stored node a ha := h'.stored node a (h.stored node a ha)
  fields name a ha := (h'.fields name a (h.stored _ a ha)).trans (h.fields name a ha)
  unmade hs := h'.unmade (h.unmade hs)
  kept name a hnone ha := by
    cases hget : Assoc.get? s'.store (fragmentNode name) with
    | none => exact h'.kept name a hget ha
    | some b => exact h'.fields name b hget ▸ h.kept name b hnone hget
  finalized node a hnone ha := by
    cases hget : Assoc.get? s'.store node with
    | none => exact h'.finalized node a hget ha
    | some b =>
      cases (h'.stored node b hget).symm.trans ha
      exact (h.finalized node a hnone hget).mono h'.enlarges

/-- Where no artifact is made and no fragment loses its fields. -/
theorem of_store {inner outer : String → Prop} (hb : s.tracker.Bubbles inner outer s'.tracker) (hstore : s'.store = s.store)
    (hfields : ∀ name a, Assoc.get? s.store (fragmentNode name) = some a → s'.fieldsOf name = s.fieldsOf name) :
    Furthers c building s s' where
  bubbles := ⟨_, _, hb⟩
  stored _ _ ha := hstore ▸ ha
  fields := hfields
  unmade hs name hname := hstore ▸ hs name hname
  kept name a hnone ha := by
    rw [hstore] at ha
    cases hnone.symm.trans ha
  finalized node a hnone ha := by
    rw [hstore] at ha
    cases hnone.symm.trans ha

/-- Fields are kept for a fragment that was not generated yet. -/
theorem keep {f : FragmentDef} (hnone : Assoc.get? s.store (fragmentNode f.fragment.name) = none) (fields : Fields) :
    Furthers c building s (withFields f fields s) :=
  .of_store (.refl _) rfl fun _ _ => fieldsOf_withFields_of_made hnone fields

/-- What is done in a scope of its own furthers. -/
theorem close {given : Option String} {keys : List String} (h : Furthers c building (opened given s) s')
    (hfinish : (Tracking.finish : Step (List String)).runOn s' = (.ok keys, s'')) : Furthers c building s s'' := by
  obtain ⟨t, hclosed, rfl⟩ := runOn_tracker_ok hfinish
  obtain ⟨inner, outer, hbubbles⟩ := h.bubbles
  exact ⟨⟨_, _, (hbubbles.close hclosed).2⟩, h.stored, h.fields, h.unmade, h.kept,
    fun node a hnone ha => (h.finalized node a hnone ha).mono ⟨fun _ _ => id, fun _ _ _ => rfl⟩⟩

/-- An artifact is built in a scope of its own and stored. -/
theorem store {given : Option String} {building' : List String} {draft : Draft} {o : Origin} {t t' : Tracker} {keys : List String}
    (h : Furthers c building' (opened given s) s') (hnone : Assoc.get? s.store node = none)
    (hadd : s'.tracker.add ⟨KindName.name node.1, draft.name⟩ = .ok t) (hfinish : t.finish = .ok (keys, t'))
    (hbuilding : Unmade building s → Unmade building s' ∧ ∀ name ∈ building, node ≠ fragmentNode name)
    (hfragment : ∀ name, node = fragmentNode name →
      Assoc.get? s'.store node = none ∧ ∃ fields, s'.fieldsOf name = some fields)
    (hfinal : Finalized c s' node draft) :
    Furthers c building s (Compile.stored node draft o t' s') := by
  have hlarger : Enlarges s' (Compile.stored node draft o t' s') := by
    refine ⟨fun name a ha => (Assoc.get?_insert_of_ne _ _ ?_).trans ha, fun _ _ _ => rfl⟩
    rintro rfl
    cases (hfragment name rfl).1.symm.trans ha
  refine ⟨?_, fun node' a ha => ?_, h.fields, fun hs name hname => ?_, fun name a hnone' ha => ?_, fun node' a hnone' ha => ?_⟩
  · obtain ⟨inner, outer, hbubbles⟩ := h.bubbles
    exact ⟨_, _, ((hbubbles.trans (Tracker.bubbles_add hadd)).close hfinish).2⟩
  · refine (Assoc.get?_insert_of_ne _ _ ?_).trans (h.stored node' a ha)
    rintro rfl
    cases hnone.symm.trans ha
  · obtain ⟨hunmade, hne⟩ := hbuilding hs
    exact (Assoc.get?_insert_of_ne _ _ (hne name hname)).trans (hunmade name hname)
  · rcases stored_cases ha with ⟨hnode, -⟩ | ha
    · exact (hfragment name hnode.symm).2
    · exact h.kept name a hnone' ha
  · rcases stored_cases ha with ⟨rfl, hdraft, -⟩ | ha
    · rw [hdraft]
      exact hfinal.mono hlarger
    · exact (h.finalized node' a hnone' ha).mono hlarger

end Furthers

/-! ## Calm steps -/

/-- Nothing changed but what was recorded, and the keys that the fields of fragments depend on. -/
structure Calm (s s' : State) : Prop where
  bubbles : ∃ inner outer, s.tracker.Bubbles inner outer s'.tracker
  store : s'.store = s.store
  shapes : s'.shapes.entries = s.shapes.entries
  maps : (Assoc.keys s.fieldMaps).Nodup → (Assoc.keys s'.fieldMaps).Nodup
  fields : ∀ name, s'.fieldsOf name = s.fieldsOf name

namespace Calm

theorem of_tracker {inner outer : String → Prop} (hb : s.tracker.Bubbles inner outer s'.tracker) (hstore : s'.store = s.store)
    (hshapes : s'.shapes.entries = s.shapes.entries) (hmaps : s'.fieldMaps = s.fieldMaps) : Calm s s' :=
  ⟨⟨_, _, hb⟩, hstore, hshapes, fun h => hmaps ▸ h, fun name => by rw [State.fieldsOf, hmaps, State.fieldsOf]⟩

theorem refl (s : State) : Calm s s :=
  .of_tracker (.refl _) rfl rfl rfl

theorem trans (h : Calm s s') (h' : Calm s' s'') : Calm s s'' := by
  obtain ⟨_, _, hb⟩ := h.bubbles
  obtain ⟨_, _, hb'⟩ := h'.bubbles
  exact ⟨⟨_, _, hb.trans hb'⟩, h'.store.trans h.store, h'.shapes.trans h.shapes, fun hs => h'.maps (h.maps hs),
    fun name => (h'.fields name).trans (h.fields name)⟩

theorem enlarges (h : Calm s s') : Enlarges s s' :=
  ⟨fun _ _ ha => h.store ▸ ha, fun name _ _ => h.fields name⟩

theorem furthers (h : Calm s s') : Furthers c building s s' := by
  obtain ⟨_, _, hb⟩ := h.bubbles
  exact .of_store hb h.store fun name _ _ => h.fields name

theorem moored {config : Config} (h : Calm s s') (hs : Moored config s) : Moored config s' := by
  obtain ⟨_, _, hb⟩ := h.bubbles
  exact hs.congr hb.enabled h.store h.shapes (h.maps hs.maps) h.fields

/-- A part of the state that is not about fragments. -/
theorem of_silentPart {p : Part State α} (hp : SilentPart p) (a : α) (s : State) : Calm s (p.set a s) := by
  have hb : s.tracker.Bubbles (fun _ => False) (fun _ => False) (p.set a s).tracker := by
    rw [hp.tracker]
    exact .refl _
  exact .of_tracker hb (hp.store a s) (congrArg Memo.entries (hp.shapes a s)) (hp.fieldMaps a s)

end Calm

end Compile

end ResponseTypes
