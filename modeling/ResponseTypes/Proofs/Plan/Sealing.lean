import ResponseTypes.Proofs.Plan.Answering

/-!
# Sealed keys

Keys are `Sealed` if, with the key of an artifact, they hold all keys of an artifact that has it, so that what depends on an
artifact depends on all that the artifact depends on.  Only the key of an input type that refers to itself may stand
`Config.Single` : while the type is made, what refers to it records its name and nothing else.

`Seals` : a step that succeeds leaves what was sealed sealed, scopes open, artifacts in place, and makes none of those that
are being made around it.  So does all that a build does (`rules_seals`), since an input type that is asked for while it is
being made refers to itself.
-/

namespace ResponseTypes

set_option autoImplicit false

open Dependency (fileKey fragmentUseKey)

namespace Tracker

variable {t t' : Tracker} {keys : List String}

/-- What a dependency that is recorded changes. -/
theorem add_ok (h : t.enabled = true) {d : Dependency} (hadd : t.add d = .ok t') :
    ∃ s rest, t.scopes = s :: rest ∧ t' = { t with scopes := s.record d.key :: rest } := by
  unfold add at hadd
  split at hadd
  · cases hadd
  · rename_i s rest hscopes
    rw [if_pos (records_of_enabled h _)] at hadd
    cases hadd
    exact ⟨s, rest, hscopes, rfl⟩

/-- What a merge changes. -/
theorem merge_ok {file : Option String} (hmerge : t.merge keys file = .ok t') :
    t' = { t with scopes := t.scopes.map (·.recordAll (t.mergedKeys keys file)) } := by
  unfold merge at hmerge
  split at hmerge <;> cases hmerge
  rfl

/-- A scope that is opened holds the key of its file at most. -/
theorem start_keys (t : Tracker) (given : Option String) {s : Scope} (hs : s ∈ (t.start given).scopes) :
    s ∈ t.scopes ∨ ∀ k ∈ s.keys, ∃ f, k = fileKey f := by
  unfold start at hs
  split at hs
  · exact (List.mem_cons.1 hs).symm.imp_right fun h => by simp [h]
  · exact (List.mem_cons.1 hs).symm.imp_right fun h => by simp [h]
  · refine (List.mem_cons.1 hs).symm.imp_right fun h k hk => ?_
    rw [h] at hk
    dsimp only at hk
    split at hk
    · exact ⟨_, List.mem_singleton.1 hk⟩
    · cases hk

/-- Closing a scope gives its keys to those around it. -/
theorem finish_ok (h : t.enabled = true) (hfinish : t.finish = .ok (keys, t')) :
    ∃ s rest, t.scopes = s :: rest ∧ (∀ k, k ∈ keys ↔ k ∈ s.keys ∨ k = fileKey s.file) ∧ t'.enabled = true ∧
      t'.scopes.map Scope.file = rest.map Scope.file ∧
      ∀ outer' ∈ t'.scopes, ∃ outer ∈ rest, ∀ k, k ∈ outer'.keys ↔ k ∈ outer.keys ∨ k ∈ keys := by
  unfold finish at hfinish
  split at hfinish
  · cases hfinish
  · rename_i s rest hscopes
    have hkeys : ∀ k, k ∈ t.closingKeys s ↔ k ∈ s.keys ∨ k = fileKey s.file := fun k => by
      rw [mem_closingKeys, and_iff_right h]
    dsimp only at hfinish
    split at hfinish
    · cases hfinish
      exact ⟨s, [], hscopes, hkeys, h, rfl, fun _ h => nomatch h⟩
    · cases hfinish
      refine ⟨s, _, hscopes, hkeys, h, by simp, fun outer' houter' => ?_⟩
      obtain ⟨outer, houter, rfl⟩ := List.mem_map.1 houter'
      refine ⟨outer, houter, fun k => ?_⟩
      rw [Scope.mem_recordAll, List.mem_filter, and_iff_left (records_of_enabled h k)]

end Tracker

namespace Compile

open GraphQL (TypeRef)

/-! ## Sealed keys -/

/-- The key of an input type. -/
def Config.inputKey (c : Config) (name : String) : String :=
  Dependency.key ⟨ArtifactKind.inputType.name, c.naming.input name⟩

/-- A key that may stand without others. -/
inductive Config.Single (c : Config) : String → Prop
  | file (file : String) : Single c (fileKey file)
  | fragmentUse (fragment : String) : Single c (fragmentUseKey fragment)
  | input {name : String} : c.SelfReferring name → Single c (c.inputKey name)

/-- Keys are sealed: with the key of an artifact they hold all keys of an artifact that has it. -/
def Sealed (c : Config) (store : Store ArtifactKind) (keys : List String) : Prop :=
  ∀ k ∈ keys, c.Single k ∨ ∃ e ∈ store, e.2.id = k ∧ ∀ k' ∈ e.2.origin.keys, k' ∈ keys

variable {c : Config} {store store' : Store ArtifactKind} {keys keys' all : List String}

theorem Sealed.mono (h : Sealed c store keys) (hstore : ∀ e ∈ store, e ∈ store') : Sealed c store' keys := by
  intro k hk
  exact (h k hk).imp_right fun ⟨e, he, hid, hkeys⟩ => ⟨e, hstore e he, hid, hkeys⟩

/-- Sealed keys together are sealed. -/
theorem Sealed.join (h : Sealed c store keys) (h' : Sealed c store keys') (hkeys : ∀ k ∈ keys, k ∈ all)
    (hkeys' : ∀ k ∈ keys', k ∈ all) (hall : ∀ k ∈ all, k ∈ keys ∨ k ∈ keys' ∨ c.Single k) : Sealed c store all := by
  intro k hk
  rcases hall k hk with hk | hk | hk
  · exact (h k hk).imp_right fun ⟨e, he, hid, hsub⟩ => ⟨e, he, hid, fun k' hk' => hkeys k' (hsub k' hk')⟩
  · exact (h' k hk).imp_right fun ⟨e, he, hid, hsub⟩ => ⟨e, he, hid, fun k' hk' => hkeys' k' (hsub k' hk')⟩
  · exact Or.inl hk

theorem sealed_nil : Sealed c store [] := fun _ hk => absurd hk List.not_mem_nil

/-- Keys are sealed with keys that may stand alone. -/
theorem Sealed.more (h : Sealed c store keys) (hkeys : ∀ k ∈ keys, k ∈ all) (hall : ∀ k ∈ all, k ∈ keys ∨ c.Single k) :
    Sealed c store all :=
  h.join sealed_nil hkeys (fun _ hk => absurd hk List.not_mem_nil) fun k hk => (hall k hk).imp_right Or.inr

/-- All keys that a state holds are sealed. -/
structure State.Sealed (c : Config) (s : State) : Prop where
  tracking : s.tracker.enabled = true
  store : ∀ e ∈ s.store, fileKey e.2.origin.file ∈ e.2.origin.keys ∧ Compile.Sealed c s.store e.2.origin.keys
  shapes : ∀ e ∈ s.shapes.entries, Compile.Sealed c s.store e.2.2.keys
  inputs : ∀ e ∈ s.inputs.entries, Compile.Sealed c s.store e.2.2.keys
  scopes : ∀ scope ∈ s.tracker.scopes, Compile.Sealed c s.store scope.keys

variable {s s' s'' : State} {stack : List Node}

/-- A state with other scopes is sealed if those are. -/
theorem State.Sealed.withTracker (h : s.Sealed c) {t : Tracker} (ht : t.enabled = true)
    (hscopes : ∀ scope ∈ t.scopes, Compile.Sealed c s.store scope.keys) : ({ s with tracker := t } : State).Sealed c :=
  ⟨ht, h.store, h.shapes, h.inputs, hscopes⟩

/-- The second state is sealed, has the artifacts of the first in the same places, and none for the nodes in `stack` that the
first has not. -/
structure Sealing (c : Config) (stack : List Node) (s s' : State) : Prop where
  result : s'.Sealed c
  files : s'.tracker.scopes.map Scope.file = s.tracker.scopes.map Scope.file
  store : ∀ e ∈ s.store, e ∈ s'.store
  free : ∀ node ∈ stack, Assoc.get? s.store node = none → Assoc.get? s'.store node = none

namespace Sealing

theorem refl (h : s.Sealed c) : Sealing c stack s s :=
  ⟨h, rfl, fun _ he => he, fun _ _ h => h⟩

theorem trans (h : Sealing c stack s s') (h' : Sealing c stack s' s'') : Sealing c stack s s'' where
  result := h'.result
  files := h'.files.trans h.files
  store e he := h'.store e (h.store e he)
  free node hnode hnone := h'.free node hnode (h.free node hnode hnone)

/-- What changes neither artifacts nor files of scopes. -/
theorem of_store (h : s'.Sealed c) (hstore : s'.store = s.store)
    (hfiles : s'.tracker.scopes.map Scope.file = s.tracker.scopes.map Scope.file) : Sealing c stack s s' :=
  ⟨h, hfiles, fun _ he => hstore ▸ he, fun _ _ hnone => hstore ▸ hnone⟩

end Sealing

/-- A step that succeeds leaves a state sealed, and makes nothing in `stack`. -/
def Seals {α : Type} (c : Config) (stack : List Node) (act : Step α) : Prop :=
  ∀ s a s', s.Sealed c → act.runOn s = (.ok a, s') → Sealing c stack s s'

section Steps

variable {α β : Type} {act : Step α}

theorem runOn_bind_ok {f : α → Step β} {b : β} (h : (act >>= f).runOn s = (.ok b, s'')) :
    ∃ a s', act.runOn s = (.ok a, s') ∧ (f a).runOn s' = (.ok b, s'') := by
  rw [runOn_bind] at h
  rcases hrun : act.runOn s with ⟨_ | a, s'⟩ <;> rw [hrun] at h
  · cases h
  · exact ⟨a, s', rfl, h⟩

/-- A step that succeeds while a name is marked. -/
theorem runOn_marking_ok {marks : Part State (List String)} {name : String} {a : α}
    (h : (marking marks name act).runOn s = (.ok a, s')) :
    (do marks.modify (·.insert name)
        let a ← act
        marks.modify (·.erase name)
        return a : Step α).runOn s = (.ok a, s') := by
  rw [runOn_marking] at h
  rw [runOn_bind, runOn_modify]
  dsimp only
  rw [runOn_bind]
  rcases hact : act.runOn (marks.set ((marks.get s).insert name) s) with ⟨_ | b, s₁⟩ <;> rw [hact] at h <;> cases h
  rfl

theorem runOn_tracker_ok {f : Tracker → Except Failure (β × Tracker)} {b : β}
    (h : ((Tracks.tracker : Part State Tracker).step f).runOn s = (.ok b, s')) :
    ∃ t, f s.tracker = .ok (b, t) ∧ s' = { s with tracker := t } := by
  unfold Action.runOn Part.step at h
  cases hf : f (Tracks.tracker.get s) with
  | error e =>
    rw [hf] at h
    cases h
  | ok r =>
    obtain ⟨b', t⟩ := r
    rw [hf] at h
    cases h
    exact ⟨t, rfl, rfl⟩

theorem runOn_add_ok {d : Dependency} {a : Unit} (h : (Tracking.add d : Step Unit).runOn s = (.ok a, s')) :
    ∃ t, s.tracker.add d = .ok t ∧ s' = { s with tracker := t } := by
  obtain ⟨t, hmap, rfl⟩ := runOn_tracker_ok h
  cases hadd : s.tracker.add d <;> rw [hadd] at hmap <;> cases hmap
  exact ⟨t, rfl, rfl⟩

theorem runOn_merge_ok {file : Option String} {a : Unit}
    (h : (Tracking.merge keys file : Step Unit).runOn s = (.ok a, s')) :
    ∃ t, s.tracker.merge keys file = .ok t ∧ s' = { s with tracker := t } := by
  obtain ⟨t, hmap, rfl⟩ := runOn_tracker_ok h
  cases hmerge : s.tracker.merge keys file <;> rw [hmerge] at hmap <;> cases hmap
  exact ⟨t, rfl, rfl⟩

/-- What is done in a scope of its own starts with an open scope, and ends with closing it. -/
theorem runOn_inScope_ok {given : Option String} {f : α → List String → β} {b : β}
    (h : (do
      Tracking.start given
      let a ← act
      let keys ← Tracking.finish
      return f a keys : Step β).runOn s = (.ok b, s')) :
    ∃ a s₁ keys, act.runOn (opened given s) = (.ok a, s₁) ∧
      (Tracking.finish : Step (List String)).runOn s₁ = (.ok keys, s') ∧ b = f a keys := by
  obtain ⟨_, s₁, hstart, h⟩ := runOn_bind_ok h
  obtain ⟨a, s₂, hact, h⟩ := runOn_bind_ok h
  obtain ⟨keys, s₃, hfinish, h⟩ := runOn_bind_ok h
  have hs₁ : opened given s = s₁ := congrArg Prod.snd hstart
  have hs' : s₃ = s' := congrArg Prod.snd h
  have hb : f a keys = b := Except.ok.inj (congrArg Prod.fst h)
  subst hs₁ hs'
  exact ⟨a, s₂, keys, hact, hfinish, hb.symm⟩

theorem seals_pure (a : α) : Seals c stack (pure a : Step α) := by
  intro s a' s' hs h
  cases h
  exact .refl hs

theorem seals_fail (e : Failure) : Seals c stack (Action.fail e : Step α) :=
  fun _ _ _ _ h => nomatch h

theorem seals_bind {f : α → Step β} (h : Seals c stack act) (hf : ∀ a, Seals c stack (f a)) : Seals c stack (act >>= f) := by
  intro s b s'' hs hrun
  obtain ⟨a, s', hact, hrun⟩ := runOn_bind_ok hrun
  have hfirst := h s a s' hs hact
  exact hfirst.trans (hf a s' b s'' hfirst.result hrun)

theorem seals_read (p : Part State α) : Seals c stack p.read := by
  intro s a s' hs h
  cases h
  exact .refl hs

theorem sequential_seals : Sequential fun act => Seals c stack act where
  pure := seals_pure
  fail := seals_fail
  read := seals_read
  bind := seals_bind

/-- A part of the state that is neither about dependencies nor about what was made before may change. -/
theorem seals_modify {p : Part State α} (hp : QuietPart p) (f : α → α) : Seals c stack (p.modify f) := by
  intro s a s' hs h
  rw [runOn_modify] at h
  cases h
  refine .of_store ⟨?_, ?_, ?_, ?_, ?_⟩ (hp.store _ s) (by rw [hp.tracker])
  · rw [hp.tracker]
    exact hs.tracking
  · rw [hp.store]
    exact hs.store
  · rw [hp.shapes, hp.store]
    exact hs.shapes
  · rw [hp.inputs, hp.store]
    exact hs.inputs
  · rw [hp.tracker, hp.store]
    exact hs.scopes

theorem seals_count (thing : String) : Seals c stack (count thing) :=
  seals_modify mutePart_counters.toQuietPart _

/-- Marking does not matter for what is sealed. -/
theorem seals_marking {marks : Part State (List String)} (hmarks : QuietPart marks) (name : String)
    (h : Seals c stack act) : Seals c stack (marking marks name act) :=
  fun s a s' hs hrun => seals_bind (seals_modify hmarks (·.insert name))
    (fun _ => seals_bind h fun a => seals_bind (seals_modify hmarks (·.erase name)) fun _ => seals_pure a) s a s' hs
    (runOn_marking_ok hrun)

/-! ### Tracking -/

/-- Recording a key that may stand alone. -/
theorem seals_add {d : Dependency} (hd : c.Single d.key) : Seals c stack (Tracking.add d : Step Unit) := by
  intro s a s' hs h
  obtain ⟨t, hadd, rfl⟩ := runOn_add_ok h
  obtain ⟨scope, rest, hscopes, rfl⟩ := Tracker.add_ok hs.tracking hadd
  have hall : ∀ r ∈ scope :: rest, Sealed c s.store r.keys := hscopes ▸ hs.scopes
  refine .of_store (hs.withTracker hs.tracking fun r hr => ?_) rfl (by simp [hscopes])
  rcases List.mem_cons.1 hr with rfl | hr
  · refine (hall scope List.mem_cons_self).more (fun k hk => Scope.mem_record.2 (Or.inl hk)) fun k hk => ?_
    exact (Scope.mem_record.1 hk).imp_right fun hk => by rwa [hk]
  · exact hall r (List.mem_cons_of_mem _ hr)

/-- Merging sealed keys. -/
theorem Sealing.of_merge {file : Option String} {a : Unit} (hs : s.Sealed c) (hkeys : Sealed c s.store keys)
    (h : (Tracking.merge keys file : Step Unit).runOn s = (.ok a, s')) : Sealing c stack s s' := by
  obtain ⟨t, hmerge, rfl⟩ := runOn_merge_ok h
  rw [Tracker.merge_ok hmerge]
  refine .of_store (hs.withTracker hs.tracking fun r' hr' => ?_) rfl (by simp)
  obtain ⟨r, hr, rfl⟩ := List.mem_map.1 hr'
  refine (hs.scopes r hr).join hkeys (fun k hk => Scope.mem_recordAll.2 (Or.inl hk))
    (fun k hk => Scope.mem_recordAll.2 (Or.inr (Tracker.mem_mergedKeys.2
      ⟨Or.inl hk, Tracker.records_of_enabled hs.tracking k⟩))) fun k hk => ?_
  refine (Scope.mem_recordAll.1 hk).imp_right fun hk => (Tracker.mem_mergedKeys.1 hk).1.imp_right ?_
  rintro ⟨f, -, -, rfl⟩
  exact .file f

/-- Opening a scope leaves a state sealed. -/
theorem State.Sealed.opened (h : s.Sealed c) (given : Option String) : (opened given s).Sealed c := by
  obtain ⟨_, -, -, -, henabled, -⟩ := s.tracker.start_scopes given
  refine h.withTracker (henabled.trans h.tracking) fun scope hscope => ?_
  rcases s.tracker.start_keys given hscope with hold | hkeys
  · exact h.scopes scope hold
  · refine sealed_nil.more (fun _ hk => absurd hk List.not_mem_nil) fun k hk => Or.inr ?_
    obtain ⟨f, rfl⟩ := hkeys k hk
    exact .file f

theorem files_opened (given : Option String) (s : State) :
    (opened given s).tracker.scopes.map Scope.file =
      (opened given s).tracker.currentFile :: s.tracker.scopes.map Scope.file := by
  obtain ⟨scope, hscopes, hfile, hcurrent, -, -⟩ := s.tracker.start_scopes given
  rw [opened, hscopes, List.map_cons, hfile, hcurrent]

/-- The scopes around one that is closed are sealed if its keys are. -/
theorem sealed_of_finish {t t' : Tracker} (ht : t.enabled = true) (hfinish : t.finish = .ok (keys, t'))
    (hkeys : Sealed c store keys) (hscopes : ∀ scope ∈ t.scopes.tail, Sealed c store scope.keys) :
    ∀ scope ∈ t'.scopes, Sealed c store scope.keys := by
  obtain ⟨scope, rest, heq, -, -, -, houter⟩ := Tracker.finish_ok ht hfinish
  rw [heq] at hscopes
  intro outer' houter'
  obtain ⟨outer, hmem, hall⟩ := houter outer' houter'
  exact (hscopes outer hmem).join hkeys (fun k hk => (hall k).2 (Or.inl hk)) (fun k hk => (hall k).2 (Or.inr hk))
    fun k hk => ((hall k).1 hk).imp_right Or.inl

/-- What is done in a scope of its own leaves a state sealed, and the keys of the scope are. -/
theorem Sealing.close {given : Option String} {s₁ : State} (h : Sealing c stack (opened given s) s₁)
    (hrun : (Tracking.finish : Step (List String)).runOn s₁ = (.ok keys, s')) :
    Sealing c stack s s' ∧ Sealed c s'.store keys := by
  obtain ⟨t, hfinish, rfl⟩ := runOn_tracker_ok hrun
  have henabled := h.result.tracking
  obtain ⟨scope, rest, hscopes, hkeys, ht, hfiles, -⟩ := Tracker.finish_ok henabled hfinish
  have hsealed : Sealed c s₁.store keys := by
    refine (h.result.scopes scope (hscopes ▸ List.mem_cons_self)).more (fun k hk => (hkeys k).2 (Or.inl hk)) fun k hk => ?_
    refine ((hkeys k).1 hk).imp_right fun hk => ?_
    rw [hk]
    exact .file _
  refine ⟨⟨h.result.withTracker ht ?_, ?_, h.store, h.free⟩, hsealed⟩
  · exact sealed_of_finish henabled hfinish hsealed fun r hr => h.result.scopes r (List.mem_of_mem_tail hr)
  · have houter := h.files
    rw [files_opened, hscopes, List.map_cons] at houter
    exact hfiles.trans (List.cons.inj houter).2

/-! ### Memos -/

/-- A memo that is a part of states, whose results are sealed in sealed states. -/
structure SealedMemo {κ : Type} (c : Config) (memo : Part State (Memo κ α)) : Prop where
  entries : ∀ s : State, s.Sealed c → ∀ e ∈ (memo.get s).entries, Sealed c s.store e.2.2.keys
  sealed : ∀ (s : State) m, s.Sealed c → (∀ e ∈ m.entries, Sealed c s.store e.2.2.keys) → (memo.set m s).Sealed c
  frame : ∀ m s, (memo.set m s).tracker = s.tracker ∧ (memo.set m s).store = s.store

theorem sealedMemo_shapes : SealedMemo c State.shapesPart where
  entries _ hs := hs.shapes
  sealed _ _ hs h := ⟨hs.tracking, hs.store, h, hs.inputs, hs.scopes⟩
  frame _ _ := ⟨rfl, rfl⟩

theorem sealedMemo_inputs : SealedMemo c State.inputsPart where
  entries _ hs := hs.inputs
  sealed _ _ hs h := ⟨hs.tracking, hs.store, hs.shapes, h, hs.scopes⟩
  frame _ _ := ⟨rfl, rfl⟩

section Memos

variable {κ : Type} [DecidableEq κ] {memo : Part State (Memo κ α)} (hmemo : SealedMemo c memo)

include hmemo

omit [DecidableEq κ] in
/-- Changing a memo so that its results are sealed. -/
theorem Sealing.of_modify {f : Memo κ α → Memo κ α} {a : Unit} (hs : s.Sealed c)
    (hf : ∀ e ∈ (f (memo.get s)).entries, Sealed c s.store e.2.2.keys) (h : (memo.modify f).runOn s = (.ok a, s')) :
    Sealing c stack s s' := by
  rw [runOn_modify] at h
  cases h
  obtain ⟨htracker, hstore⟩ := hmemo.frame (f (memo.get s)) s
  exact .of_store (hmemo.sealed s _ hs hf) hstore (by rw [htracker])

omit [DecidableEq κ] in
/-- Counting leaves the results of a memo as they are. -/
theorem seals_counted {f : Memo κ α → Memo κ α} (hf : ∀ m, (f m).entries = m.entries) : Seals c stack (memo.modify f) :=
  fun s _ _ hs h => .of_modify hmemo hs (fun e he => hmemo.entries s hs e (hf _ ▸ he)) h

/-- A memo keeps a state sealed if computing does. -/
theorem seals_memoized (enabled : Bool) (key : κ) {compute : Step α} (h : Seals c stack compute) :
    Seals c stack (Memo.memoized memo enabled key compute) := by
  cases enabled with
  | false => exact h
  | true =>
    intro s b s' hs hrun
    cases hget : Assoc.get? (memo.get s).entries key with
    | some entry =>
      unfold Memo.memoized at hrun
      simp only [Bool.not_true, Bool.false_eq_true, if_false] at hrun
      obtain ⟨_, s₁, hread, hrun⟩ := runOn_bind_ok hrun
      cases hread
      simp only [hget] at hrun
      obtain ⟨_, s₁, hcount, hrun⟩ := runOn_bind_ok hrun
      obtain ⟨_, s₂, hmerge, hrun⟩ := runOn_bind_ok hrun
      cases hrun
      have hcounted : Sealing c stack s s₁ :=
        seals_counted hmemo (f := fun m => { m with hits := m.hits + 1 }) (fun _ => rfl) s _ s₁ hs hcount
      have hkeys : Sealed c s.store entry.2.keys := hmemo.entries s hs _ (Assoc.mem_of_get? hget)
      exact hcounted.trans (.of_merge hcounted.result (hkeys.mono hcounted.store) hmerge)
    | none =>
      rw [runOn_memoized_miss hget] at hrun
      obtain ⟨a, s₂, hcompute, hrun⟩ := runOn_bind_ok hrun
      obtain ⟨keys, s₃, hfinish, hrun⟩ := runOn_bind_ok hrun
      obtain ⟨_, s₄, hkeep, hrun⟩ := runOn_bind_ok hrun
      cases hrun
      have hcounted : Sealing c stack s (memo.set { memo.get s with misses := (memo.get s).misses + 1 } s) :=
        seals_counted hmemo (f := fun m => { m with misses := m.misses + 1 }) (fun _ => rfl) s () _ hs rfl
      have hcomputed := h _ _ s₂ (hcounted.result.opened none) hcompute
      obtain ⟨hclosed, hkeys⟩ := Sealing.close (s := memo.set _ s) hcomputed hfinish
      refine (hcounted.trans hclosed).trans (.of_modify hmemo hclosed.result (fun e he => ?_) hkeep)
      rcases Assoc.mem_insert he with rfl | he
      · exact hkeys
      · exact hmemo.entries s₃ hclosed.result e he

end Memos

/-! ### Artifacts -/

section Artifacts

variable {kind : ArtifactKind} {key name : String} {given : Option String} {build : Step Draft} {a : Artifact ArtifactKind}

theorem runOn_reuse_ok (h : (Store.reuse a : Step String).runOn s = (.ok name, s')) :
    ∃ t, s.tracker.merge a.origin.keys (some a.origin.file) = .ok t ∧ s' = { s with tracker := t } := by
  obtain ⟨_, s₁, hmerge, h⟩ := runOn_bind_ok h
  cases h
  exact runOn_merge_ok hmerge

/-- An artifact that is not there is built in a scope of its own, and stored with the keys that were recorded in it. -/
theorem made_of_runOn_artifact (hget : Assoc.get? s.store (kind, key) = none)
    (hrun : (artifact kind key given build).runOn s = (.ok name, s')) :
    ∃ draft s₁ t keys t', build.runOn (opened given s) = (.ok draft, s₁) ∧
      s₁.tracker.add ⟨KindName.name kind, draft.name⟩ = .ok t ∧ t.finish = .ok (keys, t') ∧
        s' = stored (kind, key) draft ⟨(opened given s).tracker.currentFile, keys⟩ t' s₁ := by
  rw [runOn_artifact_miss hget] at hrun
  obtain ⟨draft, s₁, hbuild, hrun⟩ := runOn_bind_ok hrun
  obtain ⟨_, s₂, hadd, hrun⟩ := runOn_bind_ok hrun
  obtain ⟨keys, s₃, hfinish, hrun⟩ := runOn_bind_ok hrun
  obtain ⟨t, hadded, rfl⟩ := runOn_add_ok hadd
  obtain ⟨t', hfinished, rfl⟩ := runOn_tracker_ok hfinish
  exact ⟨draft, s₁, t, keys, t', hbuild, hadded, hfinished, (congrArg Prod.snd hrun).symm⟩

/-- Using an artifact again leaves a state sealed. -/
theorem Sealing.of_reuse (hs : s.Sealed c) {node : Node} (ha : Assoc.get? s.store node = some a)
    (h : (Store.reuse a : Step String).runOn s = (.ok name, s')) :
    Sealing c stack s s' := by
  obtain ⟨_, s₁, hmerge, h⟩ := runOn_bind_ok h
  cases h
  exact .of_merge hs (hs.store _ (Assoc.mem_of_get? ha)).2 hmerge

/-- Storing an artifact that was built in a scope of its own leaves a state sealed: its key stands in the scopes around it
with all that it depends on. -/
theorem Sealing.stored {node : Node} {draft : Draft} {s₁ : State} {t t' : Tracker}
    (h : Sealing c (node :: stack) (opened given s) s₁) (hget : Assoc.get? s.store node = none) (hnode : node ∉ stack)
    (hadd : s₁.tracker.add ⟨KindName.name node.1, draft.name⟩ = .ok t) (hfinish : t.finish = .ok (keys, t')) :
    Sealing c stack s (stored node draft ⟨(opened given s).tracker.currentFile, keys⟩ t' s₁) := by
  obtain ⟨scope, rest, hscopes, ht⟩ := Tracker.add_ok h.result.tracking hadd
  have henabled : t.enabled = true := by
    rw [ht]
    exact h.result.tracking
  obtain ⟨_, _, heq, hkeys, ht', hfiles, -⟩ := Tracker.finish_ok henabled hfinish
  rw [ht] at heq
  cases heq
  have hnone : Assoc.get? s₁.store node = none := h.free node List.mem_cons_self hget
  have hfile := h.files
  rw [files_opened, hscopes, List.map_cons] at hfile
  obtain ⟨hfile, houter⟩ := List.cons.inj hfile
  have hstore : ∀ e ∈ s₁.store, e ∈ Assoc.insert s₁.store node
      { toDraft := draft, kind := node.1, origin := ⟨(opened given s).tracker.currentFile, keys⟩ } := fun e he => by
    rw [insert_eq_append hnone]
    exact List.mem_append_left _ he
  have hall : ∀ r ∈ scope :: rest, Sealed c s₁.store r.keys := hscopes ▸ h.result.scopes
  have hsealed : Sealed c (Assoc.insert s₁.store node
      { toDraft := draft, kind := node.1, origin := ⟨(opened given s).tracker.currentFile, keys⟩ }) keys := by
    intro k hk
    rcases (hkeys k).1 hk with hk | rfl
    · rcases Scope.mem_record.1 hk with hk | rfl
      · refine ((hall scope List.mem_cons_self) k hk).imp_right fun ⟨e, he, hid, hsub⟩ => ?_
        refine ⟨e, hstore e he, hid, fun k' hk' => ?_⟩
        exact (hkeys k').2 (Or.inl (Scope.mem_record.2 (Or.inl (hsub k' hk'))))
      · exact Or.inr ⟨_, Assoc.mem_of_get? (Assoc.get?_insert_self _ _ _), rfl, fun _ hk' => hk'⟩
    · exact Or.inl (.file _)
  have hshapes := fun e he => (h.result.shapes e he).mono hstore
  have hinputs := fun e he => (h.result.inputs e he).mono hstore
  refine ⟨⟨ht', fun e he => ?_, hshapes, hinputs, ?_⟩, hfiles.trans houter, fun e he => hstore e (h.store e he),
    fun node' hnode' hnone' => ?_⟩
  · rcases Assoc.mem_insert he with rfl | he
    · exact ⟨(hkeys _).2 (Or.inr (by rw [Scope.record_file, hfile])), hsealed⟩
    · exact ⟨(h.result.store e he).1, (h.result.store e he).2.mono hstore⟩
  · refine sealed_of_finish henabled hfinish hsealed fun r hr => ?_
    rw [ht] at hr
    exact (hall r (List.mem_cons_of_mem _ hr)).mono hstore
  · have hne : node' ≠ node := fun heq => hnode (heq ▸ hnode')
    exact (Assoc.get?_insert_of_ne _ _ hne.symm).trans (h.free node' (List.mem_cons_of_mem _ hnode') hnone')

/-- Generating an artifact keeps a state sealed if building it does, and does not make it. -/
theorem seals_artifact (given : Option String) (hnode : (kind, key) ∉ stack) (h : Seals c ((kind, key) :: stack) build) :
    Seals c stack (artifact kind key given build) := by
  intro s name s' hs hrun
  cases hget : Assoc.get? s.store (kind, key) with
  | some a =>
    rw [runOn_artifact_some hget] at hrun
    exact .of_reuse hs hget hrun
  | none =>
    obtain ⟨draft, s₁, t, keys, t', hbuild, hadd, hfinish, rfl⟩ := made_of_runOn_artifact hget hrun
    exact Sealing.stored (h _ draft s₁ (hs.opened given) hbuild) hget hnode hadd hfinish

end Artifacts

end Steps

/-! ## Generating -/

section Generating

variable {c : Setup}

theorem seals_fragmentInProgress (name : String) : Seals c.toConfig stack (fragmentInProgress name) := by
  intro s a s' hs hrun
  unfold fragmentInProgress at hrun
  obtain ⟨_, _, hread, hrun⟩ := runOn_bind_ok hrun
  cases hread
  split at hrun
  · cases hrun
  · rename_i a' ha
    exact .of_reuse hs ha hrun

/-- What is done in a scope of its own keeps states sealed. -/
theorem seals_inScope {α β : Type} (given : Option String) {act : Step α} (f : α → List String → β)
    (h : Seals c.toConfig stack act) :
    Seals c.toConfig stack (do
      Tracking.start given
      let a ← act
      let keys ← Tracking.finish
      return f a keys) := by
  intro s b s' hs hrun
  obtain ⟨a, s₁, keys, hact, hfinish, -⟩ := runOn_inScope_ok hrun
  exact (Sealing.close (h _ a s₁ (hs.opened given) hact) hfinish).1

theorem answering_seals : Answering c (Relation.TransGen c.toConfig.Refers) fun stack act => Seals c.toConfig stack act where
  pure _ a := seals_pure a
  failHere _ e := sequential_seals.failHere e
  bind := seals_bind
  count _ thing := seals_count thing
  use _ fragment := seals_add (.fragmentUse fragment)
  leads := .single
  leadsOn := .tail
  self _ _ h := seals_add (.input h)
  shape key _ h := seals_memoized sealedMemo_shapes c.cached key h
  code type _ h := seals_memoized sealedMemo_inputs c.cached type h
  declared d _ hnode h := seals_artifact none hnode (markingInput_of (seals_marking mutePart_inputMarks.toQuietPart) d h)

/-- All that a build does keeps states sealed. -/
theorem rules_seals : Rules c fun stack act => Seals c.toConfig stack act where
  pure _ a := seals_pure a
  fail _ e := seals_fail e
  failHere _ e := sequential_seals.failHere e
  bind := seals_bind
  read _ p := seals_read p
  modify _ _ hp f := seals_modify hp.toQuietPart f
  skipped _ _ _ := seals_modify silentPart_journal.toQuietPart _
  keepFields {_ _ f} _ _ fields := sequential_seals.keepFields (seals_modify quietPart_fieldMaps) f fields
  attributeFields _ name := sequential_seals.attributeFields (seals_modify quietPart_fieldMaps) name
  inScope given _ f h := seals_inScope given f h
  artifact given _ hnode h := seals_artifact given hnode h
  marking hmarks name _ h := seals_marking hmarks.toQuietPart name h
  again _ name := seals_fragmentInProgress name
  perform hstack h _ := answering_seals.perform hstack h _

end Generating

end Compile

end ResponseTypes
