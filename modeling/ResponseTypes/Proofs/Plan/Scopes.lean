import ResponseTypes.Artifact.Store
import ResponseTypes.Memo
import Mathlib.Data.List.Forall2

/-!
# What scopes record

* `Scope.Uses` : the fragments whose use a scope has recorded;
* `Noted U` : the innermost scope has recorded the use of the fragments in `U` and of no others, and those around it
  of some of them at most; all files are as before;
* `Scope.Covers` : a scope has recorded the files that something came from or depends on.

`noted_finish` : what a scope has recorded at its end is noted by the scopes around it.
-/

namespace ResponseTypes

set_option autoImplicit false

namespace Dependency

theorem mem_fragmentsUsed {keys : List String} {fragment : String} :
    fragment ∈ fragmentsUsed keys ↔ ∃ k ∈ keys, isFragmentUse k ∧ (ofKey k).name = fragment := by
  unfold fragmentsUsed
  rw [List.mem_map]
  constructor
  · rintro ⟨k, hk, h⟩
    exact ⟨k, (List.mem_filter.1 hk).1, (List.mem_filter.1 hk).2, h⟩
  · rintro ⟨k, hk, hu, h⟩
    exact ⟨k, List.mem_filter.2 ⟨hk, hu⟩, h⟩

theorem ofKey_fragmentUseKey (fragment : String) : ofKey (fragmentUseKey fragment) = ⟨fragmentUseKind, fragment⟩ :=
  ofKey_key (by decide) fragment

@[simp] theorem isFragmentUse_fragmentUseKey (fragment : String) : isFragmentUse (fragmentUseKey fragment) = true := by
  rw [isFragmentUse, ofKey_fragmentUseKey, beq_self_eq_true]

@[simp] theorem isFragmentUse_fileKey (file : String) : isFragmentUse (fileKey file) = false := by
  rw [isFragmentUse, fileKey, ofKey_key (by decide)]
  rfl

@[simp] theorem isFragmentUse_artifactKey (kind : ArtifactKind) (name : String) :
    isFragmentUse (key ⟨KindName.name kind, name⟩) = false := by
  cases kind
  all_goals
    rw [isFragmentUse, ofKey_key (by decide)]
    rfl

end Dependency

open Dependency (fragmentsUsed fileKey fragmentUseKey isFragmentUse)

namespace Scope

/-- The scope has recorded the use of a fragment. -/
def Uses (s : Scope) (fragment : String) : Prop :=
  fragment ∈ fragmentsUsed s.keys

/-- The scope has recorded all files that something of an origin depends on. -/
def Covers (s : Scope) (o : Origin) : Prop :=
  ∀ file, file ≠ "" → o.dependsOn file → fileKey file ∈ s.keys

theorem mem_record {s : Scope} {k k' : String} : k ∈ (s.record k').keys ↔ k ∈ s.keys ∨ k = k' := by
  unfold record
  split
  · constructor
    · exact Or.inl
    · rintro (h | rfl) <;> assumption
  · simp

theorem mem_recordAll {s : Scope} {keys : List String} {k : String} :
    k ∈ (s.recordAll keys).keys ↔ k ∈ s.keys ∨ k ∈ keys := by
  unfold recordAll
  induction keys generalizing s with
  | nil => simp
  | cons k' rest ih => simp [ih, mem_record, or_assoc]

@[simp] theorem record_file (s : Scope) (k : String) : (s.record k).file = s.file := by
  unfold record
  split <;> rfl

@[simp] theorem recordAll_file (s : Scope) (keys : List String) : (s.recordAll keys).file = s.file := by
  unfold recordAll
  induction keys generalizing s with
  | nil => rfl
  | cons k rest ih => rw [List.foldl_cons, ih, record_file]

theorem uses_recordAll {s : Scope} {keys : List String} {fragment : String} :
    (s.recordAll keys).Uses fragment ↔ s.Uses fragment ∨ fragment ∈ fragmentsUsed keys := by
  simp only [Uses, Dependency.mem_fragmentsUsed, mem_recordAll]
  grind

/-- The second scope is the first with more keys, and uses no other fragments than the first or those in `U`. -/
structure Grows (U : String → Prop) (a b : Scope) : Prop where
  file : b.file = a.file
  keys : ∀ k ∈ a.keys, k ∈ b.keys
  uses : ∀ fragment, b.Uses fragment → a.Uses fragment ∨ U fragment

theorem uses_mono {a b : Scope} (h : ∀ k ∈ a.keys, k ∈ b.keys) {fragment : String} (hu : a.Uses fragment) :
    b.Uses fragment := by
  obtain ⟨k, hk, hu⟩ := Dependency.mem_fragmentsUsed.1 hu
  exact Dependency.mem_fragmentsUsed.2 ⟨k, h k hk, hu⟩

theorem Covers.mono {a b : Scope} {o : Origin} (hc : a.Covers o) (h : ∀ k ∈ a.keys, k ∈ b.keys) : b.Covers o :=
  fun file hne hf => h _ (hc file hne hf)

namespace Grows

variable {U V : String → Prop}

theorem refl (s : Scope) : Grows U s s :=
  ⟨rfl, fun _ h => h, fun _ h => Or.inl h⟩

theorem trans {a b d : Scope} (h : Grows U a b) (h' : Grows V b d) : Grows (fun f => U f ∨ V f) a d where
  file := h'.file.trans h.file
  keys k hk := h'.keys k (h.keys k hk)
  uses f hf := (h'.uses f hf).elim (fun hf => (h.uses f hf).imp id Or.inl) (fun hf => Or.inr (Or.inr hf))

theorem mono {a b : Scope} (h : Grows U a b) (hUV : ∀ f, U f → V f) : Grows V a b :=
  ⟨h.file, h.keys, fun f hf => (h.uses f hf).imp id (hUV f)⟩

theorem recordAll (s : Scope) {keys : List String} (h : ∀ f ∈ fragmentsUsed keys, U f) :
    Grows U s (s.recordAll keys) where
  file := recordAll_file s keys
  keys _ hk := mem_recordAll.2 (Or.inl hk)
  uses f hf := (uses_recordAll.1 hf).imp id (h f)

end Grows

end Scope

/-- The innermost scope has recorded the use of the fragments in `U`, and no scope that of others. -/
structure Noted (U : String → Prop) (before after : List Scope) : Prop where
  grows : List.Forall₂ (Scope.Grows U) before after
  top : ∀ s ∈ after.head?, ∀ fragment, U fragment → s.Uses fragment

namespace Noted

variable {U V : String → Prop} {before middle after : List Scope}

theorem refl (scopes : List Scope) : Noted (fun _ => False) scopes scopes :=
  ⟨List.forall₂_same.2 fun s _ => Scope.Grows.refl s, fun _ _ _ h => h.elim⟩

theorem mono (h : Noted U before after) (hUV : ∀ f, U f ↔ V f) : Noted V before after :=
  ⟨h.grows.imp fun _ _ hg => hg.mono fun f => (hUV f).1, fun s hs f hf => h.top s hs f ((hUV f).2 hf)⟩

theorem trans (h : Noted U before middle) (h' : Noted V middle after) :
    Noted (fun f => U f ∨ V f) before after where
  grows := by
    have hg := h.grows
    have hg' := h'.grows
    clear h h'
    induction hg generalizing after with
    | nil =>
      cases hg'
      exact .nil
    | cons ha _ ih =>
      cases hg' with
      | cons hb hr => exact .cons (ha.trans hb) (ih hr)
  top s hs f hf := by
    rcases hf with hf | hf
    · have hg' := h'.grows
      cases hg' with
      | nil => simp at hs
      | @cons a b l l' hab _ =>
        obtain rfl := Option.some.inj (Option.mem_def.1 hs)
        exact Scope.uses_mono hab.keys (h.top a (Option.mem_def.2 rfl) f hf)
    · exact h'.top s hs f hf

/-- What is covered stays covered. -/
theorem covers (h : Noted U before after) {o : Origin} (hc : ∀ s ∈ before, s.Covers o) : ∀ s ∈ after, s.Covers o := by
  have hg := h.grows
  clear h
  induction hg with
  | nil => exact fun s hs => absurd hs List.not_mem_nil
  | cons hab _ ih =>
    intro s hs
    rcases List.mem_cons.1 hs with rfl | hs
    · exact (hc _ List.mem_cons_self).mono hab.keys
    · exact ih (fun s hs => hc s (List.mem_cons_of_mem _ hs)) s hs

/-- The same keys are recorded in all scopes. -/
theorem recordAll {scopes : List Scope} {keys : List String} (hU : ∀ f, f ∈ fragmentsUsed keys ↔ U f) :
    Noted U scopes (scopes.map (·.recordAll keys)) where
  grows := by
    rw [List.forall₂_map_right_iff]
    exact List.forall₂_same.2 fun s _ => Scope.Grows.recordAll s fun f hf => (hU f).1 hf
  top s hs f hf := by
    rw [List.head?_map, Option.mem_def, Option.map_eq_some_iff] at hs
    obtain ⟨s', -, rfl⟩ := hs
    exact Scope.uses_recordAll.2 (Or.inr ((hU f).2 hf))

end Noted

namespace Tracker

variable {t t' : Tracker} {U V : String → Prop}

/-- A scope is open, and its file is current. -/
def Scoped (t : Tracker) : Prop :=
  ∃ s rest, t.scopes = s :: rest ∧ t.currentFile = s.file

/-- The second tracker is the first after the use of the fragments in `U` was recorded. -/
structure Moves (U : String → Prop) (t t' : Tracker) : Prop where
  enabled : t'.enabled = t.enabled
  file : t'.currentFile = t.currentFile
  noted : Noted U t.scopes t'.scopes

theorem Moves.refl (t : Tracker) : Moves (fun _ => False) t t :=
  ⟨rfl, rfl, Noted.refl t.scopes⟩

theorem Moves.trans {t'' : Tracker} (h : Moves U t t') (h' : Moves V t' t'') : Moves (fun f => U f ∨ V f) t t'' :=
  ⟨h'.enabled.trans h.enabled, h'.file.trans h.file, h.noted.trans h'.noted⟩

theorem Moves.mono (h : Moves U t t') (hUV : ∀ f, U f ↔ V f) : Moves V t t' :=
  ⟨h.enabled, h.file, h.noted.mono hUV⟩

theorem Moves.scoped (h : Moves U t t') (hs : t.Scoped) : t'.Scoped := by
  obtain ⟨s, rest, hscopes, hfile⟩ := hs
  have hg := h.noted.grows
  rw [hscopes] at hg
  generalize he : t'.scopes = scopes at hg
  cases hg with
  | cons hab _ => exact ⟨_, _, he, by rw [h.file, hfile, hab.file]⟩

theorem records_of_use {k : String} (h : isFragmentUse k = true) : t.records k = true := by
  simp [records, h]

theorem records_of_enabled (h : t.enabled = true) (k : String) : t.records k = true := by
  rw [records, h, Bool.true_or]

theorem filter_records (h : t.enabled = true) (keys : List String) : keys.filter t.records = keys :=
  List.filter_eq_self.2 fun k _ => records_of_enabled h k

/-- What a merge brings: the keys and that of the file, as far as the tracker records them. -/
theorem mem_mergedKeys {keys : List String} {file : Option String} {k : String} : k ∈ t.mergedKeys keys file ↔
    (k ∈ keys ∨ ∃ f, file = some f ∧ f ≠ "" ∧ k = fileKey f) ∧ t.records k = true := by
  unfold mergedKeys
  rw [List.mem_filter]
  refine and_congr_left' ?_
  split
  · simp
  · simp
  · rename_i f hf
    simp [show f ≠ "" from fun h => hf (h ▸ rfl)]

theorem mem_fragmentsUsed_records {keys : List String} {f : String} :
    f ∈ fragmentsUsed (keys.filter t.records) ↔ f ∈ fragmentsUsed keys := by
  simp only [Dependency.mem_fragmentsUsed, List.mem_filter]
  constructor
  · rintro ⟨k, ⟨hk, -⟩, h⟩
    exact ⟨k, hk, h⟩
  · rintro ⟨k, hk, hu, h⟩
    exact ⟨k, ⟨hk, records_of_use hu⟩, hu, h⟩

/-- A key is recorded in the innermost scope. -/
theorem moves_add (h : t.Scoped) {d : Dependency} (hU : ∀ f, U f ↔ isFragmentUse d.key = true ∧ (Dependency.ofKey d.key).name = f) :
    ∃ t', t.add d = .ok t' ∧ Moves U t t' := by
  obtain ⟨s, rest, hscopes, hfile⟩ := h
  have hadd : t.add d = .ok (if t.records d.key then { t with scopes := s.record d.key :: rest } else t) := by
    rw [add, hscopes]
  refine ⟨_, hadd, ?_⟩
  split
  · refine ⟨rfl, rfl, ?_⟩
    rw [hscopes]
    refine ⟨.cons ⟨Scope.record_file s d.key, fun k hk => Scope.mem_record.2 (Or.inl hk), fun f hf => ?_⟩
      (List.forall₂_same.2 fun s _ => Scope.Grows.refl s), fun s' hs' f hf => ?_⟩
    · obtain ⟨k, hk, hu, hn⟩ := Dependency.mem_fragmentsUsed.1 hf
      rcases Scope.mem_record.1 hk with hk | rfl
      · exact Or.inl (Dependency.mem_fragmentsUsed.2 ⟨k, hk, hu, hn⟩)
      · exact Or.inr ((hU f).2 ⟨hu, hn⟩)
    · obtain rfl := Option.some.inj (Option.mem_def.1 hs')
      exact Dependency.mem_fragmentsUsed.2 ⟨d.key, Scope.mem_record.2 (Or.inr rfl), (hU f).1 hf⟩
  · rename_i hr
    refine (Moves.refl t).mono fun f => ⟨False.elim, fun hf => hr (records_of_use ((hU f).1 hf).1)⟩

theorem moves_addUse (h : t.Scoped) (fragment : String) :
    ∃ t', t.add ⟨Dependency.fragmentUseKind, fragment⟩ = .ok t' ∧ Moves (· = fragment) t t' := by
  refine moves_add h fun f => ?_
  change f = fragment ↔ isFragmentUse (fragmentUseKey fragment) = true ∧
    (Dependency.ofKey (fragmentUseKey fragment)).name = f
  rw [Dependency.isFragmentUse_fragmentUseKey, Dependency.ofKey_fragmentUseKey]
  exact ⟨fun h => ⟨rfl, h.symm⟩, fun h => h.2.symm⟩

theorem moves_addArtifact (h : t.Scoped) (kind : ArtifactKind) (name : String) :
    ∃ t', t.add ⟨KindName.name kind, name⟩ = .ok t' ∧ Moves (fun _ => False) t t' := by
  refine moves_add h fun f => ?_
  rw [Dependency.isFragmentUse_artifactKey]
  simp

/-- Keys that are merged are recorded in all scopes. -/
theorem moves_merge (h : t.Scoped) (o : Origin) :
    ∃ t', t.merge o.keys (some o.file) = .ok t' ∧ Moves (· ∈ fragmentsUsed o.keys) t t' ∧
      (t.enabled → ∀ s ∈ t'.scopes, s.Covers o) := by
  obtain ⟨s, rest, hscopes, hfile⟩ := h
  have hne : t.scopes.isEmpty = false := by simp [hscopes]
  refine ⟨{ t with scopes := t.scopes.map (·.recordAll (t.mergedKeys o.keys (some o.file))) },
    by simp [merge, hne], ⟨rfl, rfl, Noted.recordAll fun f => ?_⟩, fun henabled s hs => ?_⟩
  · simp only [Dependency.mem_fragmentsUsed, mem_mergedKeys]
    constructor
    · rintro ⟨k, ⟨hk | ⟨file, -, -, rfl⟩, -⟩, hu, hn⟩
      · exact ⟨k, hk, hu, hn⟩
      · simp at hu
    · rintro ⟨k, hk, hu, hn⟩
      exact ⟨k, ⟨Or.inl hk, records_of_use hu⟩, hu, hn⟩
  · obtain ⟨s', -, rfl⟩ := List.mem_map.1 hs
    intro file hfile hdep
    refine Scope.mem_recordAll.2 (Or.inr (mem_mergedKeys.2 ⟨?_, records_of_enabled henabled _⟩))
    simp only [Origin.dependsOn, Bool.or_eq_true, beq_iff_eq, List.contains_iff_mem] at hdep
    rcases hdep with rfl | hdep
    · exact Or.inr ⟨_, rfl, hfile, rfl⟩
    · exact Or.inl hdep

/-- The current file in a scope that is opened with or without a file. -/
def fileAfter (file : String) : Option String → String
  | none | some "" => file
  | some given => given

theorem fileAfter_of_ne {file : String} (h : file ≠ "") (current : String) : fileAfter current (some file) = file := by
  unfold fileAfter
  split
  · simp_all
  · simp_all
  · rename_i heq
    exact (Option.some.inj heq).symm

theorem start_scopes (t : Tracker) (given : Option String) :
    ∃ s, (t.start given).scopes = s :: t.scopes ∧ s.file = fileAfter t.currentFile given ∧
      (t.start given).currentFile = fileAfter t.currentFile given ∧ (t.start given).enabled = t.enabled ∧
      ∀ f, ¬s.Uses f := by
  unfold start
  split
  · exact ⟨_, rfl, rfl, rfl, rfl, fun f h => by simp [Scope.Uses, fragmentsUsed] at h⟩
  · exact ⟨_, rfl, rfl, rfl, rfl, fun f h => by simp [Scope.Uses, fragmentsUsed] at h⟩
  · rename_i file _ hfile
    refine ⟨_, rfl, ?_, ?_, rfl, fun f h => ?_⟩
    · unfold fileAfter
      split <;> simp_all
    · unfold fileAfter
      split <;> simp_all
    · obtain ⟨k, hk, hu, -⟩ := Dependency.mem_fragmentsUsed.1 h
      dsimp only at hk
      split at hk
      · rw [List.mem_singleton.1 hk, Dependency.isFragmentUse_fileKey] at hu
        cases hu
      · cases hk

theorem scoped_start (t : Tracker) (given : Option String) : (t.start given).Scoped := by
  obtain ⟨s, hs, hf, hc, -⟩ := t.start_scopes given
  exact ⟨s, t.scopes, hs, hc.trans hf.symm⟩

theorem mem_closingKeys {s : Scope} {k : String} :
    k ∈ t.closingKeys s ↔ k ∈ s.keys ∨ t.enabled = true ∧ k = fileKey s.file := by
  unfold closingKeys
  split
  · rename_i h
    simp [Scope.mem_record, h]
  · rename_i h
    simp [h]

/-- A scope that is closed gives the uses it has recorded, and its keys are noted by the scopes around it. -/
theorem moves_finish {t₂ : Tracker} {given : Option String} (h : t.Scoped) (hm : Moves U (t.start given) t₂) :
    ∃ s keys t₃, t₂.scopes.head? = some s ∧ t₂.finish = .ok (keys, t₃) ∧ Moves U t t₃ ∧
      (∀ f, f ∈ fragmentsUsed keys ↔ U f) ∧ (∀ k ∈ s.keys, k ∈ keys) ∧
      (t.enabled → ∀ s ∈ t₃.scopes, s.Covers ⟨fileAfter t.currentFile given, keys⟩) := by
  obtain ⟨outer, rest, hscopes, hfile⟩ := h
  obtain ⟨s, hs, hsfile, hcurrent, henabled, huses⟩ := t.start_scopes given
  have hg := hm.noted.grows
  have htop := hm.noted.top
  rw [hs, hscopes] at hg
  generalize he : t₂.scopes = scopes at hg htop
  cases hg with
  | @cons _ s₂ _ l₂ hss hrest =>
    cases hrest with
    | @cons _ outer₂ _ rest₂ houter hrest₂ =>
      have hused : ∀ f, f ∈ fragmentsUsed (t₂.closingKeys s₂) ↔ U f := by
        intro f
        constructor
        · intro hf
          obtain ⟨k, hk, hu, hn⟩ := Dependency.mem_fragmentsUsed.1 hf
          rcases mem_closingKeys.1 hk with hk | ⟨-, rfl⟩
          · exact (hss.uses f (Dependency.mem_fragmentsUsed.2 ⟨k, hk, hu, hn⟩)).resolve_left (huses f)
          · simp at hu
        · intro hf
          obtain ⟨k, hk, hu⟩ := Dependency.mem_fragmentsUsed.1 (htop s₂ rfl f hf)
          exact Dependency.mem_fragmentsUsed.2 ⟨k, mem_closingKeys.2 (Or.inl hk), hu⟩
      have hen : t₂.enabled = t.enabled := hm.enabled.trans henabled
      refine ⟨s₂, t₂.closingKeys s₂,
        { t₂ with
          scopes := (outer₂ :: rest₂).map (·.recordAll ((t₂.closingKeys s₂).filter t₂.records))
          currentFile := outer₂.file }, rfl, ?_, ?_, hused, fun k hk => mem_closingKeys.2 (Or.inl hk), ?_⟩
      · rw [finish, he]
      · refine ⟨hen, by rw [hfile, houter.file], ?_⟩
        have hr : Noted U (outer₂ :: rest₂)
            ((outer₂ :: rest₂).map (·.recordAll ((t₂.closingKeys s₂).filter t₂.records))) :=
          Noted.recordAll fun f => mem_fragmentsUsed_records.trans (hused f)
        have hgrow := (List.Forall₂.cons houter hrest₂ : List.Forall₂ (Scope.Grows U) _ _)
        have hall : Noted (fun f => U f) t.scopes
            ((outer₂ :: rest₂).map (·.recordAll ((t₂.closingKeys s₂).filter t₂.records))) := by
          refine ⟨?_, hr.top⟩
          rw [hscopes, List.forall₂_map_right_iff]
          refine hgrow.imp fun a b hab => ?_
          refine (hab.trans (Scope.Grows.recordAll b fun f hf => ?_)).mono fun f hf => hf.elim id id
          exact (mem_fragmentsUsed_records.trans (hused f)).1 hf
        exact hall
      · intro hen' s' hs' file hne hdep
        obtain ⟨s'', -, rfl⟩ := List.mem_map.1 hs'
        refine Scope.mem_recordAll.2 (Or.inr (List.mem_filter.2 ⟨?_, records_of_enabled (hen.trans hen') _⟩))
        simp only [Origin.dependsOn, Bool.or_eq_true, beq_iff_eq, List.contains_iff_mem] at hdep
        rcases hdep with rfl | hdep
        · exact mem_closingKeys.2 (Or.inr ⟨hen.trans hen', by rw [hss.file, hsfile]⟩)
        · exact hdep

end Tracker

end ResponseTypes
