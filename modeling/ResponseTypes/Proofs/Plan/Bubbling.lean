import ResponseTypes.Proofs.Plan.Scopes

/-!
# What reaches which scope

A step records keys in the innermost scope, and some of them in the scopes around it too: those that it merges, and those
that a scope had which it opened and closed (`Tracker.Bubbles`).  A scope that is closed tells all that was recorded in it, and
that is what the scopes around it gain (`Tracker.Bubbles.close`).  So merging the keys of a scope again records what was
recorded when it was closed (`Tracker.mem_mergedKeys_close`).
-/

namespace ResponseTypes

set_option autoImplicit false

open Dependency (fileKey)

/-- The second scope is the first with the keys in `K`. -/
structure Scope.Gains (K : String → Prop) (a b : Scope) : Prop where
  file : b.file = a.file
  keys : ∀ k, k ∈ b.keys ↔ k ∈ a.keys ∨ K k

namespace Scope.Gains

variable {K L : String → Prop} {a b d : Scope}

theorem refl (s : Scope) : Gains (fun _ => False) s s := ⟨rfl, fun _ => (or_iff_left id).symm⟩

theorem trans (h : Gains K a b) (h' : Gains L b d) : Gains (fun k => K k ∨ L k) a d :=
  ⟨h'.file.trans h.file, fun k => by rw [h'.keys, h.keys, or_assoc]⟩

theorem mono (h : Gains K a b) (hKL : ∀ k, K k ↔ L k) : Gains L a b := ⟨h.file, fun k => by rw [h.keys, hKL]⟩

theorem recordAll (s : Scope) (keys : List String) : Gains (· ∈ keys) s (s.recordAll keys) :=
  ⟨recordAll_file s keys, fun _ => mem_recordAll⟩

end Scope.Gains

/-- The innermost scope gains the keys in `inner`, and those around it the keys in `outer`. -/
inductive GainsKeys (inner outer : String → Prop) : List Scope → List Scope → Prop where
  | none : GainsKeys inner outer [] []
  | some {a b : Scope} {l m : List Scope} : Scope.Gains inner a b → List.Forall₂ (Scope.Gains outer) l m →
      GainsKeys inner outer (a :: l) (b :: m)

namespace GainsKeys

variable {K L M N : String → Prop} {a b d : List Scope}

theorem length_eq (h : GainsKeys K L a b) : b.length = a.length := by
  cases h with
  | none => rfl
  | some _ hrest => rw [List.length_cons, List.length_cons, hrest.length_eq]

theorem refl (l : List Scope) : GainsKeys (fun _ => False) (fun _ => False) l l := by
  cases l with
  | nil => exact .none
  | cons s l => exact .some (.refl s) (List.forall₂_same.2 fun s _ => .refl s)

theorem trans (h : GainsKeys K L a b) (h' : GainsKeys M N b d) :
    GainsKeys (fun k => K k ∨ M k) (fun k => L k ∨ N k) a d := by
  cases h with
  | none => cases h' with | none => exact .none
  | some hab hrest =>
    cases h' with
    | some hbd hrest' => exact .some (hab.trans hbd) (forall₂_trans hrest hrest')
where
  forall₂_trans {l m n : List Scope} (h : List.Forall₂ (Scope.Gains L) l m) (h' : List.Forall₂ (Scope.Gains N) m n) :
      List.Forall₂ (Scope.Gains fun k => L k ∨ N k) l n := by
    induction h generalizing n with
    | nil =>
      cases h'
      exact .nil
    | cons hab _ ih =>
      cases h' with
      | cons hbd hrest' => exact .cons (hab.trans hbd) (ih hrest')

theorem mono (h : GainsKeys K L a b) (hK : ∀ k, K k ↔ M k) (hL : ∀ k, L k ↔ N k) : GainsKeys M N a b := by
  cases h with
  | none => exact .none
  | some hab hrest => exact .some (hab.mono hK) (hrest.imp fun _ _ h => h.mono hL)

theorem recordAll (l : List Scope) (keys : List String) : GainsKeys (· ∈ keys) (· ∈ keys) l (l.map (·.recordAll keys)) := by
  cases l with
  | nil => exact .none
  | cons s l =>
    refine .some (.recordAll s keys) ?_
    rw [List.forall₂_map_right_iff]
    exact List.forall₂_same.2 fun s _ => .recordAll s keys

end GainsKeys

namespace Tracker

variable {t t' t'' : Tracker} {inner outer inner' outer' : String → Prop} {k : String}

theorem records_congr (h : t'.enabled = t.enabled) : t'.records = t.records := by
  funext k
  rw [records, records, h]

theorem mergedKeys_congr (h : t'.enabled = t.enabled) (keys : List String) (file : Option String) :
    t'.mergedKeys keys file = t.mergedKeys keys file := by
  unfold mergedKeys
  rw [records_congr h]

/-- What recording does to a tracker: keys in `inner` reach the innermost scope, and those in `outer` all scopes. -/
structure Bubbles (inner outer : String → Prop) (t t' : Tracker) : Prop where
  enabled : t'.enabled = t.enabled
  file : t.Scoped → t'.currentFile = t.currentFile
  scopes : GainsKeys inner outer t.scopes t'.scopes
  outer_inner : ∀ k, outer k → inner k
  recorded : ∀ k, inner k → t.records k = true

theorem Bubbles.scoped (h : Bubbles inner outer t t') (ht : t.Scoped) : t'.Scoped := by
  obtain ⟨s, rest, hscopes, hfile⟩ := id ht
  have hgains := h.scopes
  rw [hscopes] at hgains
  generalize he : t'.scopes = scopes at hgains
  cases hgains with
  | some hab _ => exact ⟨_, _, he, by rw [h.file ht, hfile, hab.file]⟩

namespace Bubbles

theorem refl (t : Tracker) : Bubbles (fun _ => False) (fun _ => False) t t :=
  ⟨rfl, fun _ => rfl, .refl _, fun _ => id, fun _ => False.elim⟩

theorem trans (h : Bubbles inner outer t t') (h' : Bubbles inner' outer' t' t'') :
    Bubbles (fun k => inner k ∨ inner' k) (fun k => outer k ∨ outer' k) t t'' where
  enabled := h'.enabled.trans h.enabled
  file ht := (h'.file (h.scoped ht)).trans (h.file ht)
  scopes := h.scopes.trans h'.scopes
  outer_inner k hk := hk.imp (h.outer_inner k) (h'.outer_inner k)
  recorded k hk := hk.elim (h.recorded k) fun hk => records_congr h.enabled ▸ h'.recorded k hk

theorem mono (h : Bubbles inner outer t t') (hinner : ∀ k, inner k ↔ inner' k) (houter : ∀ k, outer k ↔ outer' k) :
    Bubbles inner' outer' t t' :=
  ⟨h.enabled, h.file, h.scopes.mono hinner houter, fun k hk => (hinner k).1 (h.outer_inner k ((houter k).2 hk)),
    fun k hk => h.recorded k ((hinner k).2 hk)⟩

end Bubbles

theorem bubbles_add {d : Dependency} (h : t.add d = .ok t') :
    Bubbles (fun k => k = d.key ∧ t.records k = true) (fun _ => False) t t' := by
  unfold add at h
  split at h
  · cases h
  · rename_i s rest hscopes
    cases h
    split
    · rename_i hrecords
      refine ⟨rfl, fun _ => rfl, ?_, fun _ => False.elim, fun _ hk => hk.2⟩
      rw [hscopes]
      refine .some ⟨Scope.record_file s d.key, fun k => ?_⟩ (List.forall₂_same.2 fun s _ => .refl s)
      rw [Scope.mem_record]
      exact or_congr_right ⟨fun hk => ⟨hk, hk ▸ hrecords⟩, And.left⟩
    · rename_i hrecords
      exact (Bubbles.refl t).mono (fun k => ⟨False.elim, fun hk => hrecords (hk.1 ▸ hk.2)⟩) fun _ => Iff.rfl

theorem bubbles_merge {keys : List String} {file : Option String} (h : t.merge keys file = .ok t') :
    Bubbles (· ∈ t.mergedKeys keys file) (· ∈ t.mergedKeys keys file) t t' := by
  unfold merge at h
  split at h
  · cases h
  · cases h
    exact ⟨rfl, fun _ => rfl, .recordAll _ _, fun _ => id, fun _ hk => (List.mem_filter.1 hk).2⟩

/-- The keys of a scope that is opened are that of its file at most. -/
theorem start_eq (t : Tracker) (given : Option String) : ∃ s, (t.start given).scopes = s :: t.scopes ∧
    (t.start given).currentFile = fileAfter t.currentFile given ∧ s.file = fileAfter t.currentFile given ∧
      (t.start given).enabled = t.enabled ∧ ∀ k ∈ s.keys, t.enabled = true ∧ k = fileKey s.file := by
  unfold start
  split
  · exact ⟨_, rfl, rfl, rfl, rfl, fun k hk => absurd hk List.not_mem_nil⟩
  · exact ⟨_, rfl, rfl, rfl, rfl, fun k hk => absurd hk List.not_mem_nil⟩
  · rename_i _ file hne
    have hfile : file = fileAfter t.currentFile (some file) := (fileAfter_of_ne (fun he => hne (he ▸ rfl)) _).symm
    refine ⟨_, rfl, hfile, hfile, rfl, fun k hk => ?_⟩
    dsimp only at hk ⊢
    split at hk
    · rename_i henabled
      exact ⟨henabled, List.mem_singleton.1 hk⟩
    · cases hk

/-- A scope that is closed has the keys that were recorded in it and that of its file, and the scopes around it gain those. -/
theorem Bubbles.close {given : Option String} {keys : List String} (h : Bubbles inner outer (t.start given) t')
    (hfinish : t'.finish = .ok (keys, t'')) :
    (∀ k, k ∈ keys ↔ inner k ∨ t.enabled = true ∧ k = fileKey (fileAfter t.currentFile given)) ∧
      Bubbles (fun k => k ∈ keys ∧ t.records k = true) (fun k => k ∈ keys ∧ t.records k = true) t t'' := by
  obtain ⟨s, hscopes, -, hsfile, henabled, hskeys⟩ := t.start_eq given
  have hen : t'.enabled = t.enabled := h.enabled.trans henabled
  have hrecords : t'.records = t.records := records_congr hen
  have hgains := h.scopes
  rw [hscopes] at hgains
  unfold finish at hfinish
  generalize hscopes' : t'.scopes = scopes at hgains hfinish
  cases hgains with
  | @some _ s' _ rest hss hrest =>
    dsimp only at hfinish
    have hkeys : ∀ k, k ∈ t'.closingKeys s' ↔
        inner k ∨ t.enabled = true ∧ k = fileKey (fileAfter t.currentFile given) := by
      intro k
      rw [mem_closingKeys, hss.keys, hss.file, hsfile, hen, or_assoc]
      refine or_iff_right_of_imp fun hk => Or.inr ?_
      rw [← hsfile]
      exact hskeys k hk
    have hinner : ∀ k, inner k → t.records k = true := fun k hk => records_congr henabled ▸ h.recorded k hk
    generalize hrest' : t.scopes = around at hrest
    cases hrest with
    | nil =>
      cases hfinish
      refine ⟨hkeys, hen, fun ht => ?_, ?_, fun _ => id, fun _ hk => hk.2⟩
      · obtain ⟨_, _, hnone, -⟩ := ht
        cases hrest'.symm.trans hnone
      · rw [hrest']
        exact .none
    | @cons a b l m hab hlm =>
      cases hfinish
      refine ⟨hkeys, hen, fun ht => ?_, ?_, fun _ => id, fun _ hk => hk.2⟩
      · obtain ⟨_, _, hsome, hfile⟩ := ht
        cases hrest'.symm.trans hsome
        exact hab.file.trans hfile.symm
      · -- what the scopes around it gained before is among the keys of the scope
        have hgain : ∀ k, outer k ∨ k ∈ (t'.closingKeys s').filter t'.records ↔
            k ∈ t'.closingKeys s' ∧ t.records k = true := by
          intro k
          rw [List.mem_filter, hrecords]
          refine or_iff_right_of_imp fun hk => ?_
          have hk := h.outer_inner k hk
          exact ⟨(hkeys k).2 (Or.inl hk), hinner k hk⟩
        rw [hrest']
        refine .some ((hab.trans (.recordAll b _)).mono hgain) ?_
        rw [List.forall₂_map_right_iff]
        exact hlm.imp fun a b hab => (hab.trans (.recordAll b _)).mono hgain

/-- With a scope open keys can be merged, and a scope can be closed. -/
theorem merge_of_length {n : ℕ} (h : t.scopes.length = n + 1) (keys : List String) (file : Option String) :
    ∃ t', t.merge keys file = .ok t' ∧ t'.scopes.length = n + 1 := by
  obtain ⟨s, rest, hscopes⟩ := List.exists_cons_of_length_eq_add_one h
  refine ⟨{ t with scopes := t.scopes.map (·.recordAll (t.mergedKeys keys file)) }, ?_, by rw [List.length_map, h]⟩
  rw [merge, if_neg (by simp [hscopes])]

theorem finish_of_length {n : ℕ} (h : t.scopes.length = n + 1) :
    ∃ keys t', t.finish = .ok (keys, t') ∧ t'.scopes.length = n := by
  obtain ⟨s, rest, hscopes⟩ := List.exists_cons_of_length_eq_add_one h
  rw [hscopes, List.length_cons, Nat.add_right_cancel_iff] at h
  rw [finish, hscopes]
  cases rest with
  | nil => exact ⟨_, _, rfl, h⟩
  | cons outer rest => exact ⟨_, _, rfl, (List.length_map _).trans h⟩

/-- Merging the keys of a scope that was closed brings those that were recorded. -/
theorem mem_mergedKeys_close {keys : List String} {file : String} (hfile : t.enabled = true → fileKey file ∈ keys) :
    k ∈ t.mergedKeys keys (some file) ↔ k ∈ keys ∧ t.records k = true := by
  have hkey : t.records (fileKey file) = true → fileKey file ∈ keys := by
    intro h
    rw [records, Dependency.isFragmentUse_fileKey, Bool.or_false] at h
    exact hfile h
  rw [mem_mergedKeys]
  refine ⟨?_, fun h => ⟨Or.inl h.1, h.2⟩⟩
  rintro ⟨hk | ⟨f, hf, -, rfl⟩, hrecords⟩
  · exact ⟨hk, hrecords⟩
  · cases hf
    exact ⟨hkey hrecords, hrecords⟩

end Tracker

end ResponseTypes
