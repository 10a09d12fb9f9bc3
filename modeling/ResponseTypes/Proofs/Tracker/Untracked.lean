import ResponseTypes.Proofs.Tracker.Calls

/-!
# A disabled tracker

A disabled tracker has recorded the fragment uses among the keys that an enabled one has recorded (`Tracker.untracked`), and
both keep so in lockstep: each call does to one what it does to the other, up to the keys (`Tracker.call_untracked`).  So all
that is seen of the one is seen of the other, with fewer keys (`Tracker.observe_disabled`).
-/

namespace ResponseTypes

set_option autoImplicit false

open Dependency (isFragmentUse)

namespace Scope

/-- The scope with the fragment uses among its keys. -/
def usesOnly (s : Scope) : Scope :=
  { s with keys := s.keys.filter isFragmentUse }

theorem usesOnly_record (s : Scope) (k : String) :
    (s.record k).usesOnly = if isFragmentUse k then s.usesOnly.record k else s.usesOnly := by
  have hmem : isFragmentUse k = true → (k ∈ s.usesOnly.keys ↔ k ∈ s.keys) := fun hk =>
    ⟨fun h => (List.mem_filter.1 h).1, fun h => List.mem_filter.2 ⟨h, hk⟩⟩
  by_cases hk : isFragmentUse k = true
  · by_cases hs : k ∈ s.keys
    · rw [if_pos hk, record, record, if_pos hs, if_pos ((hmem hk).2 hs)]
    · rw [if_pos hk, record, record, if_neg hs, if_neg (mt (hmem hk).1 hs)]
      simp [usesOnly, hk]
  · rw [if_neg hk, record]
    split
    · rfl
    · simp [usesOnly, hk]

/-- Keys are recorded in the same order without the others. -/
theorem usesOnly_recordAll (s : Scope) (keys : List String) :
    (s.recordAll keys).usesOnly = s.usesOnly.recordAll (keys.filter isFragmentUse) := by
  induction keys generalizing s with
  | nil => rfl
  | cons k rest ih =>
    rw [recordAll, List.foldl_cons, ← recordAll, ih, usesOnly_record, List.filter_cons]
    split <;> rfl

end Scope

namespace Tracker

/-- The tracker, if it had been disabled. -/
def untracked (t : Tracker) : Tracker :=
  ⟨false, t.scopes.map Scope.usesOnly, t.currentFile⟩

/-- What is seen of a tracker after a call. -/
structure Observation where
  /-- the keys that are returned, or the failure with its message and file -/
  answer : Except Failure (List String)
  openScopes : ℕ
  currentFile : String

/-- What is seen with only the fragment uses among the keys. -/
def Observation.usesOnly (o : Observation) : Observation :=
  { o with answer := o.answer.map (·.filter isFragmentUse) }

/-- What is seen after each of some calls. -/
def observe (t : Tracker) : List Call → List Observation
  | [] => []
  | c :: rest => ⟨t.answer c, (t.next c).scopes.length, (t.next c).currentFile⟩ :: (t.next c).observe rest

variable {t : Tracker}

theorem records_untracked (t : Tracker) : t.untracked.records = isFragmentUse := rfl

/-! ## Each call -/

theorem start_untracked (t : Tracker) (given : Option String) : t.untracked.start given = (t.start given).untracked := by
  unfold start
  split
  · rfl
  · rfl
  · -- the key of the file is no fragment use
    rename_i file _
    cases t with
    | mk enabled scopes currentFile => cases enabled <;> simp [untracked, Scope.usesOnly]

theorem add_untracked (henabled : t.enabled = true) (d : Dependency) : t.untracked.add d = (t.add d).map untracked := by
  have hrecords := records_of_enabled henabled d.key
  obtain ⟨enabled, scopes, currentFile⟩ := t
  cases scopes with
  | nil => rfl
  | cons s rest =>
    rw [add, add]
    simp only [untracked, List.map_cons, hrecords, if_true, Except.map, Scope.usesOnly_record]
    change Except.ok (if isFragmentUse d.key then _ else _) = _
    split <;> rfl

theorem mergedKeys_untracked (henabled : t.enabled = true) (keys : List String) (file : Option String) :
    t.untracked.mergedKeys keys file = (t.mergedKeys keys file).filter isFragmentUse := by
  unfold mergedKeys
  rw [filter_records henabled, records_untracked]

theorem map_recordAll_untracked (scopes : List Scope) (keys : List String) :
    (scopes.map Scope.usesOnly).map (·.recordAll (keys.filter isFragmentUse)) =
      (scopes.map (·.recordAll keys)).map Scope.usesOnly := by
  rw [List.map_map, List.map_map]
  exact List.map_congr_left fun s _ => (s.usesOnly_recordAll keys).symm

theorem merge_untracked (henabled : t.enabled = true) (keys : List String) (file : Option String) :
    t.untracked.merge keys file = (t.merge keys file).map untracked := by
  have hempty : t.untracked.scopes.isEmpty = t.scopes.isEmpty := List.isEmpty_map
  rw [merge, merge, hempty, mergedKeys_untracked henabled]
  split
  · rfl
  · exact congrArg (fun scopes => Except.ok (Tracker.mk false scopes t.currentFile)) (map_recordAll_untracked _ _)

theorem closingKeys_untracked (henabled : t.enabled = true) (s : Scope) :
    t.untracked.closingKeys s.usesOnly = (t.closingKeys s).filter isFragmentUse := by
  have hfile : (s.record (Dependency.fileKey s.file)).usesOnly = s.usesOnly := by
    rw [Scope.usesOnly_record, Dependency.isFragmentUse_fileKey, if_neg Bool.false_ne_true]
  have hdisabled : t.untracked.closingKeys s.usesOnly = s.usesOnly.keys := rfl
  rw [hdisabled, ← hfile, closingKeys, if_pos henabled]
  rfl

theorem finish_untracked (henabled : t.enabled = true) :
    t.untracked.finish = t.finish.map fun closed => (closed.1.filter isFragmentUse, closed.2.untracked) := by
  cases hscopes : t.scopes with
  | nil =>
    rw [finish, finish, untracked, hscopes]
    rfl
  | cons s rest =>
    have huntracked : t.untracked.scopes = s.usesOnly :: rest.map Scope.usesOnly := congrArg (List.map Scope.usesOnly) hscopes
    cases rest with
    | nil =>
      rw [finish, finish, huntracked, hscopes]
      exact congrArg (fun keys => Except.ok (keys, Tracker.mk false [] t.currentFile)) (closingKeys_untracked henabled s)
    | cons outer rest =>
      -- of the keys that it gives to the scopes around, the disabled tracker filters none
      have hkeys : ((t.closingKeys s).filter isFragmentUse).filter t.untracked.records =
          (t.closingKeys s).filter isFragmentUse := by
        rw [records_untracked, List.filter_filter]
        simp only [Bool.and_self]
      rw [finish, finish, huntracked, hscopes]
      simp only [List.map_cons, Except.map, closingKeys_untracked henabled, hkeys, filter_records henabled]
      exact congrArg (fun scopes => Except.ok (_, Tracker.mk false scopes outer.file))
        (map_recordAll_untracked (outer :: rest) (t.closingKeys s))

/-- A call does to the disabled tracker what it does to the enabled one, up to the keys. -/
theorem call_untracked (henabled : t.enabled = true) (c : Call) :
    t.untracked.call c = (t.call c).map fun called => (called.1.filter isFragmentUse, called.2.untracked) := by
  have hadd : ∀ d, (t.untracked.add d).map (([] : List String), ·) =
      ((t.add d).map (([] : List String), ·)).map fun called => (called.1.filter isFragmentUse, called.2.untracked) := by
    intro d
    rw [add_untracked henabled]
    cases t.add d <;> rfl
  cases c with
  | start given => exact congrArg (fun t' => Except.ok (([] : List String), t')) (t.start_untracked given)
  | add d => exact hadd d
  | use fragment => exact hadd _
  | merge keys file =>
    rw [call, call, merge_untracked henabled]
    cases t.merge keys file <;> rfl
  | finish => exact finish_untracked henabled
  | reset => rfl

theorem answer_untracked (henabled : t.enabled = true) (c : Call) :
    t.untracked.answer c = (t.answer c).map (·.filter isFragmentUse) := by
  rw [answer, answer, call_untracked henabled]
  cases t.call c <;> rfl

theorem next_untracked (henabled : t.enabled = true) (c : Call) : t.untracked.next c = (t.next c).untracked := by
  rw [next, next, call_untracked henabled]
  cases t.call c <;> rfl

/-! ## All calls -/

theorem observe_untracked (henabled : t.enabled = true) (calls : List Call) :
    t.untracked.observe calls = (t.observe calls).map Observation.usesOnly := by
  induction calls generalizing t with
  | nil => rfl
  | cons c rest ih =>
    have hlength : (t.next c).untracked.scopes.length = (t.next c).scopes.length := List.length_map _
    rw [observe, observe, List.map_cons, answer_untracked henabled, next_untracked henabled, hlength,
      ih ((enabled_next t c).trans henabled)]
    rfl

/-- A disabled tracker fails at the same calls as an enabled one, in the same way, has as many open scopes and the same
current file after each call, and returns the fragment uses among the keys that are returned by the enabled one. -/
theorem observe_disabled (calls : List Call) :
    (initial false).observe calls = ((initial true).observe calls).map Observation.usesOnly :=
  observe_untracked (t := initial true) rfl calls

end Tracker

end ResponseTypes
