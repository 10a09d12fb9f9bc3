import ResponseTypes.Proofs.Plan.Scopes

/-!
# Calls of a tracker

* `Tracker.Call` : what a tracker is asked to do;
* `Tracker.answer`, `Tracker.next` : what it answers, and the tracker afterwards, which a call that fails leaves as it was;
* `Tracker.after` : the tracker after some calls;
* `Tracker.Balanced` : calls that close the scopes they open, and no others.

Each scope that is open after some calls and was not before was opened by one of them, and all calls from there on are
balanced (`Tracker.exists_start`).
-/

namespace ResponseTypes.Tracker

set_option autoImplicit false

open Dependency (fragmentUseKind)

/-- What a tracker is asked to do. -/
inductive Call where
  | start (file : Option String)
  | add (d : Dependency)
  /-- the use of a fragment is added -/
  | use (fragment : String)
  | merge (keys : List String) (file : Option String)
  | finish
  | reset
deriving DecidableEq, Repr

/-- The answer to a call, which holds keys if a scope is closed, with the tracker afterwards. -/
def call (t : Tracker) : Call → Except Failure (List String × Tracker)
  | .start file => .ok ([], t.start file)
  | .add d => (t.add d).map ([], ·)
  | .use fragment => (t.add ⟨fragmentUseKind, fragment⟩).map ([], ·)
  | .merge keys file => (t.merge keys file).map ([], ·)
  | .finish => t.finish
  | .reset => .ok ([], t.reset)

/-- The answer to a call. -/
def answer (t : Tracker) (c : Call) : Except Failure (List String) :=
  (t.call c).map Prod.fst

/-- The tracker after a call.  One that fails changes nothing. -/
def next (t : Tracker) (c : Call) : Tracker :=
  match t.call c with
  | .ok (_, t') => t'
  | .error _ => t

/-- The tracker after some calls. -/
def after (t : Tracker) (calls : List Call) : Tracker :=
  calls.foldl next t

/-- How many scopes are open after a call, of those that were opened by calls; `n` are before.  There is no answer if it
closes one that was not. -/
def Call.level? (n : ℕ) : Call → Option ℕ
  | start _ => some (n + 1)
  | add _ | use _ | merge _ _ => some n
  | finish => match n with
    | 0 => none
    | n + 1 => some n
  | reset => none

/-- The same after some calls. -/
def level? (n : ℕ) (calls : List Call) : Option ℕ :=
  calls.foldlM Call.level? n

/-- The calls close the scopes that they open, and no others. -/
def Balanced (calls : List Call) : Prop :=
  level? 0 calls = some 0

instance (calls : List Call) : Decidable (Balanced calls) :=
  inferInstanceAs (Decidable (level? 0 calls = some 0))

variable {t : Tracker} {c : Call} {calls before rest : List Call} {n : ℕ}

@[simp] theorem after_nil : t.after [] = t := rfl

@[simp] theorem after_cons : t.after (c :: calls) = (t.next c).after calls := rfl

@[simp] theorem after_append : t.after (before ++ rest) = (t.after before).after rest :=
  List.foldl_append

@[simp] theorem next_start (given : Option String) : t.next (.start given) = t.start given := rfl

theorem level?_append : level? n (before ++ rest) = (level? n before).bind (level? · rest) :=
  List.foldlM_append

theorem level?_cons : level? n (c :: calls) = (c.level? n).bind (level? · calls) :=
  List.foldlM_cons

/-- More scopes may be open before, and stay open then. -/
theorem level?_add {m : ℕ} (h : level? n calls = some m) (k : ℕ) : level? (n + k) calls = some (m + k) := by
  induction calls generalizing n with
  | nil => exact congrArg (Option.map (· + k)) h
  | cons c rest ih =>
    rw [level?_cons] at h ⊢
    obtain ⟨n', hc, hrest⟩ := Option.bind_eq_some_iff.1 h
    have hstep : c.level? (n + k) = some (n' + k) := by
      cases c with
      | start given =>
        cases hc
        exact congrArg some (Nat.add_right_comm n k 1)
      | add d | use fragment | merge keys file =>
        cases hc
        rfl
      | finish =>
        cases n with
        | zero => cases hc
        | succ n =>
          cases hc
          rw [Nat.add_right_comm]
          rfl
      | reset => cases hc
    rw [hstep]
    exact ih hrest

/-- A call that neither opens nor closes a scope may follow balanced ones. -/
theorem Balanced.append_call (h : Balanced calls) (hc : c.level? 0 = some 0) : Balanced (calls ++ [c]) := by
  rw [Balanced, level?_append, h, Option.bind_some, level?_cons, hc]
  rfl

/-- So may a scope that is opened and closed. -/
theorem Balanced.append_scope {inner : List Call} (h : Balanced calls) (given : Option String) (hinner : Balanced inner) :
    Balanced (calls ++ .start given :: (inner ++ [.finish])) := by
  have hopen : level? 1 inner = some 1 := level?_add hinner 1
  rw [Balanced, level?_append, h, Option.bind_some, level?_cons]
  change level? 1 (inner ++ [.finish]) = some 0
  rw [level?_append, hopen]
  rfl

/-! ## Steps -/

theorem next_add (t : Tracker) (d : Dependency) : t.next (.add d) = match t.scopes with
    | [] => t
    | s :: rest => if t.records d.key then { t with scopes := s.record d.key :: rest } else t := by
  rw [next, call, add]
  cases t.scopes <;> rfl

/-- A merge changes every scope that is open, if any is. -/
theorem next_merge (t : Tracker) (keys : List String) (file : Option String) :
    t.next (.merge keys file) = { t with scopes := t.scopes.map (·.recordAll (t.mergedKeys keys file)) } := by
  obtain ⟨enabled, scopes, currentFile⟩ := t
  rw [next, call, merge]
  cases scopes <;> rfl

theorem next_finish (t : Tracker) : t.next .finish = match t.scopes with
    | [] => t
    | [_] => { t with scopes := [] }
    | s :: outer :: rest => { t with
        scopes := (outer :: rest).map (·.recordAll ((t.closingKeys s).filter t.records))
        currentFile := outer.file } := by
  rw [next, call, finish]
  cases t.scopes with
  | nil => rfl
  | cons s rest => cases rest <;> rfl

@[simp] theorem enabled_next (t : Tracker) (c : Call) : (t.next c).enabled = t.enabled := by
  have hadd : ∀ d, (t.next (.add d)).enabled = t.enabled := by
    intro d
    rw [next_add]
    split
    · rfl
    · split <;> rfl
  cases c with
  | start given =>
    rw [next_start]
    unfold start
    split <;> rfl
  | add d => exact hadd d
  | use fragment => exact hadd _
  | merge keys file => rw [next_merge]
  | finish =>
    rw [next_finish]
    split <;> rfl
  | reset => rfl

@[simp] theorem enabled_after (t : Tracker) (calls : List Call) : (t.after calls).enabled = t.enabled := by
  induction calls generalizing t with
  | nil => rfl
  | cons c rest ih => rw [after_cons, ih, enabled_next]

theorem length_next (t : Tracker) (c : Call) : (t.next c).scopes.length = match c with
    | .start _ => t.scopes.length + 1
    | .finish => t.scopes.length - 1
    | .reset => 0
    | .add _ | .use _ | .merge _ _ => t.scopes.length := by
  have hadd : ∀ d, (t.next (.add d)).scopes.length = t.scopes.length := by
    intro d
    rw [next_add]
    split
    · rfl
    · rename_i hscopes
      split <;> simp [hscopes]
  cases c with
  | start given =>
    rw [next_start]
    unfold start
    split <;> rfl
  | add d => exact hadd d
  | use fragment => exact hadd _
  | merge keys file => simp [next_merge]
  | finish =>
    rw [next_finish]
    split <;> rename_i hscopes <;> simp [hscopes]
  | reset => rfl

/-! ## Where scopes are opened -/

/-- A scope that was not open before some calls and is after them was opened by one of them. -/
theorem exists_start {calls : List Call} {n : ℕ} (ht : t.scopes.length ≤ n) (h : (t.after calls).scopes.length = n + 1) :
    ∃ before given inner, calls = before ++ .start given :: inner ∧ Balanced inner ∧ (t.after before).scopes.length = n := by
  induction hlength : calls.length using Nat.strongRecOn generalizing calls n with
  | ind k ih =>
    rcases List.eq_nil_or_concat calls with rfl | ⟨done, c, rfl⟩
    · exact absurd h (Nat.ne_of_lt (Nat.lt_succ_of_le ht))
    · rw [List.concat_eq_append] at h hlength ⊢
      have hshort : done.length < k := by
        rw [← hlength, List.length_append]
        exact Nat.lt_succ_self _
      rw [after_append, after_cons, after_nil, length_next] at h
      -- a call that opens and closes nothing stands in the scope that was open before it
      have hsame : c.level? 0 = some 0 → (t.after done).scopes.length = n + 1 → ∃ before given inner,
          done ++ [c] = before ++ .start given :: inner ∧ Balanced inner ∧ (t.after before).scopes.length = n := by
        intro hc h
        obtain ⟨before, given, inner, rfl, hinner, hbefore⟩ := ih _ hshort ht h rfl
        exact ⟨before, given, inner ++ [c], by simp, hinner.append_call hc, hbefore⟩
      cases c with
      | start given => exact ⟨done, given, [], rfl, rfl, Nat.succ.inj h⟩
      | add d => exact hsame rfl h
      | use fragment => exact hsame rfl h
      | merge keys file => exact hsame rfl h
      | finish =>
        -- the scope that it closes was opened in the one that is open after it
        have hopen : (t.after done).scopes.length = n + 1 + 1 := by
          change (t.after done).scopes.length - 1 = n + 1 at h
          omega
        obtain ⟨before, given, inner, rfl, hinner, hbefore⟩ := ih _ hshort (Nat.le_succ_of_le ht) hopen rfl
        obtain ⟨before', given', inner', rfl, hinner', hbefore'⟩ := ih _ (by simp at hshort ⊢; omega) ht hbefore rfl
        refine ⟨before', given', inner' ++ .start given :: (inner ++ [.finish]), by simp, ?_, hbefore'⟩
        exact hinner'.append_scope given hinner
      | reset => exact absurd h (Nat.succ_ne_zero n).symm

end ResponseTypes.Tracker
