import ResponseTypes.Proofs.Tracker.Calls

/-!
# What is restored when a scope is closed

The scopes that are open below some calls stay open, with their files, as long as the calls close no scope but those that
they open (`Tracker.kept_next`, `Tracker.kept_after`).  The file of the innermost scope is current at every point
(`Tracker.Settled.after`).  So closing a scope restores the scopes and the file that were there when it was opened
(`Tracker.finish_restores`), unless it was the outermost one: then its file stays current, and the next scope that is opened
without a file inherits it (`Tracker.start_inherits`).
-/

namespace ResponseTypes

set_option autoImplicit false

/-- The same scopes with the same files; keys may have been recorded in them. -/
def KeptScopes (before after : List Scope) : Prop :=
  List.Forall₂ (Scope.Grows fun _ => True) before after

namespace KeptScopes

variable {a b d : List Scope}

theorem refl (l : List Scope) : KeptScopes l l :=
  List.forall₂_same.2 fun s _ => (Scope.Grows.refl s).mono fun _ => False.elim

theorem cons {s s' : Scope} (hs : s.Grows (fun _ => True) s') (h : KeptScopes a b) : KeptScopes (s :: a) (s' :: b) :=
  List.Forall₂.cons hs h

theorem trans (h : KeptScopes a b) (h' : KeptScopes b d) : KeptScopes a d := by
  induction h generalizing d with
  | nil => exact h'
  | cons hab _ ih =>
    cases h' with
    | cons hbd hrest => exact .cons ((hab.trans hbd).mono fun _ _ => trivial) (ih hrest)

theorem recordAll (l : List Scope) (keys : List String) : KeptScopes l (l.map (·.recordAll keys)) :=
  List.forall₂_map_right_iff.2 <| List.forall₂_same.2 fun s _ => .recordAll s fun _ _ => trivial

theorem record (s : Scope) (k : String) (l : List Scope) : KeptScopes (s :: l) (s.record k :: l) := by
  have hgrows : s.Grows (fun _ => True) (s.recordAll [k]) := .recordAll s fun _ _ => trivial
  exact .cons hgrows (refl l)

/-- Of scopes that are kept, those above are kept and those below. -/
theorem split {l : List Scope} (h : KeptScopes (a ++ b) l) :
    ∃ a' b', l = a' ++ b' ∧ KeptScopes a a' ∧ KeptScopes b b' := by
  have habove := List.forall₂_take a.length h
  have hbelow := List.forall₂_drop a.length h
  rw [List.take_left] at habove
  rw [List.drop_left] at hbelow
  exact ⟨_, _, (List.take_append_drop a.length l).symm, habove, hbelow⟩

theorem length_eq (h : KeptScopes a b) : b.length = a.length := (List.Forall₂.length_eq h).symm

end KeptScopes

namespace Tracker

variable {t : Tracker} {c : Call} {calls : List Call} {inner outer : List Scope} {n : ℕ}

/-! ## The scopes below -/

/-- A call that closes no scope of those below leaves them open. -/
theorem kept_next (hscopes : t.scopes = inner ++ outer) (hlevel : c.level? inner.length = some n) :
    ∃ inner' outer', (t.next c).scopes = inner' ++ outer' ∧ inner'.length = n ∧ KeptScopes outer outer' := by
  have hadd : ∀ d : Dependency, ∃ inner' outer', (t.next (.add d)).scopes = inner' ++ outer' ∧
      inner'.length = inner.length ∧ KeptScopes outer outer' := by
    intro d
    rw [next_add]
    cases inner with
    | nil =>
      rw [hscopes]
      cases outer with
      | nil => exact ⟨[], [], hscopes, rfl, .refl []⟩
      | cons s rest =>
        dsimp only [List.nil_append]
        split
        · exact ⟨[], s.record d.key :: rest, rfl, rfl, .record s d.key rest⟩
        · exact ⟨[], s :: rest, hscopes, rfl, .refl _⟩
    | cons top rest =>
      rw [hscopes]
      dsimp only [List.cons_append]
      split
      · exact ⟨top.record d.key :: rest, outer, rfl, rfl, .refl outer⟩
      · exact ⟨top :: rest, outer, hscopes, rfl, .refl outer⟩
  cases c with
  | start given =>
    cases hlevel
    obtain ⟨top, htop, -⟩ := t.start_scopes given
    exact ⟨top :: inner, outer, by rw [next_start, htop, hscopes]; rfl, rfl, .refl outer⟩
  | add d =>
    cases hlevel
    exact hadd d
  | use fragment =>
    cases hlevel
    exact hadd _
  | merge keys file =>
    cases hlevel
    rw [next_merge, hscopes]
    exact ⟨_, _, List.map_append, List.length_map _, .recordAll outer _⟩
  | finish =>
    cases inner with
    | nil => cases hlevel
    | cons top rest =>
      cases hlevel
      refine ⟨rest.map (·.recordAll ((t.closingKeys top).filter t.records)), _, ?_, List.length_map _,
        .recordAll outer ((t.closingKeys top).filter t.records)⟩
      rw [← List.map_append, next_finish, hscopes]
      cases hrest : rest ++ outer <;> rw [List.cons_append, hrest]
      rfl
  | reset => cases hlevel

/-- So do calls that close no scope but those that they open, and those that are open above. -/
theorem kept_after (hscopes : t.scopes = inner ++ outer) (hlevel : level? inner.length calls = some n) :
    ∃ inner' outer', (t.after calls).scopes = inner' ++ outer' ∧ inner'.length = n ∧ KeptScopes outer outer' := by
  induction calls generalizing t inner outer with
  | nil =>
    cases hlevel
    exact ⟨inner, outer, hscopes, rfl, .refl outer⟩
  | cons c rest ih =>
    rw [level?_cons] at hlevel
    obtain ⟨m, hc, hrest⟩ := Option.bind_eq_some_iff.1 hlevel
    obtain ⟨inner₁, outer₁, hnext, rfl, hkept⟩ := kept_next hscopes hc
    obtain ⟨inner₂, outer₂, hafter, hlength, hkept'⟩ := ih hnext hrest
    exact ⟨inner₂, outer₂, hafter, hlength, hkept.trans hkept'⟩

/-! ## The current file -/

/-- The file of the innermost scope is current, if a scope is open. -/
def Settled (t : Tracker) : Prop :=
  ∀ s ∈ t.scopes.head?, s.file = t.currentFile

theorem settled_initial (enabled : Bool) : (initial enabled).Settled := nofun

theorem Settled.next (h : t.Settled) (c : Call) : (t.next c).Settled := by
  have hadd : ∀ d, (t.next (.add d)).Settled := by
    intro d
    rw [next_add]
    cases hscopes : t.scopes with
    | nil => exact h
    | cons s rest =>
      dsimp only
      split
      · rintro _ ⟨⟩
        rw [Scope.record_file]
        exact h s (by rw [hscopes]; rfl)
      · exact h
  cases c with
  | start given =>
    obtain ⟨s, hscopes, hfile, hcurrent, -⟩ := t.start_scopes given
    rw [next_start, Settled, hscopes, hcurrent]
    rintro _ ⟨⟩
    exact hfile
  | add d => exact hadd d
  | use fragment => exact hadd _
  | merge keys file =>
    rw [next_merge]
    intro s hs
    rw [List.head?_map] at hs
    obtain ⟨s', hs', rfl⟩ := Option.map_eq_some_iff.1 hs
    exact (Scope.recordAll_file s' _).trans (h s' hs')
  | finish =>
    rw [next_finish]
    cases hscopes : t.scopes with
    | nil => exact h
    | cons s rest =>
      cases rest with
      | nil => nofun
      | cons outer rest =>
        rintro _ ⟨⟩
        exact Scope.recordAll_file outer _
  | reset => nofun

/-- Whatever is called, the file of the innermost scope is current. -/
theorem Settled.after (h : t.Settled) (calls : List Call) : (t.after calls).Settled := by
  induction calls generalizing t with
  | nil => exact h
  | cons c rest ih => exact ih (h.next c)

/-! ## Closing a scope -/

/-- A scope that is opened is the innermost one again after balanced calls, with its file, above the scopes below it. -/
theorem scopes_before_finish (given : Option String) (hcalls : Balanced calls) :
    ∃ s outer, ((t.start given).after calls).scopes = s :: outer ∧ s.file = fileAfter t.currentFile given ∧
      KeptScopes t.scopes outer := by
  obtain ⟨s, hscopes, hfile, -⟩ := t.start_scopes given
  have hopened : (t.start given).scopes = [] ++ s :: t.scopes := hscopes
  obtain ⟨inner, outer, hafter, hinner, hkept⟩ := kept_after hopened hcalls
  rw [List.length_eq_zero_iff.1 hinner, List.nil_append] at hafter
  cases hkept with
  | cons hs hrest => exact ⟨_, _, hafter, hs.file.trans hfile, hrest⟩

/-- Closing a scope leaves the scopes that were open when it was opened, and restores the file that was current then if one
of them was.  After the outermost scope its own file stays current. -/
theorem finish_restores (ht : t.Settled) (given : Option String) (hcalls : Balanced calls) :
    ∃ keys t', ((t.start given).after calls).finish = .ok (keys, t') ∧ KeptScopes t.scopes t'.scopes ∧
      t'.currentFile = if t.scopes = [] then fileAfter t.currentFile given else t.currentFile := by
  obtain ⟨s, outer, hscopes, hfile, hkept⟩ := t.scopes_before_finish given hcalls
  have hsettled : ((t.start given).after calls).Settled := (ht.next (.start given)).after calls
  rw [finish, hscopes]
  cases hbelow : t.scopes with
  | nil =>
    rw [hbelow] at hkept
    cases hkept
    refine ⟨_, _, rfl, .nil, ?_⟩
    rw [if_pos rfl, ← hfile]
    exact (hsettled s (by rw [hscopes]; rfl)).symm
  | cons b below =>
    rw [hbelow] at hkept
    cases hkept with
    | cons hb hrest =>
      refine ⟨_, _, rfl, (KeptScopes.cons hb hrest).trans (.recordAll _ _), ?_⟩
      rw [if_neg (List.cons_ne_nil b below), ← ht b (by rw [hbelow]; rfl)]
      exact hb.file

/-- A scope that is opened without a file after the outermost one has been closed inherits the file of that one. -/
theorem start_inherits (ht : t.Settled) (hclosed : t.scopes = []) (given : Option String) (hcalls : Balanced calls) :
    ∃ keys t', ((t.start given).after calls).finish = .ok (keys, t') ∧
      (t'.start none).scopes = [⟨fileAfter t.currentFile given, []⟩] := by
  obtain ⟨keys, t', hfinish, hkept, hcurrent⟩ := finish_restores ht given hcalls
  rw [hclosed] at hkept
  rw [if_pos hclosed] at hcurrent
  refine ⟨keys, t', hfinish, ?_⟩
  rw [start, ← hcurrent, List.forall₂_nil_left_iff.1 hkept]

/-- After `start("a.graphql")` and `end()`, the scope that `start()` opens returns the key of `a.graphql`. -/
example : ((initial true).after [.start (some "a.graphql"), .finish, .start none]).answer .finish =
    .ok [Dependency.fileKey "a.graphql"] := by rfl

end Tracker

end ResponseTypes
