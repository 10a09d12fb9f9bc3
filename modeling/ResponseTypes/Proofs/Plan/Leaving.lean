import ResponseTypes.Proofs.Plan.Answering
import ResponseTypes.Proofs.Plan.Sealing
import ResponseTypes.Proofs.Tracker.Restored

/-!
# Scopes that failures leave open

Whatever a build does leaves the scopes open that were open before (`Leaving`, `rules_leaving`).  If it succeeds no others are,
so the look at the tracker in the end of a build never finds one (`runOn_generateAll`).  A failure leaves the scopes open that
were opened meanwhile: an artifact that cannot be built, and a result that cannot be computed, leave at least their own
(`artifact_leaves_open`, `memoized_leaves_open`).

A block that runs in a scope of its own (`Tracking.inScope`) closes it when it succeeds and hands out its keys (`inScope_ok`).
When it fails, the innermost scope that is open is closed (`inScope_error`).  That is the block's own exactly if the block left
none open above it (`inScope_restores_iff`), which it does if an artifact cannot be built in it (`inScope_artifact_error`).
-/

namespace ResponseTypes.Compile

set_option autoImplicit false

open Tracker (fileAfter)

variable {α β : Type} {n m k : ℕ} {act : Step α} {s s' s₁ : State} {given : Option String} {a : α} {e : Failure}

/-! ## Steps and the scopes below -/

/-- A step closes none of the scopes that are open below `n` others.  If it succeeds, `m` are open above them. -/
def Spans (n m : ℕ) (act : Step α) : Prop :=
  ∀ s inner outer, s.tracker.scopes = inner ++ outer → inner.length = n →
    ∃ inner' outer', (act.runOn s).2.tracker.scopes = inner' ++ outer' ∧ KeptScopes outer outer' ∧
      ∀ a, (act.runOn s).1 = .ok a → inner'.length = m

/-- A step leaves the scopes open that are open, and others above them only if it fails. -/
def Leaving (act : Step α) : Prop :=
  Spans 0 0 act

theorem Leaving.scopes (h : Leaving act) (s : State) :
    ∃ left kept, (act.runOn s).2.tracker.scopes = left ++ kept ∧ KeptScopes s.tracker.scopes kept ∧
      ∀ a, (act.runOn s).1 = .ok a → left = [] := by
  obtain ⟨left, kept, hscopes, hkept, hok⟩ := h s [] _ rfl rfl
  exact ⟨left, kept, hscopes, hkept, fun a ha => List.length_eq_zero_iff.1 (hok a ha)⟩

/-- Scopes that are open above the others stay open too. -/
theorem Leaving.spans (h : Leaving act) (n : ℕ) : Spans n n act := by
  intro s inner outer hscopes hn
  obtain ⟨left, kept, hafter, hkept, hok⟩ := h.scopes s
  rw [hscopes] at hkept
  obtain ⟨inner', outer', rfl, hinner, houter⟩ := hkept.split
  refine ⟨left ++ inner', outer', by rw [hafter, List.append_assoc], houter, fun a ha => ?_⟩
  rw [hok a ha, List.nil_append, ← hn]
  exact hinner.length_eq

theorem spans_bind {f : α → Step β} (h : Spans n m act) (hf : ∀ a, Spans m k (f a)) : Spans n k (act >>= f) := by
  intro s inner outer hscopes hn
  obtain ⟨inner₁, outer₁, hscopes₁, hkept, hm⟩ := h s inner outer hscopes hn
  rw [runOn_bind]
  rcases hrun : act.runOn s with ⟨e | a, s₁⟩ <;> rw [hrun] at hscopes₁ hm
  · exact ⟨inner₁, outer₁, hscopes₁, hkept, fun _ => nofun⟩
  · obtain ⟨inner₂, outer₂, hscopes₂, hkept₂, hk⟩ := hf a s₁ inner₁ outer₁ hscopes₁ (hm a rfl)
    exact ⟨inner₂, outer₂, hscopes₂, hkept.trans hkept₂, hk⟩

/-- A step that does not change the tracker. -/
theorem spans_of_tracker (h : ∀ s, (act.runOn s).2.tracker = s.tracker) (n : ℕ) : Spans n n act :=
  fun s inner outer hscopes hn => ⟨inner, outer, by rw [h, hscopes], .refl outer, fun _ _ => hn⟩

/-- A call of the tracker. -/
theorem spans_call {f : Tracker → Except Failure (α × Tracker)} {c : Tracker.Call}
    (hf : ∀ t a t', f t = .ok (a, t') → t.next c = t') (hlevel : c.level? n = some m) :
    Spans n m ((Tracks.tracker : Part State Tracker).step f) := by
  rintro s inner outer hscopes rfl
  unfold Action.runOn Part.step
  cases hrun : f (Tracks.tracker.get s) with
  | error e => exact ⟨inner, outer, hscopes, .refl outer, fun _ => nofun⟩
  | ok r =>
    obtain ⟨inner', outer', hafter, hm, hkept⟩ := Tracker.kept_next hscopes hlevel
    have hnext : s.tracker.next c = r.2 := hf _ r.1 r.2 hrun
    rw [hnext] at hafter
    exact ⟨inner', outer', hafter, hkept, fun _ _ => hm⟩

theorem spans_start (given : Option String) (n : ℕ) : Spans n (n + 1) (Tracking.start given : Step Unit) := by
  rintro s inner outer hscopes rfl
  obtain ⟨inner', outer', hafter, hm, hkept⟩ := Tracker.kept_next (c := .start given) hscopes rfl
  exact ⟨inner', outer', hafter, hkept, fun _ _ => hm⟩

theorem spans_add (d : Dependency) (n : ℕ) : Spans n n (Tracking.add d : Step Unit) := by
  refine spans_call (c := .add d) (fun t a t' h => ?_) rfl
  rw [Tracker.next, Tracker.call]
  cases hadd : t.add d <;> rw [hadd] at h <;> cases h
  rfl

theorem spans_merge (keys : List String) (file : Option String) (n : ℕ) :
    Spans n n (Tracking.merge keys file : Step Unit) := by
  refine spans_call (c := .merge keys file) (fun t a t' h => ?_) rfl
  rw [Tracker.next, Tracker.call]
  cases hmerge : t.merge keys file <;> rw [hmerge] at h <;> cases h
  rfl

theorem spans_finish (n : ℕ) : Spans (n + 1) n (Tracking.finish : Step (List String)) :=
  spans_call (c := .finish) (fun t a t' h => by rw [Tracker.next, Tracker.call, h]) rfl

/-! ## What a build does -/

theorem leaving_bind {f : α → Step β} (h : Leaving act) (hf : ∀ a, Leaving (f a)) : Leaving (act >>= f) :=
  spans_bind h hf

theorem leaving_pure (a : α) : Leaving (pure a : Step α) := spans_of_tracker (fun _ => rfl) 0

theorem leaving_fail (e : Failure) : Leaving (Action.fail e : Step α) := spans_of_tracker (fun _ => rfl) 0

theorem leaving_read (p : Part State α) : Leaving p.read := spans_of_tracker (fun _ => rfl) 0

theorem sequential_leaving : Sequential fun act => Leaving act where
  pure := leaving_pure
  fail := leaving_fail
  read := leaving_read
  bind := leaving_bind

theorem leaving_modify {p : Part State α} (hp : ∀ a s, (p.set a s).tracker = s.tracker) (f : α → α) :
    Leaving (p.modify f) := by
  refine spans_of_tracker (fun s => ?_) 0
  rw [runOn_modify]
  exact hp _ s

theorem leaving_marking {marks : Part State (List String)} (hmarks : QuietPart marks) (name : String) (h : Leaving act) :
    Leaving (marking marks name act) := by
  intro s inner outer hscopes hn
  rw [runOn_marking, hmarks.tracker]
  exact h _ inner outer (by rw [hmarks.tracker, hscopes]) hn

theorem leaving_within (given : Option String) (f : α → List String → β) (h : Leaving act) : Leaving (do
    Tracking.start given
    let a ← act
    let keys ← Tracking.finish
    return f a keys) := by
  refine spans_bind (spans_start given 0) fun _ => spans_bind (h.spans 1) fun a => ?_
  exact spans_bind (spans_finish 0) fun keys => leaving_pure _

theorem leaving_memoized {κ : Type} [DecidableEq κ] {memo : Part State (Memo κ α)}
    (hmemo : ∀ m s, (memo.set m s).tracker = s.tracker) (enabled : Bool) (key : κ) (h : Leaving act) :
    Leaving (Memo.memoized memo enabled key act) := by
  unfold Memo.memoized
  split
  · exact h
  · refine leaving_bind (leaving_read memo) fun entries => ?_
    split
    · refine leaving_bind (leaving_modify hmemo _) fun _ => ?_
      exact leaving_bind (spans_merge _ _ 0) fun _ => leaving_pure _
    · refine leaving_bind (leaving_modify hmemo _) fun _ => ?_
      refine spans_bind (spans_start none 0) fun _ => spans_bind (spans_of_tracker (fun _ => rfl) 1) fun file => ?_
      refine spans_bind (h.spans 1) fun a => spans_bind (spans_finish 0) fun keys => ?_
      exact leaving_bind (leaving_modify hmemo _) fun _ => leaving_pure a

theorem leaving_artifact (kind : ArtifactKind) (key : String) (given : Option String) {build : Step Draft}
    (h : Leaving build) : Leaving (artifact kind key given build) := by
  unfold artifact Store.generateOnce Store.generate
  refine leaving_bind (leaving_read _) fun store => ?_
  split
  · exact sequential_leaving.reuse (fun keys file => spans_merge keys file 0) _
  · refine spans_bind (spans_start given 0) fun _ => spans_bind (spans_of_tracker (fun _ => rfl) 1) fun file => ?_
    refine spans_bind (h.spans 1) fun draft => spans_bind (spans_add _ 1) fun _ => spans_bind (spans_finish 0) fun keys => ?_
    refine leaving_bind (leaving_modify (fun _ _ => rfl) _) fun _ => ?_
    exact leaving_bind (spans_of_tracker (fun _ => rfl) 0) fun _ => leaving_pure _

theorem answering_leaving (c : Setup) : Answering c (fun _ _ => True) fun _ act => Leaving act where
  pure _ a := leaving_pure a
  failHere _ e := sequential_leaving.failHere e
  bind := leaving_bind
  count _ _ := leaving_modify mutePart_counters.tracker _
  use _ _ := spans_add _ 0
  leads _ := trivial
  leadsOn _ _ := trivial
  self _ _ _ := spans_add _ 0
  shape key _ h := leaving_memoized (fun _ _ => rfl) c.cached key h
  code type _ h := leaving_memoized (fun _ _ => rfl) c.cached type h
  declared d _ _ h := leaving_artifact _ _ none (markingInput_of (leaving_marking mutePart_inputMarks.toQuietPart) d h)

/-- All that a build does leaves the scopes open that are open. -/
theorem rules_leaving (c : Setup) : Rules c fun _ act => Leaving act where
  pure _ a := leaving_pure a
  fail _ e := leaving_fail e
  failHere _ e := sequential_leaving.failHere e
  bind := leaving_bind
  read _ p := leaving_read p
  modify _ _ hp f := leaving_modify hp.tracker f
  skipped _ _ _ := leaving_modify (fun _ _ => rfl) _
  keepFields {_ _ f} _ _ fields := sequential_leaving.keepFields (leaving_modify fun _ _ => rfl) f fields
  attributeFields _ name := sequential_leaving.attributeFields (leaving_modify fun _ _ => rfl) name
  inScope given _ f h := leaving_within given f h
  artifact given _ _ h := leaving_artifact _ _ given h
  marking hmarks name _ h := leaving_marking hmarks.toQuietPart name h
  again _ name := sequential_leaving.fragmentInProgress (fun keys file => spans_merge keys file 0) name
  perform hstack h _ := (answering_leaving c).perform hstack h _

/-! ## Builds -/

/-- The look at the tracker in the end of a build finds no scope open, if none was before. -/
theorem runOn_generateAll (c : Setup) (skipUnused : Bool) (documents : Assoc String GraphQL.Document)
    (operations : Assoc String CollectedOperation) (hs : s.tracker.scopes = []) :
    (Workspace.generateAll c skipUnused documents operations).runOn s = (do
      if !skipUnused then Workspace.generateFragments c documents
      Workspace.generateOperations c documents operations : Step (Assoc String CollectedOperation)).runOn s := by
  have hrules := (rules_leaving c).builds
  have hlast : ∀ s : State, s.tracker.scopes = [] → (do
      let after ← Workspace.generateOperations c documents operations
      let tracker ← Tracks.tracker.read
      if tracker.hasOpenScope then Action.fail (.scopesLeftOpen (some tracker.currentFile)) else pure after :
        Step (Assoc String CollectedOperation)).runOn s =
      (Workspace.generateOperations c documents operations).runOn s := by
    intro s hs
    obtain ⟨left, kept, hscopes, hkept, hok⟩ := (hrules.generateOperations documents operations).scopes s
    rw [hs] at hkept
    rw [runOn_bind]
    rcases hrun : (Workspace.generateOperations c documents operations).runOn s with ⟨e | after, s'⟩
    · rfl
    · rw [hrun] at hscopes hok
      rw [hok after rfl, List.forall₂_nil_left_iff.1 hkept] at hscopes
      dsimp only
      rw [runOn_bind, runOn_read]
      dsimp only
      have hclosed : (Tracks.tracker.get s' : Tracker).hasOpenScope = false := by
        rw [Tracker.hasOpenScope, show (Tracks.tracker.get s' : Tracker).scopes = [] from hscopes]
        rfl
      rw [hclosed]
      rfl
  unfold Workspace.generateAll
  split
  · obtain ⟨left, kept, hscopes, hkept, hok⟩ := (hrules.generateFragments documents).scopes s
    rw [hs] at hkept
    rw [runOn_bind, runOn_bind]
    rcases hrun : (Workspace.generateFragments c documents).runOn s with ⟨e | _, s'⟩
    · rfl
    · rw [hrun] at hscopes hok
      rw [hok () rfl, List.forall₂_nil_left_iff.1 hkept] at hscopes
      exact hlast s' hscopes
  · exact hlast s hs

/-! ## Failures -/

section Failures

variable {kind : ArtifactKind} {key : String} {build : Step Draft}

/-- What is done in a scope leaves it open below the scopes that it leaves open itself. -/
theorem Leaving.own (h : Leaving act) (given : Option String) (s : State) :
    ∃ left own below, (act.runOn (opened given s)).2.tracker.scopes = left ++ own :: below ∧
      own.file = fileAfter s.tracker.currentFile given ∧ KeptScopes s.tracker.scopes below ∧
      ∀ a, (act.runOn (opened given s)).1 = .ok a → left = [] := by
  obtain ⟨left, kept, hscopes, hkept, hok⟩ := h.scopes (opened given s)
  obtain ⟨own, hown, hfile, -⟩ := s.tracker.start_scopes given
  rw [show (opened given s).tracker.scopes = own :: s.tracker.scopes from hown] at hkept
  cases hkept with
  | cons hgrows hbelow => exact ⟨left, _, _, hscopes, hgrows.file.trans hfile, hbelow, hok⟩

/-- An artifact that cannot be built leaves its scope open. -/
theorem artifact_leaves_open (h : Leaving build) (hget : Assoc.get? s.store (kind, key) = none)
    (hfail : (build.runOn (opened given s)).1 = .error e) :
    ∃ left own below, ((artifact kind key given build).runOn s).2.tracker.scopes = left ++ own :: below ∧
      own.file = fileAfter s.tracker.currentFile given ∧ KeptScopes s.tracker.scopes below := by
  obtain ⟨left, own, below, hscopes, hfile, hkept, -⟩ := h.own given s
  obtain ⟨s', hrun⟩ := runOn_eq_of_fst hfail
  rw [hrun] at hscopes
  rw [runOn_artifact_miss hget, runOn_bind, hrun]
  exact ⟨left, own, below, hscopes, hfile, hkept⟩

/-- So does a result that cannot be computed. -/
theorem memoized_leaves_open {κ : Type} [DecidableEq κ] {memo : Part State (Memo κ α)} {key : κ}
    (hmemo : ∀ m s, (memo.set m s).tracker = s.tracker) (h : Leaving act)
    (hget : Assoc.get? (memo.get s).entries key = none) (hfail : (act.runOn (missed memo s)).1 = .error e) :
    ∃ left own below, ((Memo.memoized memo true key act).runOn s).2.tracker.scopes = left ++ own :: below ∧
      own.file = s.tracker.currentFile ∧ KeptScopes s.tracker.scopes below := by
  obtain ⟨left, own, below, hscopes, hfile, hkept, -⟩ :=
    h.own none (memo.set { memo.get s with misses := (memo.get s).misses + 1 } s)
  rw [hmemo] at hfile hkept
  obtain ⟨s', hrun⟩ := runOn_eq_of_fst hfail
  rw [runOn_memoized_error hget hrun]
  exact ⟨left, own, below, (congrArg (·.2.tracker.scopes) hrun).symm.trans hscopes, hfile, hkept⟩

end Failures

/-! ## Blocks in scopes of their own -/

/-- Closing a scope when some are open. -/
theorem exists_finish {t : Tracker} {own : Scope} {below : List Scope} (hscopes : t.scopes = own :: below) :
    ∃ t', t.finish = .ok (t.closingKeys own, t') ∧ KeptScopes below t'.scopes := by
  rw [Tracker.finish, hscopes]
  cases below with
  | nil => exact ⟨_, rfl, .refl []⟩
  | cons outer rest => exact ⟨_, rfl, .recordAll (outer :: rest) _⟩

theorem runOn_finish_cons {own : Scope} {below : List Scope} (hscopes : s.tracker.scopes = own :: below) :
    ∃ s', (Tracking.finish : Step (List String)).runOn s = (.ok (s.tracker.closingKeys own), s') ∧
      KeptScopes below s'.tracker.scopes := by
  obtain ⟨t, hfinish, hkept⟩ := exists_finish hscopes
  exact ⟨_, runOn_finish hfinish, hkept⟩

theorem runOn_inScope (given : Option String) (act : Step α) (s : State) :
    (Tracking.inScope given act : Step (α × List String)).runOn s = match act.runOn (opened given s) with
      | (.ok a, s') => (do return (a, ← Tracking.finish) : Step (α × List String)).runOn s'
      | (.error e, s') => (do let _ ← Tracking.finish; Action.fail e : Step (α × List String)).runOn s' := by
  have hstart : (Tracking.start given : Step Unit) s = (.ok (), opened given s) := rfl
  unfold Tracking.inScope Action.runOn
  simp only [hstart]
  rcases act (opened given s) with ⟨_ | _, s'⟩ <;> rfl

/-- A block that succeeds closes its scope and hands out the keys of it. -/
theorem inScope_ok (h : Leaving act) (hrun : act.runOn (opened given s) = (.ok a, s₁)) :
    ∃ own below s', s₁.tracker.scopes = own :: below ∧ own.file = fileAfter s.tracker.currentFile given ∧
      KeptScopes s.tracker.scopes below ∧
      (Tracking.inScope given act : Step (α × List String)).runOn s = (.ok (a, s₁.tracker.closingKeys own), s') ∧
      KeptScopes below s'.tracker.scopes := by
  obtain ⟨left, own, below, hscopes, hfile, hkept, hok⟩ := h.own given s
  rw [hrun] at hscopes hok
  rw [hok a rfl, List.nil_append] at hscopes
  obtain ⟨s', hfinish, hkept'⟩ := runOn_finish_cons hscopes
  refine ⟨own, below, s', hscopes, hfile, hkept, ?_, hkept'⟩
  rw [runOn_inScope, hrun]
  dsimp only
  rw [runOn_bind, hfinish]
  rfl

/-- A block that fails closes the innermost of the scopes that it has left open above its own, or its own if there is none. -/
theorem inScope_error (h : Leaving act) (hrun : act.runOn (opened given s) = (.error e, s₁)) :
    ∃ left own below s', s₁.tracker.scopes = left ++ own :: below ∧ own.file = fileAfter s.tracker.currentFile given ∧
      KeptScopes s.tracker.scopes below ∧
      (Tracking.inScope given act : Step (α × List String)).runOn s = (.error e, s') ∧
      KeptScopes (left ++ own :: below).tail s'.tracker.scopes := by
  obtain ⟨left, own, below, hscopes, hfile, hkept, -⟩ := h.own given s
  rw [hrun] at hscopes
  obtain ⟨s', hclosed, hkept'⟩ : ∃ s', (do let _ ← Tracking.finish; Action.fail e : Step (α × List String)).runOn s₁ =
      (.error e, s') ∧ KeptScopes (left ++ own :: below).tail s'.tracker.scopes := by
    cases left with
    | nil =>
      obtain ⟨s', hfinish, hkept'⟩ := runOn_finish_cons hscopes
      exact ⟨s', by rw [runOn_bind, hfinish]; rfl, hkept'⟩
    | cons top rest =>
      obtain ⟨s', hfinish, hkept'⟩ := runOn_finish_cons hscopes
      exact ⟨s', by rw [runOn_bind, hfinish]; rfl, hkept'⟩
  refine ⟨left, own, below, s', hscopes, hfile, hkept, ?_, hkept'⟩
  rw [runOn_inScope, hrun]
  exact hclosed

theorem leaving_inScope (given : Option String) (h : Leaving act) :
    Leaving (Tracking.inScope given act : Step (α × List String)) := by
  intro s inner outer hscopes hn
  rw [List.length_eq_zero_iff.1 hn, List.nil_append] at hscopes
  subst hscopes
  rcases hrun : act.runOn (opened given s) with ⟨e | a, s₁⟩
  · obtain ⟨left, own, below, s', -, -, hbelow, hblock, hkept⟩ := inScope_error h hrun
    rw [hblock]
    cases left with
    | nil => exact ⟨[], _, rfl, hbelow.trans hkept, fun _ => nofun⟩
    | cons top rest =>
      rw [List.cons_append, List.tail_cons, List.append_cons] at hkept
      obtain ⟨inner', outer', hscopes, -, hkept⟩ := hkept.split
      exact ⟨inner', outer', hscopes, hbelow.trans hkept, fun _ => nofun⟩
  · obtain ⟨own, below, s', -, -, hbelow, hblock, hkept⟩ := inScope_ok h hrun
    rw [hblock]
    exact ⟨[], _, rfl, hbelow.trans hkept, fun _ _ => rfl⟩

/-- Whether a block succeeds or fails, the scopes are restored that were open before it exactly if it leaves none open above
its own. -/
theorem inScope_restores_iff (h : Leaving act) (given : Option String) (s : State) :
    KeptScopes s.tracker.scopes ((Tracking.inScope given act : Step (α × List String)).runOn s).2.tracker.scopes ↔
      (act.runOn (opened given s)).2.tracker.scopes.length = s.tracker.scopes.length + 1 := by
  rcases hrun : act.runOn (opened given s) with ⟨e | a, s₁⟩
  · obtain ⟨left, own, below, s', hscopes, -, hbelow, hblock, hkept⟩ := inScope_error h hrun
    rw [hblock, hscopes, List.length_append, List.length_cons, hbelow.length_eq]
    cases left with
    | nil => exact iff_of_true (hbelow.trans hkept) (Nat.zero_add _)
    | cons top rest =>
      refine iff_of_false (fun hrestored => ?_) (by rw [List.length_cons]; omega)
      have hsame := hrestored.length_eq.symm.trans hkept.length_eq
      rw [List.cons_append, List.tail_cons, List.length_append, List.length_cons, hbelow.length_eq] at hsame
      omega
  · obtain ⟨own, below, s', hscopes, -, hbelow, hblock, hkept⟩ := inScope_ok h hrun
    rw [hblock, hscopes, List.length_cons, hbelow.length_eq]
    exact iff_of_true (hbelow.trans hkept) rfl

/-- So they are not restored after an artifact that cannot be built: the scope of the block stays open. -/
theorem inScope_artifact_error {kind : ArtifactKind} {key : String} {build : Step Draft} {inner : Option String}
    (h : Leaving build) (hget : Assoc.get? s.store (kind, key) = none)
    (hfail : (build.runOn (opened inner (opened given s))).1 = .error e) :
    ¬KeptScopes s.tracker.scopes
      ((Tracking.inScope given (artifact kind key inner build) : Step (String × List String)).runOn s).2.tracker.scopes := by
  rw [inScope_restores_iff (leaving_artifact kind key inner h)]
  obtain ⟨left, own, below, hscopes, -, hkept⟩ := artifact_leaves_open (s := opened given s) h hget hfail
  obtain ⟨block, hopened, -⟩ := s.tracker.start_scopes given
  have hbelow : below.length = s.tracker.scopes.length + 1 := by
    rw [hkept.length_eq]
    exact congrArg List.length hopened
  rw [hscopes, List.length_append, List.length_cons, hbelow]
  omega

end ResponseTypes.Compile
