import ResponseTypes.Proofs.Text.Distinct
import ResponseTypes.Proofs.Tracker.Calls

/-!
# What a scope returns

A scope that is opened and closed again returns the key of its file, what is added while it is the innermost, what is merged
while it is open, and what the scopes return that are opened and closed in it (`Tracker.Recorded`), each key once and in the
order in which they are first recorded (`Tracker.keysOf`).

One call records its keys at the end of those that the scope has (`Tracker.scopes_next`), and so do all calls until it is
closed (`Tracker.scopes_after`).
-/

namespace ResponseTypes

set_option autoImplicit false

open Dependency (fileKey fragmentUseKey)
open Text (distinct)

namespace Scope

variable {s : Scope} {l : List String}

theorem keys_record (h : s.keys = distinct l) (k : String) : (s.record k).keys = distinct (l ++ [k]) := by
  have hk : k ∈ s.keys ↔ k ∈ l := by rw [h, Text.mem_distinct]
  rw [Text.distinct_append_singleton, ← h, record]
  by_cases hl : k ∈ l
  · rw [if_pos hl, if_pos (hk.2 hl)]
  · rw [if_neg hl, if_neg (mt hk.1 hl)]

theorem keys_recordAll (h : s.keys = distinct l) (keys : List String) : (s.recordAll keys).keys = distinct (l ++ keys) := by
  induction keys generalizing s l with
  | nil => rwa [List.append_nil]
  | cons k rest ih =>
    rw [recordAll, List.foldl_cons, ← recordAll, ih (keys_record h k), List.append_assoc, List.singleton_append]

theorem recordAll_append (s : Scope) (keys more : List String) :
    s.recordAll (keys ++ more) = (s.recordAll keys).recordAll more :=
  List.foldl_append

end Scope

namespace Tracker

/-- The key that is recorded when a scope is opened. -/
def openingKeys : Option String → List String
  | none | some "" => []
  | some file => [fileKey file]

/-- The keys that a call records in the scope that is the `height`-th from the outermost: what is added reaches the innermost
scope alone; what is merged, and what is returned by a scope in it, reaches every one. -/
def heard (t : Tracker) (height : ℕ) : Call → List String
  | .add d => if t.scopes.length = height then [d.key] else []
  | .use fragment => if t.scopes.length = height then [fragmentUseKey fragment] else []
  | .merge keys file => t.mergedKeys keys file
  | .finish => match t.finish with
    | .ok (keys, _) => keys
    | .error _ => []
  | .start _ | .reset => []

/-- The keys that calls record in a scope, in order. -/
def recordings (t : Tracker) (height : ℕ) : List Call → List String
  | [] => []
  | c :: rest => t.heard height c ++ (t.next c).recordings height rest

/-- All that is recorded in a scope that is opened, until it is closed after some calls: each key once, at the first place.
The key of a file that the scope inherits is recorded when it is closed. -/
def keysOf (t : Tracker) (given : Option String) (calls : List Call) : List String :=
  distinct (openingKeys given ++ (t.start given).recordings (t.scopes.length + 1) calls ++
    [fileKey (fileAfter t.currentFile given)])

/-- The scope that is opened returns the keys when it is closed after some calls. -/
def Returns (t : Tracker) (given : Option String) (calls : List Call) (keys : List String) : Prop :=
  ((t.start given).after calls).answer .finish = .ok keys

/-- The keys that a scope has recorded which is opened, and closed after some calls. -/
inductive Recorded (t : Tracker) (given : Option String) (calls : List Call) : String → Prop
  /-- the key of its file, which is the one that is given or the current one -/
  | file : Recorded t given calls (fileKey (fileAfter t.currentFile given))
  /-- what is added while it is the innermost scope -/
  | added {before after : List Call} {d : Dependency} : calls = before ++ .add d :: after → Balanced before →
      Recorded t given calls d.key
  | used {before after : List Call} {fragment : String} : calls = before ++ .use fragment :: after → Balanced before →
      Recorded t given calls (fragmentUseKey fragment)
  /-- what is merged -/
  | merged {before after : List Call} {keys : List String} {file : Option String} {k : String} :
      calls = before ++ .merge keys file :: after → k ∈ keys → Recorded t given calls k
  | mergedFile {before after : List Call} {keys : List String} {file : String} :
      calls = before ++ .merge keys (some file) :: after → file ≠ "" → Recorded t given calls (fileKey file)
  /-- what a scope returns that is opened and closed in it -/
  | returned {before inner after : List Call} {given' : Option String} {keys : List String} {k : String} :
      calls = before ++ .start given' :: (inner ++ .finish :: after) → Balanced inner →
      ((t.start given).after before).Returns given' inner keys → k ∈ keys → Recorded t given calls k

variable {t : Tracker} {c : Call} {calls : List Call} {s : Scope} {inner outer : List Scope} {n height : ℕ} {k : String}
  {given : Option String}

/-! ## One scope -/

/-- A call that does not close a scope records what it hears at the end of its keys. -/
theorem scopes_next (henabled : t.enabled = true) (hscopes : t.scopes = inner ++ s :: outer)
    (hlevel : c.level? inner.length = some n) : ∃ inner' outer', inner'.length = n ∧ outer'.length = outer.length ∧
      (t.next c).scopes = inner' ++ s.recordAll (t.heard (outer.length + 1) c) :: outer' := by
  have hrecords := records_of_enabled henabled
  have hlength : t.scopes.length = inner.length + (outer.length + 1) := by rw [hscopes, List.length_append, List.length_cons]
  have hadd : ∀ d : Dependency, ∃ inner' outer', inner'.length = inner.length ∧ outer'.length = outer.length ∧
      (t.next (.add d)).scopes = inner' ++ s.recordAll (t.heard (outer.length + 1) (.add d)) :: outer' := by
    intro d
    rw [next_add, hscopes, heard, hlength]
    cases inner with
    | nil => exact ⟨[], outer, rfl, rfl, by simp [hrecords, Scope.recordAll]⟩
    | cons top rest =>
      exact ⟨top.record d.key :: rest, outer, rfl, rfl, by simp [hrecords, Scope.recordAll]⟩
  cases c with
  | start given =>
    cases hlevel
    obtain ⟨top, htop, -⟩ := t.start_scopes given
    exact ⟨top :: inner, outer, rfl, rfl, by rw [next_start, htop, hscopes]; rfl⟩
  | add d =>
    cases hlevel
    exact hadd d
  | use fragment =>
    cases hlevel
    exact hadd _
  | merge keys file =>
    cases hlevel
    rw [next_merge, heard, hscopes]
    exact ⟨_, _, List.length_map _, List.length_map _, by rw [List.map_append, List.map_cons]⟩
  | finish =>
    cases inner with
    | nil => cases hlevel
    | cons top rest =>
      cases hlevel
      have hfinish : (t.next .finish).scopes = (rest ++ s :: outer).map (·.recordAll (t.closingKeys top)) := by
        rw [next_finish, hscopes]
        cases rest <;> simp [filter_records henabled]
      have hheard : t.heard (outer.length + 1) .finish = t.closingKeys top := by
        rw [heard, finish, hscopes]
        cases rest <;> rfl
      refine ⟨rest.map (·.recordAll (t.closingKeys top)), outer.map (·.recordAll (t.closingKeys top)), List.length_map _,
        List.length_map _, ?_⟩
      rw [hfinish, hheard, List.map_append, List.map_cons]
  | reset => cases hlevel

/-- So do calls that close no scope but those that they open in it. -/
theorem scopes_after (henabled : t.enabled = true) (hscopes : t.scopes = inner ++ s :: outer)
    (hlevel : level? inner.length calls = some n) : ∃ inner' outer', inner'.length = n ∧ outer'.length = outer.length ∧
      (t.after calls).scopes = inner' ++ s.recordAll (t.recordings (outer.length + 1) calls) :: outer' := by
  induction calls generalizing t inner s outer with
  | nil =>
    cases hlevel
    exact ⟨inner, outer, rfl, rfl, hscopes⟩
  | cons c rest ih =>
    rw [level?_cons] at hlevel
    obtain ⟨m, hc, hrest⟩ := Option.bind_eq_some_iff.1 hlevel
    obtain ⟨inner', outer', rfl, houter, hnext⟩ := scopes_next henabled hscopes hc
    obtain ⟨inner'', outer'', hinner, houter', hafter⟩ := ih ((enabled_next t c).trans henabled) hnext hrest
    refine ⟨inner'', outer'', hinner, houter'.trans houter, ?_⟩
    rw [after_cons, hafter, recordings, Scope.recordAll_append, houter]

/-! ## A scope that is opened -/

theorem scopes_start (henabled : t.enabled = true) (given : Option String) :
    (t.start given).scopes = ⟨fileAfter t.currentFile given, openingKeys given⟩ :: t.scopes := by
  unfold start openingKeys fileAfter
  split <;> simp [henabled]

theorem eq_fileKey_of_mem_openingKeys (h : k ∈ openingKeys given) (current : String) :
    k = fileKey (fileAfter current given) := by
  unfold openingKeys at h
  split at h
  · cases h
  · cases h
  · rename_i file hne
    rw [fileAfter_of_ne hne]
    exact List.mem_singleton.1 h

/-- What is open in and around a scope that was opened, and what the scope has recorded. -/
theorem scopes_opened (henabled : t.enabled = true) (given : Option String) (hcalls : level? 0 calls = some n) :
    ∃ inner outer, inner.length = n ∧ outer.length = t.scopes.length ∧ ((t.start given).after calls).scopes =
      inner ++ (Scope.mk (fileAfter t.currentFile given) (openingKeys given)).recordAll
        ((t.start given).recordings (t.scopes.length + 1) calls) :: outer := by
  have hinnermost : (t.start given).scopes = [] ++ ⟨fileAfter t.currentFile given, openingKeys given⟩ :: t.scopes :=
    scopes_start henabled given
  exact scopes_after ((enabled_next t (.start given)).trans henabled) hinnermost hcalls

theorem enabled_opened (henabled : t.enabled = true) (given : Option String) (calls : List Call) :
    ((t.start given).after calls).enabled = true :=
  (enabled_after _ calls).trans ((enabled_next t (.start given)).trans henabled)

theorem length_opened (henabled : t.enabled = true) (given : Option String) (hcalls : level? 0 calls = some n) :
    ((t.start given).after calls).scopes.length = t.scopes.length + 1 + n := by
  obtain ⟨inner, outer, rfl, houter, hscopes⟩ := scopes_opened henabled given hcalls
  rw [hscopes, List.length_append, List.length_cons, houter, Nat.add_comm]

theorem answer_finish {rest : List Scope} (h : t.scopes = s :: rest) : t.answer .finish = .ok (t.closingKeys s) := by
  rw [answer, call, finish, h]
  cases rest <;> rfl

/-- A scope that is opened and closed returns what was recorded in between, in order. -/
theorem returns_keysOf (henabled : t.enabled = true) (given : Option String) (hcalls : Balanced calls) :
    t.Returns given calls (t.keysOf given calls) := by
  obtain ⟨inner, outer, hinner, -, hscopes⟩ := scopes_opened henabled given hcalls
  rw [List.length_eq_zero_iff.1 hinner, List.nil_append] at hscopes
  have hopening : openingKeys given = distinct (openingKeys given) := by
    unfold openingKeys
    split <;> rfl
  rw [Returns, answer_finish hscopes, closingKeys, if_pos (enabled_opened henabled given calls), Scope.recordAll_file,
    Scope.keys_record (Scope.keys_recordAll hopening _), keysOf]

/-! ## Which keys are recorded -/

theorem mem_recordings : k ∈ t.recordings height calls ↔
    ∃ before c after, calls = before ++ c :: after ∧ k ∈ (t.after before).heard height c := by
  induction calls generalizing t with
  | nil => simp [recordings]
  | cons c rest ih =>
    rw [recordings, List.mem_append, ih]
    constructor
    · rintro (hc | ⟨before, c', after, rfl, hc⟩)
      · exact ⟨[], c, rest, rfl, hc⟩
      · exact ⟨c :: before, c', after, rfl, hc⟩
    · rintro ⟨before, c', after, heq, hc⟩
      cases before with
      | nil =>
        cases heq
        exact Or.inl hc
      | cons _ before =>
        cases heq
        exact Or.inr ⟨before, c', after, rfl, hc⟩

theorem heard_merge (henabled : t.enabled = true) {keys : List String} {file : Option String} :
    k ∈ t.heard height (.merge keys file) ↔ k ∈ keys ∨ ∃ f, file = some f ∧ f ≠ "" ∧ k = fileKey f :=
  mem_mergedKeys.trans (and_iff_left (records_of_enabled henabled k))

theorem mem_heard_finish : k ∈ t.heard height .finish ↔ ∃ keys, t.answer .finish = .ok keys ∧ k ∈ keys := by
  rw [heard, answer, call]
  cases t.finish <;> simp [Except.map]

section Split

variable {before after : List Call}

/-- The calls before one of them stay in the scope. -/
theorem length_before (henabled : t.enabled = true) (hcalls : Balanced (before ++ c :: after)) (given : Option String) :
    ∃ n m, level? 0 before = some n ∧ c.level? n = some m ∧
      ((t.start given).after before).scopes.length = t.scopes.length + 1 + n := by
  rw [Balanced, level?_append] at hcalls
  obtain ⟨n, hn, hrest⟩ := Option.bind_eq_some_iff.1 hcalls
  rw [level?_cons] at hrest
  obtain ⟨m, hm, -⟩ := Option.bind_eq_some_iff.1 hrest
  exact ⟨n, m, hn, hm, length_opened henabled given hn⟩

/-- The scope is the innermost one where the calls before are balanced. -/
theorem innermost_iff (henabled : t.enabled = true) (hcalls : Balanced (before ++ c :: after)) (given : Option String) :
    ((t.start given).after before).scopes.length = t.scopes.length + 1 ↔ Balanced before := by
  obtain ⟨n, -, hn, -, hlength⟩ := length_before henabled hcalls given
  rw [hlength, Balanced, hn, Option.some.injEq]
  exact Nat.add_eq_left

theorem Recorded.of_heard (henabled : t.enabled = true) (hcalls : Balanced (before ++ c :: after))
    (hk : k ∈ ((t.start given).after before).heard (t.scopes.length + 1) c) :
    t.Recorded given (before ++ c :: after) k := by
  cases c with
  | start given => cases hk
  | add d =>
    rw [heard] at hk
    split at hk
    · rename_i hlength
      rw [List.mem_singleton.1 hk]
      exact .added rfl ((innermost_iff henabled hcalls given).1 hlength)
    · cases hk
  | use fragment =>
    rw [heard] at hk
    split at hk
    · rename_i hlength
      rw [List.mem_singleton.1 hk]
      exact .used rfl ((innermost_iff henabled hcalls given).1 hlength)
    · cases hk
  | merge keys file =>
    rcases (heard_merge (enabled_opened henabled given before)).1 hk with hk | ⟨f, rfl, hne, rfl⟩
    · exact .merged rfl hk
    · exact .mergedFile rfl hne
  | finish =>
    -- the scope that is closed was opened in this one
    obtain ⟨keys, hanswer, hkey⟩ := mem_heard_finish.1 hk
    obtain ⟨n, m, hn, hm, hlength⟩ := length_before henabled hcalls given
    cases n with
    | zero => cases hm
    | succ n =>
      have hscope : (t.start given).scopes.length ≤ t.scopes.length + 1 + n := by
        rw [scopes_start henabled given, List.length_cons]
        exact Nat.le_add_right _ n
      obtain ⟨before', given', inner, rfl, hinner, -⟩ := exists_start hscope hlength
      rw [after_append, after_cons, next_start] at hanswer
      have hopened : before' ++ .start given' :: inner ++ .finish :: after =
          before' ++ .start given' :: (inner ++ .finish :: after) := by rw [List.append_assoc, List.cons_append]
      exact .returned hopened hinner hanswer hkey
  | reset => cases hk

end Split

/-- What a scope has recorded is the key of its file, or one of the calls recorded it. -/
theorem Recorded.heard (henabled : t.enabled = true) (hcalls : Balanced calls) (h : t.Recorded given calls k) :
    k = fileKey (fileAfter t.currentFile given) ∨ k ∈ (t.start given).recordings (t.scopes.length + 1) calls := by
  rw [mem_recordings]
  cases h with
  | file => exact Or.inl rfl
  | @added before after d hbody hbalanced =>
    refine Or.inr ⟨before, .add d, after, hbody, ?_⟩
    rw [Tracker.heard, if_pos ((innermost_iff henabled (hbody ▸ hcalls) given).2 hbalanced)]
    exact List.mem_singleton_self _
  | @used before after fragment hbody hbalanced =>
    refine Or.inr ⟨before, .use fragment, after, hbody, ?_⟩
    rw [Tracker.heard, if_pos ((innermost_iff henabled (hbody ▸ hcalls) given).2 hbalanced)]
    exact List.mem_singleton_self _
  | @merged before after keys file _ hbody hk =>
    exact Or.inr ⟨before, .merge keys file, after, hbody,
      (heard_merge (enabled_opened henabled given before)).2 (Or.inl hk)⟩
  | @mergedFile before after keys file hbody hne =>
    exact Or.inr ⟨before, .merge keys (some file), after, hbody,
      (heard_merge (enabled_opened henabled given before)).2 (Or.inr ⟨file, rfl, hne, rfl⟩)⟩
  | @returned before inner after given' keys _ hbody hbalanced hreturns hk =>
    refine Or.inr ⟨before ++ .start given' :: inner, .finish, after, ?_, mem_heard_finish.2 ⟨keys, ?_, hk⟩⟩
    · rw [hbody, List.append_assoc, List.cons_append]
    · rw [after_append, after_cons, next_start]
      exact hreturns

/-- The keys of a scope are those that are recorded in it. -/
theorem mem_keysOf (henabled : t.enabled = true) (hcalls : Balanced calls) :
    k ∈ t.keysOf given calls ↔ t.Recorded given calls k := by
  rw [keysOf, Text.mem_distinct, List.mem_append, List.mem_append, List.mem_singleton]
  constructor
  · rintro ((hk | hk) | rfl)
    · rw [eq_fileKey_of_mem_openingKeys hk t.currentFile]
      exact .file
    · obtain ⟨before, c, after, rfl, hheard⟩ := mem_recordings.1 hk
      exact .of_heard henabled hcalls hheard
    · exact .file
  · intro h
    exact (h.heard henabled hcalls).elim Or.inr fun hk => Or.inl (Or.inr hk)

/-! ## What is returned -/

theorem Returns.eq_keysOf (henabled : t.enabled = true) (hcalls : Balanced calls) {keys : List String}
    (h : t.Returns given calls keys) : keys = t.keysOf given calls :=
  Except.ok.inj (h.symm.trans (returns_keysOf henabled given hcalls))

/-- A scope returns what a scope that is opened and closed in it returns. -/
theorem Returns.subset (henabled : t.enabled = true) {before after : List Call} {given' : Option String} {body : List Call}
    (hcalls : Balanced (before ++ .start given' :: (body ++ .finish :: after))) (hbody : Balanced body)
    {keys keys' : List String} (h : t.Returns given (before ++ .start given' :: (body ++ .finish :: after)) keys)
    (h' : ((t.start given).after before).Returns given' body keys') : keys' ⊆ keys := by
  intro k hk
  rw [h.eq_keysOf henabled hcalls, mem_keysOf henabled hcalls]
  exact .returned rfl hbody h' hk

/-- What is returned when a scope is closed that was not open at first is what a scope returns that was opened on the way. -/
theorem exists_returns (hopened : t.scopes.length < (t.after calls).scopes.length) {keys : List String}
    (h : (t.after calls).answer .finish = .ok keys) : ∃ before given body,
      calls = before ++ .start given :: body ∧ Balanced body ∧ (t.after before).Returns given body keys := by
  obtain ⟨n, hn⟩ := Nat.exists_eq_add_of_lt hopened
  obtain ⟨before, given, body, rfl, hbody, -⟩ := exists_start (Nat.le_add_right _ n) hn
  rw [after_append, after_cons, next_start] at h
  exact ⟨before, given, body, rfl, hbody, h⟩

/-- A scope returns exactly what is recorded in it, each key once and in the order in which they are first recorded, and each
scope around it returns that too.  What is returned after any calls is what such a scope returns, except where a scope is
closed that was open before them. -/
theorem scopes_return_recorded (henabled : t.enabled = true) :
    (∀ given calls, Balanced calls → ∃ keys, t.Returns given calls keys ∧ keys = t.keysOf given calls ∧ keys.Nodup ∧
      ∀ k, k ∈ keys ↔ t.Recorded given calls k) ∧
    (∀ given before given' body after keys keys', Balanced (before ++ .start given' :: (body ++ .finish :: after)) →
      Balanced body → t.Returns given (before ++ .start given' :: (body ++ .finish :: after)) keys →
      ((t.start given).after before).Returns given' body keys' → keys' ⊆ keys) ∧
    (∀ calls keys, t.scopes.length < (t.after calls).scopes.length → (t.after calls).answer .finish = .ok keys →
      ∃ before given body, calls = before ++ .start given :: body ∧ Balanced body ∧
        (t.after before).Returns given body keys) := by
  refine ⟨fun given calls hcalls => ?_, ?_, fun _ _ hopened h => exists_returns hopened h⟩
  · exact ⟨_, returns_keysOf henabled given hcalls, rfl, Text.nodup_distinct _, fun k => mem_keysOf henabled hcalls⟩
  · intro given before given' body after keys keys' hcalls hbody h h'
    exact h.subset henabled hcalls hbody h'

/-- In a scope of the file `a`, another scope is opened in which keys and the file `b` are merged. -/
theorem nested_scope_recorded : (initial true).enabled = true ∧
    (initial true).Recorded (some "a") [.start none, .merge ["enum:Role"] (some "b"), .finish, .use "F"] "file:b" ∧
    (initial true).keysOf (some "a") [.start none, .merge ["enum:Role"] (some "b"), .finish, .use "F"] =
      ["file:a", "enum:Role", "file:b", "fragment-use:F"] ∧
    ["enum:Role", "file:b", "file:a"] ⊆ ["file:a", "enum:Role", "file:b", "fragment-use:F"] ∧
    ∃ before given body, [Call.start (some "a"), .start none, .merge ["enum:Role"] (some "b")] =
      before ++ .start given :: body ∧ Balanced body ∧
        ((initial true).after before).Returns given body ["enum:Role", "file:b", "file:a"] := by
  obtain ⟨hreturns, hsubset, hopened⟩ := scopes_return_recorded (t := initial true) rfl
  have hbalanced : Balanced [.start none, .merge ["enum:Role"] (some "b"), .finish, .use "F"] := by decide
  obtain ⟨keys, hkeys, heq, -, hmem⟩ := hreturns (some "a") _ hbalanced
  have hreturned : (initial true).Returns (some "a") [.start none, .merge ["enum:Role"] (some "b"), .finish, .use "F"]
      ["file:a", "enum:Role", "file:b", "fragment-use:F"] := rfl
  obtain rfl := Except.ok.inj (hreturned.symm.trans hkeys)
  refine ⟨rfl, (hmem _).1 (by decide), heq.symm, ?_, hopened _ _ (by decide) rfl⟩
  exact hsubset (some "a") [] none [.merge ["enum:Role"] (some "b")] [.use "F"] _ _ hbalanced (by decide) hreturned rfl

end Tracker

end ResponseTypes
