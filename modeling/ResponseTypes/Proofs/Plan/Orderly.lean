import ResponseTypes.Proofs.Plan.Composing
import ResponseTypes.Proofs.Plan.Maintain

/-!
# Books in order

`Orderly c p n s` : a state is as the books `p` say, while `n` scopes are open.  Marks are those of what is in progress; every
fragment that was generated has its fields, and they are kept as long as it is; what is kept is regular.

`Leads P act Q` : from states in `P` a step leads to states in `Q`, unless it fails, and its failure is no matter of the
books.  A step is `Safe` if it leads from orderly states to orderly ones in any open scope.
-/

namespace ResponseTypes.Compile

set_option autoImplicit false

open Shape (FieldsRegular)

/-! ## Steps that lead from states to states -/

/-- From states in `P` the step leads to a result and a state in `Q`, or to a failure that is no matter of the books. -/
def Leads {α : Type} (P : State → Prop) (act : Step α) (Q : α → State → Prop) : Prop :=
  ∀ s, P s →
    match act.runOn s with
    | (.ok a, s') => Q a s'
    | (.error e, _) => ¬e.Bookkeeping

section Leads

variable {α β : Type} {P P' : State → Prop} {Q : α → State → Prop} {R : β → State → Prop}

theorem leads_pure {a : α} (h : ∀ s, P s → Q a s) : Leads P (pure a : Step α) Q := h

theorem leads_bind {act : Step α} {f : α → Step β} (h : Leads P act Q) (hf : ∀ a, Leads (Q a) (f a) R) :
    Leads P (act >>= f) R := by
  intro s hs
  rw [runOn_bind]
  have hact := h s hs
  rcases hrun : act.runOn s with ⟨e | a, s'⟩
  · rw [hrun] at hact
    exact hact
  · rw [hrun] at hact
    exact hf a s' hact

theorem leads_mono {Q' : α → State → Prop} {act : Step α} (h : Leads P act Q) (hP : ∀ s, P' s → P s)
    (hQ : ∀ a s, Q a s → Q' a s) : Leads P' act Q' := by
  intro s hs
  have hact := h s (hP s hs)
  rcases hrun : act.runOn s with ⟨e | a, s'⟩
  · rw [hrun] at hact
    exact hact
  · rw [hrun] at hact
    exact hQ a s' hact

/-- What a step maintains stays, wherever it leads. -/
theorem leads_frame {J : State → Prop} {act : Step α} (h : Leads P act Q) (hJ : Maintains J act) :
    Leads (fun s => P s ∧ J s) act fun a s => Q a s ∧ J s := by
  intro s hs
  have hact := h s hs.1
  have hkept := hJ s hs.2
  rcases hrun : act.runOn s with ⟨e | a, s'⟩
  · rw [hrun] at hact
    exact hact
  · rw [hrun] at hact hkept
    exact ⟨hact, hkept⟩

theorem leads_discard {Q : State → Prop} {act : Step α} (h : Leads P act fun _ => Q) :
    Leads P (discard act) fun _ => Q :=
  leads_bind h fun _ => leads_pure fun _ h => h

theorem leads_fail {e : Failure} (h : ¬e.Bookkeeping) : Leads P (Action.fail e : Step α) Q := fun _ _ => h

theorem leads_failHere {e : Lack} (h : e.Harmless) : Leads P (Tracking.failHere e : Step α) Q := fun _ _ => h _

/-- What is read is a part of the state that stays. -/
theorem leads_read {part : Part State α} : Leads P part.read fun a s => P s ∧ a = part.get s := fun _ h => ⟨h, rfl⟩

theorem leads_modify {part : Part State α} {f : α → α} {Q : State → Prop} (h : ∀ s, P s → Q (part.set (f (part.get s)) s)) :
    Leads P (part.modify f) fun _ => Q := h

theorem leads_forM {l : List α} {f : α → Step Unit} (hf : ∀ a ∈ l, Leads P (f a) fun _ => P) :
    Leads P (l.forM f) fun _ => P := by
  induction l with
  | nil => exact leads_pure fun _ h => h
  | cons a l ih =>
    obtain ⟨ha, hl⟩ := List.forall_mem_cons.1 hf
    exact leads_bind ha fun _ => ih hl

theorem leads_foldlM {l : List α} {f : β → α → Step β} (hf : ∀ a ∈ l, ∀ b, Leads P (f b a) fun _ => P) (b : β) :
    Leads P (l.foldlM f b) fun _ => P := by
  induction l generalizing b with
  | nil => exact leads_pure fun _ h => h
  | cons a l ih =>
    obtain ⟨ha, hl⟩ := List.forall_mem_cons.1 hf
    exact leads_bind (ha b) fun b' => ih hl b'

end Leads

/-- What the tracker has nothing to do with. -/
def Untracked (J : State → Prop) : Prop :=
  ∀ s t, J s → J { s with tracker := t }

theorem maintains_step {α : Type} {J : State → Prop} (hJ : Untracked J)
    (f : Tracker → Except Failure (α × Tracker)) : Maintains J ((Tracks.tracker : Part State Tracker).step f) := by
  intro s hs
  unfold Action.runOn Part.step
  split
  · exact hJ s _ hs
  · exact hs

/-! ## Orderly states -/

/-- What the books say. -/
structure Books where
  /-- the files that define fragments, by the fragment -/
  homes : String → String → Prop
  /-- the fragments that are being generated, the innermost first, and whether their fields are kept yet -/
  fragments : Assoc String Bool
  /-- the input types that are being generated, the innermost first -/
  inputs : List String

namespace Books

/-- Nothing is in progress. -/
def idle (homes : String → String → Prop) : Books := ⟨homes, [], []⟩

/-- A fragment is being generated inside of what is in progress. -/
def within (p : Books) (name : String) (kept : Bool) : Books :=
  { p with fragments := (name, kept) :: p.fragments }

/-- What is in progress while a declared type is being generated. -/
def declaring (p : Books) : Declared → Books
  | .input name => { p with inputs := name :: p.inputs }
  | _ => p

end Books

/-- The fields of a fragment have just been kept; they have no keys yet. -/
def Kept (c : Sources) (maps : Assoc String FieldMap) (name : String) : Prop :=
  ∃ m f, Assoc.get? maps name = some m ∧ Assoc.get? c.fragments name = some f ∧ m.origin = ⟨f.file, []⟩

/-- The books are in order while some scopes are open. -/
structure Orderly (c : Sources) (p : Books) (n : Nat) (s : State) : Prop where
  scopes : s.tracker.scopes.length = n
  fragmentMarks : s.fragmentMarks = Assoc.keys p.fragments
  inputMarks : s.inputMarks = p.inputs
  artifacts : (Assoc.keys s.store).Nodup
  maps : (Assoc.keys s.fieldMaps).Nodup
  /-- what is being generated was not generated -/
  unmade : ∀ name ∈ Assoc.keys p.fragments, Assoc.get? s.store (fragmentNode name) = none
  pending : ∀ name, (name, true) ∈ p.fragments → Kept c s.fieldMaps name
  /-- a fragment that was generated has its fields, and whatever they depend on, it does -/
  fields : ∀ name a, Assoc.get? s.store (fragmentNode name) = some a →
    ∃ m, Assoc.get? s.fieldMaps name = some m ∧ m.origin.file = a.origin.file ∧ ∀ k ∈ m.origin.keys, k ∈ a.origin.keys
  homes : ∀ e ∈ s.fieldMaps, p.homes e.1 e.2.origin.file
  shapes : ∀ e ∈ s.shapes.entries, c.toConfig.Keepable e.1.1 e.2.1
  regular : ∀ e ∈ s.fieldMaps, FieldsRegular e.2.fields

namespace Orderly

variable {c : Sources} {p : Books} {n : Nat} {s : State}

theorem initial (homes : String → String → Prop) (tracking : Bool) :
    Orderly c (.idle homes) 0 (State.initial tracking) where
  scopes := rfl
  fragmentMarks := rfl
  inputMarks := rfl
  artifacts := List.nodup_nil
  maps := List.nodup_nil
  unmade _ h := absurd h List.not_mem_nil
  pending _ h := absurd h List.not_mem_nil
  fields _ _ h := nomatch h
  homes _ h := absurd h List.not_mem_nil
  shapes _ h := absurd h List.not_mem_nil
  regular _ h := absurd h List.not_mem_nil

/-- The tracker matters for the number of open scopes alone. -/
theorem track (h : Orderly c p n s) {t : Tracker} {m : Nat} (ht : t.scopes.length = m) :
    Orderly c p m { s with tracker := t } :=
  { h with scopes := ht }

theorem start (h : Orderly c p n s) (file : Option String) :
    Orderly c p (n + 1) { s with tracker := s.tracker.start file } := by
  obtain ⟨scope, hscopes, -⟩ := s.tracker.start_scopes file
  exact h.track ((congrArg List.length hscopes).trans (congrArg (· + 1) h.scopes))

/-- An artifact is stored, of a fragment only if its fields are there. -/
theorem store (h : Orderly c p n s) {node : Node} {a : Artifact ArtifactKind}
    (hnew : ∀ name ∈ Assoc.keys p.fragments, node ≠ fragmentNode name)
    (hfields : ∀ name, node = fragmentNode name →
      ∃ m, Assoc.get? s.fieldMaps name = some m ∧ m.origin.file = a.origin.file ∧ ∀ k ∈ m.origin.keys, k ∈ a.origin.keys) :
    Orderly c p n { s with store := Assoc.insert s.store node a } where
  scopes := h.scopes
  fragmentMarks := h.fragmentMarks
  inputMarks := h.inputMarks
  artifacts := Assoc.nodup_keys_insert h.artifacts _ _
  maps := h.maps
  unmade name hname := (Assoc.get?_insert_of_ne _ a (hnew name hname)).trans (h.unmade name hname)
  pending := h.pending
  fields name b hb := by
    by_cases hnode : node = fragmentNode name
    · subst hnode
      cases (Assoc.get?_insert_self s.store _ a).symm.trans hb
      exact hfields name rfl
    · exact h.fields name b ((Assoc.get?_insert_of_ne s.store a hnode).symm.trans hb)
  homes := h.homes
  shapes := h.shapes
  regular := h.regular

/-- Fields are kept for a fragment.  If it was generated, they depend on nothing else than it does, and if it is being
generated, they have no keys. -/
theorem keep (h : Orderly c p n s) {name : String} {m : FieldMap} {q : Books} (hm : FieldsRegular m.fields)
    (hhome : p.homes name m.origin.file) (hhomes : q.homes = p.homes)
    (hkeys : Assoc.keys q.fragments = Assoc.keys p.fragments) (hinputs : q.inputs = p.inputs)
    (hpending : ∀ other, (other, true) ∈ q.fragments →
      other = name ∧ Kept c (Assoc.insert s.fieldMaps name m) name ∨ other ≠ name ∧ (other, true) ∈ p.fragments)
    (hfields : ∀ a, Assoc.get? s.store (fragmentNode name) = some a →
      m.origin.file = a.origin.file ∧ ∀ k ∈ m.origin.keys, k ∈ a.origin.keys) :
    Orderly c q n { s with fieldMaps := Assoc.insert s.fieldMaps name m } where
  scopes := h.scopes
  fragmentMarks := h.fragmentMarks.trans hkeys.symm
  inputMarks := h.inputMarks.trans hinputs.symm
  artifacts := h.artifacts
  maps := Assoc.nodup_keys_insert h.maps _ _
  unmade := hkeys ▸ h.unmade
  pending other hother := by
    rcases hpending other hother with ⟨rfl, hkept⟩ | ⟨hne, hold⟩
    · exact hkept
    · obtain ⟨m', f, hget, hf, horigin⟩ := h.pending other hold
      exact ⟨m', f, (Assoc.get?_insert_of_ne _ m (Ne.symm hne)).trans hget, hf, horigin⟩
  fields other a ha := by
    by_cases hname : name = other
    · subst hname
      exact ⟨m, Assoc.get?_insert_self _ _ _, hfields a ha⟩
    · obtain ⟨m', hget, horigin⟩ := h.fields other a ha
      exact ⟨m', (Assoc.get?_insert_of_ne _ m hname).trans hget, horigin⟩
  homes e he := by
    rw [hhomes]
    rcases Assoc.mem_insert he with rfl | he
    · exact hhome
    · exact h.homes e he
  shapes := h.shapes
  regular e he := by
    rcases Assoc.mem_insert he with rfl | he
    · exact hm
    · exact h.regular e he

end Orderly

/-- In any open scope, and while something is in progress, the step keeps the books in order, and its result satisfies
`P`. -/
def Safe {α : Type} (c : Sources) (p : Books) (act : Step α) (P : α → Prop) : Prop :=
  ∀ n, Leads (Orderly c p (n + 1)) act fun a s => Orderly c p (n + 1) s ∧ P a

section Safe

variable {α β : Type} {c : Sources} {p : Books} {P : α → Prop} {Q : β → Prop}

theorem safe_pure {a : α} (h : P a) : Safe c p (pure a) P := fun _ => leads_pure fun _ hs => ⟨hs, h⟩

theorem safe_bind {act : Step α} {f : α → Step β} (h : Safe c p act P) (hf : ∀ a, P a → Safe c p (f a) Q) :
    Safe c p (act >>= f) Q :=
  fun n => leads_bind (h n) fun a s hs => hf a hs.2 n s hs.1

theorem safe_failHere {e : Lack} (h : e.Harmless) : Safe c p (Tracking.failHere e : Step α) P :=
  fun _ => leads_failHere h

theorem safe_count (thing : String) : Safe c p (count thing) fun _ => True :=
  fun _ => leads_modify fun _ hs => ⟨{ hs with }, trivial⟩

theorem safe_note (level : Level) (text : String) : Safe c p (note level text) fun _ => True :=
  fun _ => leads_modify fun _ hs => ⟨{ hs with }, trivial⟩

/-! ## Tracking -/

/-- A step on the tracker that changes the number of open scopes to another one. -/
theorem leads_step {f : Tracker → Except Failure (α × Tracker)} {n m : Nat}
    (h : ∀ t, t.scopes.length = n → ∃ a t', f t = .ok (a, t') ∧ t'.scopes.length = m) :
    Leads (Orderly c p n) ((Tracks.tracker : Part State Tracker).step f) fun _ => Orderly c p m := by
  intro s hs
  obtain ⟨a, t', hf, ht'⟩ := h s.tracker hs.scopes
  rw [runOn_step (p := (Tracks.tracker : Part State Tracker)) hf]
  exact hs.track ht'

theorem leads_start (file : Option String) {n : Nat} :
    Leads (Orderly c p n) (Tracking.start file) fun _ => Orderly c p (n + 1) :=
  leads_modify fun _ hs => hs.start file

theorem leads_add (d : Dependency) {n : Nat} :
    Leads (Orderly c p (n + 1)) (Tracking.add d) fun _ => Orderly c p (n + 1) := by
  refine leads_step fun t ht => ?_
  obtain ⟨scope, rest, hscopes⟩ := List.exists_cons_of_length_eq_add_one ht
  unfold Tracker.add
  rw [hscopes]
  refine ⟨(), _, rfl, ?_⟩
  split
  · rw [← ht, hscopes]
    rfl
  · exact ht

theorem leads_merge (keys : List String) (file : Option String) {n : Nat} :
    Leads (Orderly c p (n + 1)) (Tracking.merge keys file) fun _ => Orderly c p (n + 1) := by
  refine leads_step fun t ht => ?_
  obtain ⟨scope, rest, hscopes⟩ := List.exists_cons_of_length_eq_add_one ht
  unfold Tracker.merge
  rw [if_neg (by simp [hscopes])]
  exact ⟨(), _, rfl, (List.length_map _).trans ht⟩

theorem leads_finish {n : Nat} : Leads (Orderly c p (n + 1)) Tracking.finish fun _ => Orderly c p n := by
  refine leads_step fun t ht => ?_
  obtain ⟨scope, rest, hscopes⟩ := List.exists_cons_of_length_eq_add_one ht
  have hrest : rest.length = n := Nat.succ.inj ((congrArg List.length hscopes).symm.trans ht)
  unfold Tracker.finish
  rw [hscopes]
  cases rest with
  | nil => exact ⟨_, _, rfl, hrest⟩
  | cons outer rest => exact ⟨_, _, rfl, (List.length_map _).trans hrest⟩

theorem safe_add (d : Dependency) : Safe c p (Tracking.add d) fun _ => True :=
  fun _ => leads_mono (leads_add d) (fun _ h => h) fun _ _ h => ⟨h, trivial⟩

end Safe

/-! ## Memos -/

/-- A memo in orderly states: results that satisfy `I` may be kept in it. -/
structure OrderlyMemo {κ α : Type} [DecidableEq κ] (c : Sources) (memo : Part State (Memo κ α)) (I : κ → α → Prop) :
    Prop where
  known : ∀ {p : Books} {n : Nat} {s : State}, Orderly c p n s → ∀ e ∈ (memo.get s).entries, I e.1 e.2.1
  count : ∀ {p : Books} {n : Nat} {s : State} (m : Memo κ α), m.entries = (memo.get s).entries →
    Orderly c p n s → Orderly c p n (memo.set m s)
  keep : ∀ {p : Books} {n : Nat} {s : State} (m : Memo κ α) (key : κ) (a : α) (o : Origin),
    m.entries = Assoc.insert (memo.get s).entries key (a, o) → I key a → Orderly c p n s → Orderly c p n (memo.set m s)

theorem orderlyMemo_shapes {c : Sources} :
    OrderlyMemo c State.shapesPart fun key s => c.toConfig.Keepable key.1 s where
  known h := h.shapes
  count m hm h := { h with shapes := fun e he => h.shapes e (hm ▸ he) }
  keep m key a o hm ha h := { h with
    shapes := fun e he => by
      rcases Assoc.mem_insert (hm ▸ he : e ∈ Assoc.insert _ key (a, o)) with rfl | he
      · exact ha
      · exact h.shapes e he }

theorem orderlyMemo_inputs {c : Sources} : OrderlyMemo c State.inputsPart fun _ _ => True where
  known _ _ _ := trivial
  count _ _ h := { h with }
  keep _ _ _ _ _ _ h := { h with }

/-- A result is used again, or computed in a scope of its own and kept. -/
theorem safe_memoized {κ α : Type} [DecidableEq κ] {c : Sources} {p : Books} {memo : Part State (Memo κ α)}
    {I : κ → α → Prop} (hmemo : OrderlyMemo c memo I) (enabled : Bool) (key : κ) {compute : Step α}
    (hcompute : Safe c p compute (I key)) : Safe c p (Memo.memoized memo enabled key compute) (I key) := by
  intro n
  unfold Memo.memoized
  split
  · exact hcompute n
  · refine leads_bind leads_read fun m => ?_
    split
    · rename_i a o hget
      have hI : ∀ s, Orderly c p (n + 1) s ∧ m = memo.get s → I key a := by
        rintro s ⟨hs, rfl⟩
        exact hmemo.known hs _ (Assoc.mem_of_get? hget)
      refine leads_bind (Q := fun _ s => Orderly c p (n + 1) s ∧ I key a)
        (leads_modify fun s hs => ⟨hmemo.count _ rfl hs.1, hI s hs⟩) fun _ => ?_
      refine fun s hs => leads_bind (leads_merge _ _) (fun _ => leads_pure fun _ hs' => ⟨hs', hs.2⟩) s hs.1
    · refine leads_bind (Q := fun _ => Orderly c p (n + 1)) (leads_modify fun s hs => hmemo.count _ rfl hs.1) fun _ => ?_
      refine leads_bind (leads_start none) fun _ => ?_
      refine leads_bind (Q := fun _ => Orderly c p (n + 1 + 1)) (fun _ hs => hs) fun file => ?_
      refine leads_bind (hcompute (n + 1)) fun a => ?_
      refine fun s hs => leads_bind leads_finish (fun keys => ?_) s hs.1
      exact leads_bind (Q := fun _ => Orderly c p (n + 1))
        (leads_modify fun s hs' => hmemo.keep _ key a ⟨file, keys⟩ rfl hs.2 hs') fun _ =>
          leads_pure fun _ hs' => ⟨hs', hs.2⟩

/-! ## Artifacts -/

section Artifacts

variable {c : Sources} {p : Books} {kind : ArtifactKind} {key : String} {given : Option String} {build : Step Draft}

/-- An artifact is used again, or built in a scope of its own and stored.  What building it brings about has to let it be
stored. -/
theorem leads_artifact {n : Nat} {J : State → Prop} (hJ : Untracked J)
    (hbuild : Leads (fun s => Orderly c p (n + 2) s ∧ Assoc.get? s.store (kind, key) = none) build
      fun _ s => Orderly c p (n + 2) s ∧ J s)
    (hstore : ∀ s (a : Artifact ArtifactKind), Orderly c p (n + 1) s → J s →
      (∀ file, given = some file → file ≠ "" → a.origin.file = file) →
      Orderly c p (n + 1) { s with store := Assoc.insert s.store (kind, key) a }) :
    Leads (Orderly c p (n + 1)) (artifact kind key given build) fun _ s =>
      Orderly c p (n + 1) s ∧ ∃ a, Assoc.get? s.store (kind, key) = some a := by
  have hstored : Untracked fun s => ∃ a, Assoc.get? s.store (kind, key) = some a := fun _ _ h => h
  unfold artifact Store.generateOnce
  refine leads_bind leads_read fun store => ?_
  split
  · rename_i a hget
    refine leads_mono (leads_bind (leads_frame (leads_merge a.origin.keys (some a.origin.file)) (maintains_step hstored _))
      fun _ => leads_pure fun _ hs => hs) ?_ fun _ _ hs => hs
    rintro s ⟨hs, rfl⟩
    exact ⟨hs, a, hget⟩
  · rename_i hget
    unfold Store.generate
    refine leads_bind (Q := fun _ s => (Orderly c p (n + 2) s ∧ Assoc.get? s.store (kind, key) = none) ∧
      ∀ file, given = some file → file ≠ "" → s.tracker.currentFile = file) (leads_modify ?_) fun _ => ?_
    · rintro s ⟨hs, rfl⟩
      refine ⟨⟨hs.start given, hget⟩, ?_⟩
      rintro file rfl hne
      obtain ⟨-, -, -, hfile, -⟩ := s.tracker.start_scopes (some file)
      exact hfile.trans (Tracker.fileAfter_of_ne hne _)
    refine leads_bind (Q := fun source s => (Orderly c p (n + 2) s ∧ Assoc.get? s.store (kind, key) = none) ∧
      ∀ file, given = some file → file ≠ "" → source = file) (fun _ hs => hs) fun source => ?_
    intro s hs
    refine leads_bind hbuild (fun draft => ?_) s hs.1
    refine leads_bind (leads_frame (leads_add _) (maintains_step hJ _)) fun _ => ?_
    refine leads_bind (leads_frame leads_finish (maintains_step hJ _)) fun keys => ?_
    refine leads_bind (Q := fun _ s => Orderly c p (n + 1) s ∧ ∃ a, Assoc.get? s.store (kind, key) = some a)
      (leads_modify fun s' hs' => ⟨hstore s' _ hs'.1 hs'.2 hs.2, _, Assoc.get?_insert_self _ _ _⟩) fun _ => ?_
    exact leads_bind (leads_modify fun s' hs' => ⟨{ hs'.1 with }, hs'.2⟩) fun _ => leads_pure fun _ hs' => hs'

/-- No artifact but that of a fragment needs more to be stored than to be built. -/
theorem safe_artifact (hkind : kind ≠ .fragment) (hbuild : Safe c p build fun _ => True) :
    Safe c p (artifact kind key given build) fun _ => True := by
  intro n
  have hnode : ∀ name, (kind, key) ≠ fragmentNode name := fun _ h => hkind (congrArg Prod.fst h)
  refine leads_mono (leads_artifact (J := fun _ => True) (fun _ _ h => h) (leads_mono (hbuild (n + 1)) (fun _ h => h.1)
    fun _ _ h => h) fun s a hs _ _ => ?_) (fun _ h => h) fun _ _ h => ⟨h.1, trivial⟩
  exact hs.store (fun name _ => hnode name) fun name h => absurd h (hnode name)

end Artifacts

/-! ## Marks -/

section Marks

variable {α : Type} {c : Sources} {p : Books} {name : String} {act : Step α}

theorem leads_marking {marks : Part State (List String)} {P : State → Prop} {Q : α → State → Prop}
    (hact : Leads (fun s => ∃ s', P s' ∧ s = marks.set ((marks.get s').insert name) s') act
      fun a s => Q a (marks.set ((marks.get s).erase name) s)) : Leads P (marking marks name act) Q := by
  intro s hs
  rw [runOn_marking]
  have h := hact _ ⟨s, hs, rfl⟩
  rcases hrun : act.runOn (marks.set ((marks.get s).insert name) s) with ⟨e | a, s'⟩
  · rw [hrun] at h
    exact h
  · rw [hrun] at h
    exact h

/-- An input type that is marked is not marked again. -/
theorem safe_markingInput {P : Draft → Prop} {build : Step Draft} {d : Declared}
    (hd : ∀ name, d = .input name → name ∉ p.inputs) (hbuild : Safe c (p.declaring d) build P) :
    Safe c p (markingInput d build) P := by
  cases d with
  | input name =>
    have hnew := hd name rfl
    refine fun n => leads_marking (leads_mono (hbuild n) ?_ fun a s hs => ?_)
    · rintro _ ⟨s, hs, rfl⟩
      refine { hs with inputMarks := ?_ }
      have hunmarked : name ∉ s.inputMarks := hs.inputMarks ▸ hnew
      exact (List.insert_of_not_mem hunmarked).trans (congrArg (name :: ·) hs.inputMarks)
    · refine ⟨{ hs.1 with inputMarks := ?_ }, hs.2⟩
      exact (congrArg (List.erase · name) hs.1.inputMarks).trans (List.erase_cons_head _ _)
  | helper | tag | tagUnion | enum => exact hbuild

/-- A fragment that is yet to be generated is not marked. -/
theorem leads_markingFragment {n : Nat} (hnew : name ∉ Assoc.keys p.fragments)
    (hact : Leads (Orderly c (p.within name false) n) act fun _ => Orderly c (p.within name true) n) :
    Leads (fun s => Orderly c p n s ∧ Assoc.get? s.store (fragmentNode name) = none)
      (marking State.fragmentMarksPart name act) fun _ s => Orderly c p n s ∧ Kept c s.fieldMaps name := by
  refine leads_marking (leads_mono hact ?_ fun _ s hs => ⟨?_, ?_⟩)
  · rintro _ ⟨s, ⟨hs, hunmade⟩, rfl⟩
    refine { hs with fragmentMarks := ?_, unmade := List.forall_mem_cons.2 ⟨hunmade, hs.unmade⟩, pending := ?_ }
    · have hunmarked : name ∉ s.fragmentMarks := hs.fragmentMarks ▸ hnew
      exact (List.insert_of_not_mem hunmarked).trans (congrArg (name :: ·) hs.fragmentMarks)
    · exact fun other hother => hs.pending other ((List.mem_cons.1 hother).resolve_left (by simp))
  · refine { hs with fragmentMarks := ?_, unmade := (List.forall_mem_cons.1 hs.unmade).2, pending := ?_ }
    · exact (congrArg (List.erase · name) hs.fragmentMarks).trans (List.erase_cons_head _ _)
    · exact fun other hother => hs.pending other (List.mem_cons_of_mem _ hother)
  · exact hs.pending name List.mem_cons_self

end Marks

end ResponseTypes.Compile
