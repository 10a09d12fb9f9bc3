import ResponseTypes.Proofs.Plan.Sound
import ResponseTypes.Compile.Operation

/-!
# Meeting needs

What meeting a need comes to depends on the fields of the fragments that it reaches, and on nothing else that was made
(`Need.complete_congr`).
-/

namespace ResponseTypes.Compile

set_option autoImplicit false

open GraphQL (Operation TypeDef TypeRef)
open Shape (Leaves RefsIn FieldRefsIn)

/-! ## Fragments that are reached -/

section Reached

variable {c : Sources} {late : TypeRef → Prop} {jobOf : String → Option Job} {stack : Stack}

theorem reached_singleton {name other : String} :
    Reached c [name] other ↔ other = name ∨ Reached c (fragmentsIn ((Need.fragment name).needs c)) other := by
  constructor
  · rintro ⟨n, hn, hr⟩
    cases List.mem_singleton.1 hn
    rcases hr.cases_head with rfl | ⟨next, hs, hr⟩
    · exact Or.inl rfl
    · exact Or.inr ⟨next, mem_fragmentsIn.2 hs, hr⟩
  · rintro (rfl | ⟨next, hs, hr⟩)
    · exact ⟨other, List.mem_singleton_self _, .refl⟩
    · exact ⟨name, List.mem_singleton_self _, hr.head (mem_fragmentsIn.1 hs)⟩

/-- A fragment that a plan asks for exists. -/
theorem Plan.fragment_known {α : Type} {p : Plan α} {name : String} (h : .fragment name ∈ p.needs c) :
    ∃ f, Assoc.get? c.fragments name = some f := by
  induction p with
  | done a | lack e => cases h
  | declare d next ih =>
    rcases List.mem_cons.1 h with h | h
    · cases h
    · exact ih h
  | code type next ih =>
    rcases List.mem_cons.1 h with h | h
    · cases h
    · exact ih _ h
  | spread other next ih =>
    simp only [Plan.needs] at h
    cases hf : Assoc.get? c.fragments other with
    | none => simp [hf] at h
    | some f =>
      rw [hf] at h
      rcases List.mem_cons.1 h with h | h
      · cases h
        exact ⟨f, hf⟩
      · exact ih f h
  | keep typeName sels body next ihb ih =>
    simp only [Plan.needs] at h
    cases hout : body.outcome c with
    | error e =>
      rw [hout] at h
      exact ihb h
    | ok s =>
      rw [hout] at h
      exact (List.mem_append.1 h).elim ihb (ih s)
  | count thing next ih => exact ih h

theorem needs_fragment {name : String} {f : FragmentDef} (hf : Assoc.get? c.fragments name = some f) :
    (Need.fragment name).needs c = (fragmentPlan c.toConfig f).needs c := by
  rw [Need.needs, hf]

theorem spreads_known {name other : String} (h : Spreads c name other) : ∃ f, Assoc.get? c.fragments other = some f := by
  unfold Spreads at h
  cases hf : Assoc.get? c.fragments name with
  | none => simp [Need.needs, hf] at h
  | some f =>
    rw [needs_fragment hf] at h
    exact Plan.fragment_known h

/-- What is reached from fragments that exist exists. -/
theorem Reached.known {names : List String} {other : String} (h : Reached c names other)
    (hnames : ∀ name ∈ names, ∃ f, Assoc.get? c.fragments name = some f) :
    ∃ f, Assoc.get? c.fragments other = some f := by
  obtain ⟨name, hname, hr⟩ := h
  rcases hr.cases_tail with rfl | ⟨last, -, hs⟩
  · exact hnames _ hname
  · exact spreads_known hs

/-- What is reached from fragments that were made was made. -/
theorem Sound.reached {s : State} (h : Sound c late jobOf stack s) {names : List String} {other : String}
    (hr : Reached c names other) (hnames : ∀ name ∈ names, Assoc.has s.store (fragmentNode name)) :
    Assoc.has s.store (fragmentNode other) := by
  obtain ⟨name, hname, hr⟩ := hr
  induction hr with
  | refl => exact hnames name hname
  | tail _ hs ih =>
    obtain ⟨a, ha⟩ := Option.isSome_iff_exists.1 ih
    obtain ⟨b, hb, -⟩ := h.spread _ a ha _ (mem_fragmentsIn.2 hs)
    rw [Assoc.has, hb]
    rfl

theorem get?_fieldMaps {s : State} (h : Sound c late jobOf stack s) {name : String}
    (hhas : Assoc.has s.store (fragmentNode name)) :
    ∃ m, Assoc.get? s.fieldMaps name = some m ∧ s.progress.fieldsOf name = some m.fields ∧
      s.progress.heightOf name = m.height := by
  obtain ⟨m, hm, -⟩ := h.fields name hhas
  obtain ⟨a, ha⟩ := Option.isSome_iff_exists.1 hhas
  have hfields : s.fieldsAt (fragmentNode name) = some (m.fields, m.height) := by
    simp [State.fieldsAt, fragmentNode, hm]
  refine ⟨m, hm, ?_, ?_⟩
  · simp [Progress.fieldsOf, get?_progress, ha, hfields]
  · simp [Progress.heightOf, get?_progress, ha, hfields]

/-- The fields of fragments that were made refer to what is needed for them. -/
theorem Sound.closed {s : State} (h : Sound c late jobOf stack s) (needs : List Need) :
    Closed (c.leaves (Deep c needs)) s.progress.fieldsOf := by
  intro name fields hname hfields
  have hhas : Assoc.has s.store (fragmentNode name) := by
    rw [← has_progress, Assoc.has]
    cases hp : Assoc.get? s.progress (fragmentNode name) with
    | none => simp [Progress.fieldsOf, hp] at hfields
    | some piece => rfl
  obtain ⟨m, hm, hrefs⟩ := h.fields name hhas
  obtain ⟨m', hm', hfields', -⟩ := get?_fieldMaps h hhas
  cases hm.symm.trans hm'
  cases hfields.symm.trans hfields'
  exact hrefs.mono (Config.leaves_le fun _ => Deep.trans (deep_fragment.1 (fragment_leaves.1 hname))) m.fields

end Reached

/-! ## Shapes of fragments and operations -/

section Meeting

variable {c : Sources} {file : String} {p p' : Progress}

/-- The shape of a fragment refers to what it needs. -/
theorem refsIn_fragmentPlan (hc : c.Named) {f : FragmentDef} {s : Shape}
    (hs : (fragmentPlan c.toConfig f).outcome c = .ok s) :
    s.RefsIn (c.leaves (· ∈ (fragmentPlan c.toConfig f).needs c)) := by
  have hgives : Plan.Gives c (· ∈ (fragmentPlan c.toConfig f).needs c) (fragmentPlan c.toConfig f)
      (RefsIn (c.leaves (· ∈ (fragmentPlan c.toConfig f).needs c))) := by
    refine Plan.gives_bind (p := ensureHelpers c.toConfig) Plan.gives_trivial fun _ _ => ?_
    refine Plan.gives_bind Plan.gives_trivial fun t _ => ?_
    exact Plan.gives_bind (selection_refs hc t _) fun s hs => Plan.gives_pure (Shape.refsIn_simplify s hs)
  exact hgives (fun _ h => h) s hs

/-- The shape of an operation's response refers to what it needs. -/
theorem refsIn_operationPlan (hc : c.Named) {op : Operation} {root : TypeDef} {s : Shape}
    (hs : (operationPlan c op root).outcome c = .ok s) :
    s.RefsIn (c.leaves (· ∈ (operationPlan c op root).needs c)) := by
  have hgives : Plan.Gives c (· ∈ (operationPlan c op root).needs c) (operationPlan c op root)
      (RefsIn (c.leaves (· ∈ (operationPlan c op root).needs c))) := by
    refine Plan.gives_bind Plan.gives_trivial fun sels _ => ?_
    exact Plan.gives_bind (selection_refs hc root sels) fun s hs => Plan.gives_pure (Shape.refsIn_simplify s hs)
  exact hgives (fun _ h => h) s hs

/-- The fields of fragments in `L` are the same. -/
def Progress.SameFields (L : Leaves) (p p' : Progress) : Prop :=
  ∀ name, L.Fragment name → p'.fieldsOf name = p.fieldsOf name ∧ p'.heightOf name = p.heightOf name

/-- The fields of fragments that were made stay the same. -/
theorem Progress.Le.sameFields {L : Leaves} (h : p.Le p')
    (hmade : ∀ name, L.Fragment name → Assoc.has p (fragmentNode name)) : p.SameFields L p' := by
  intro name hname
  obtain ⟨piece, hp⟩ := Option.isSome_iff_exists.1 (hmade name hname)
  simp only [Progress.fieldsOf, Progress.heightOf, hp, h _ _ hp, and_self]

theorem finished_congr {L : Leaves} {s : Shape} (closed : Closed L p.fieldsOf) (hsame : p.SameFields L p')
    (hs : s.RefsIn L) : finished p' s = finished p s := by
  unfold finished
  rw [height_congr (fun name h => (hsame name h).2) s hs]
  exact (Query.answer_congr (finishWithin_within closed _ s hs) fun name h => (hsame name h).1.symm).symm

theorem fragmentPiece_congr {L : Leaves} {s : Shape} {f : FragmentDef} (closed : Closed L p.fieldsOf)
    (hsame : p.SameFields L p') (hs : s.RefsIn L) :
    fragmentPiece c.toConfig file p' f s = fragmentPiece c.toConfig file p f s := by
  have hflat := flatFields_within closed s hs
  have hanswer : (flatFields s).answer p'.fieldsOf = (flatFields s).answer p.fieldsOf :=
    (Query.answer_congr hflat fun name h => (hsame name h).1.symm).symm
  unfold fragmentPiece
  rw [hanswer, finished_congr closed hsame hs]
  cases hfields : (flatFields s).answer p.fieldsOf with
  | error e => rfl
  | ok fields =>
    have hheight : fieldsHeight p'.heightOf fields = fieldsHeight p.heightOf fields :=
      fieldsHeight_congr (fun name h => (hsame name h).2) fields (Query.within_answer hflat hfields)
    simp only [bind, Except.bind, hheight]

/-- What meeting a need adds depends on the fields of the fragments that it reaches. -/
theorem Need.complete_congr (hc : c.Named) {n : Need} {e : Node × Piece}
    (closed : Closed (c.leaves (Deep c (n.needs c))) p.fieldsOf)
    (hsame : p.SameFields (c.leaves (Deep c (n.needs c))) p') (h : n.complete c file p = .ok (p ++ [e])) :
    n.complete c file p' = .ok (p' ++ [e]) := by
  cases n with
  | declared d =>
    obtain ⟨draft, hd, h⟩ := except_bind_ok h
    cases List.append_cancel_left (Except.ok.inj h)
    simp only [Need.complete, hd]
    rfl
  | code type =>
    obtain ⟨text, -, h⟩ := except_bind_ok h
    have hlength := congrArg List.length (Except.ok.inj h)
    simp at hlength
  | fragment name =>
    simp only [Need.complete] at h ⊢
    cases hf : Assoc.get? c.fragments name with
    | none => simp [hf] at h
    | some f =>
      rw [hf] at h
      obtain ⟨s, hs, h⟩ := except_bind_ok h
      obtain ⟨piece, hpiece, h⟩ := except_bind_ok h
      cases List.append_cancel_left (Except.ok.inj h)
      rw [needs_fragment hf] at closed hsame
      have hrefs : s.RefsIn (c.leaves (Deep c ((fragmentPlan c.toConfig f).needs c))) :=
        (refsIn_fragmentPlan hc hs).mono (Config.leaves_le fun _ => Or.inl) s
      rw [← fragmentPiece_congr closed hsame hrefs] at hpiece
      simp only [hs, bind, Except.bind, hpiece]
      rfl
  | operation j =>
    obtain ⟨s, hs, h⟩ := except_bind_ok h
    obtain ⟨shape, hshape, h⟩ := except_bind_ok h
    cases List.append_cancel_left (Except.ok.inj h)
    have hrefs : s.RefsIn (c.leaves (Deep c ((Need.operation j).needs c))) :=
      (refsIn_operationPlan hc hs).mono (Config.leaves_le fun _ hn => Or.inl (List.mem_append_right _ hn)) s
    rw [← finished_congr closed hsame hrefs] at hshape
    simp only [Need.complete, hs, bind, Except.bind, hshape]
    rfl
  | arguments j =>
    obtain ⟨draft, hd, h⟩ := except_bind_ok h
    cases List.append_cancel_left (Except.ok.inj h)
    simp only [Need.complete, hd]
    rfl

/-- What was made stays so while more is made. -/
theorem Made.extend {late : TypeRef → Prop} {jobOf : String → Option Job} {stack : Stack} {s s' : State} {node : Node}
    {a : Artifact ArtifactKind} (hsound : Sound c late jobOf stack s) (h : Made c jobOf s node a)
    (hle : s.progress.Le s'.progress) (hfields : s'.fieldsAt node = s.fieldsAt node)
    (hstore : ∀ node a, Assoc.get? s.store node = some a → Assoc.get? s'.store node = some a)
    (henabled : s'.tracker.enabled = s.tracker.enabled) : Made c jobOf s' node a := by
  obtain ⟨⟨n, hn, hmet⟩, hbacked⟩ := h
  refine ⟨⟨n, hn, ?_⟩, fun m hm hsel => (hbacked m hm hsel).congr hstore henabled⟩
  have hmade : ∀ name, (c.leaves (Deep c (n.needs c))).Fragment name →
      Assoc.has s.progress (fragmentNode name) := by
    intro name hname
    rw [has_progress]
    refine hsound.reached (deep_fragment.1 (fragment_leaves.1 hname)) fun first hfirst => ?_
    rw [← has_progress]
    exact (hbacked (.fragment first) (needsAt_eq hn ▸ mem_fragmentsIn.1 hfirst) trivial).has
  rw [Need.Meets, hfields]
  exact Need.complete_congr hsound.named (hsound.closed _) (hle.sameFields hmade) hmet

end Meeting

end ResponseTypes.Compile
