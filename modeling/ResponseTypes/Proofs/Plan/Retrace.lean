import ResponseTypes.Proofs.Plan.Operating
import ResponseTypes.Proofs.Plan.Ordered

/-!
# Retracing

* `Progress.Agrees` : what was made in both is the same, wherever; so it is in states that were made from the same sources
  (`Sound.progress_agrees`);
* `Furnished` : what was made comes with all that it needs;
* `Whole` : what was made is right, comes with all that it needs, and its fragments are in order.

A run that needs nothing but what such a state has cannot fail, and makes nothing that is not there (`Run.retraces`),
whatever the order and the files in which it makes it, and whatever was made before it.
-/

namespace ResponseTypes.Compile

set_option autoImplicit false

open GraphQL (TypeRef)

variable {c : Sources} {late : TypeRef → Prop} {jobOf : String → Option Job} {stack : Stack} {file : String}
  {p p' q : Progress} {n : Need} {node : Node}

/-- If the need has a node, that is known to stand for it. -/
def Need.Known (jobOf : String → Option Job) (n : Need) : Prop :=
  ∀ node, n.node? = some node → needOf jobOf node = some n

theorem Need.Inner.known (h : n.Inner) : n.Known jobOf := by
  intro node hnode
  cases n with
  | declared d =>
    cases hnode
    exact needOf_declared jobOf d
  | fragment name =>
    cases hnode
    rfl
  | code type => cases hnode
  | operation j | arguments j => exact h.elim

/-! ## What comes with what was made -/

/-- The need is for a declared type or a type expression of an input value. -/
def Need.Coded (n : Need) : Prop :=
  (∃ d, n = .declared d) ∨ ∃ type, n = .code type

/-- Declared types and type expressions need nothing else than such. -/
theorem Need.Coded.needs (h : n.Coded) : ∀ m ∈ n.needs c, m.Coded := by
  rcases h with ⟨d, rfl⟩ | ⟨type, rfl⟩
  · exact Plan.coded_of_codes (codes_draft d)
  · exact Plan.coded_of_codes (codes_codePlan type)

/-- There is nothing left to make for what was made, but for what is being made. -/
def Furnished (c : Sources) (late : TypeRef → Prop) (jobOf : String → Option Job) (stack : Stack) (p : Progress) : Prop :=
  ∀ node, Assoc.has p node → ∀ m ∈ needsAt c jobOf node, m.Done c late stack p

theorem furnished_nil : Furnished c late jobOf stack [] :=
  fun _ h => nomatch h

/-- What there was nothing to make for while a need was being met needs nothing after it either. -/
theorem Need.Done.popped {m : Need} (h : m.Done c late (n.push stack) p) (hn : n.complete c file p = .ok p') :
    m.Done c late stack p' := by
  refine (h.mono (Need.le_complete hn)).mono_inputs fun i hi => (Need.mem_push_inputs hi).imp id ?_
  rintro rfl
  exact Need.has_complete hn rfl

/-- A run makes all that is needed for what it makes.  Fragments and operations are not needed below input types. -/
theorem Run.furnished {needs : List Need} (h : Run c late stack file p needs (.ok p')) (hp : Furnished c late jobOf stack p)
    (hneeds : ∀ n ∈ needs, n.Known jobOf) (hstack : stack.inputs = [] ∨ ∀ n ∈ needs, n.Coded) :
    Furnished c late jobOf stack p' := by
  generalize ho : Except.ok p' = o at h
  induction h generalizing p' with
  | nil =>
    cases ho
    exact hp
  | later _ _ ih | settled _ _ ih =>
    exact ih hp (List.forall_mem_cons.1 hneeds).2 (hstack.imp id fun h => (List.forall_mem_cons.1 h).2) ho
  | circular | broken | lacking => cases ho
  | @built stack _ _ p₁ p₂ n _ _ _ _ hinner hcomplete _ ih ihr =>
    obtain ⟨hknown, hneeds⟩ := List.forall_mem_cons.1 hneeds
    have hempty : stack.inputs = [] ∨ n.Coded := hstack.imp id fun h => h n List.mem_cons_self
    have hfragment : ∀ name, n = .fragment name → stack.inputs = [] := by
      rintro name rfl
      refine hempty.resolve_right ?_
      rintro (⟨d, hd⟩ | ⟨type, ht⟩)
      · cases hd
      · cases ht
    have hpushed : Furnished c late jobOf (n.push stack) p₁ := by
      refine ih (fun node hnode m hm => (hp node hnode m hm).mono_inputs fun i hi =>
        Or.inl (Need.push_inputs_of_mem hfragment hi)) (fun m hm => (n.inner_needs m hm).known) ?_ rfl
      cases n with
      | declared d => exact Or.inr (Need.Coded.needs (Or.inl ⟨d, rfl⟩))
      | code type => exact Or.inr (Need.Coded.needs (Or.inr ⟨type, rfl⟩))
      | fragment name => exact Or.inl rfl
      | operation j | arguments j =>
        refine Or.inl (hempty.resolve_right ?_)
        rintro (⟨d, hd⟩ | ⟨type, ht⟩)
        · cases hd
        · cases ht
    refine ihr (fun node hnode m hm => ?_) hneeds (hstack.imp id fun h => (List.forall_mem_cons.1 h).2) ho
    rcases Need.complete_eq hcomplete with ⟨-, heq⟩ | ⟨node', piece, hnode', -, heq⟩
    · exact (hpushed node (heq ▸ hnode) m hm).popped hcomplete
    · rw [heq, has_append_singleton] at hnode
      rcases hnode with hnode | rfl
      · exact (hpushed node hnode m hm).popped hcomplete
      · exact (hinner.done m (needsAt_eq (hknown _ hnode') ▸ hm)).popped hcomplete

/-! ## Whole states -/

/-- What was made in both is the same, but for the files. -/
def Progress.Agrees (p q : Progress) : Prop :=
  ∀ node piece piece', Assoc.get? p node = some piece → Assoc.get? q node = some piece' →
    piece'.draft = piece.draft ∧ piece'.fields = piece.fields

/-- A fragment was made in both, with the same fields. -/
def Progress.Shares (p q : Progress) (name : String) : Prop :=
  ∃ piece piece', Assoc.get? p (fragmentNode name) = some piece ∧ Assoc.get? q (fragmentNode name) = some piece' ∧
    piece'.fields = piece.fields

theorem Progress.sameFields_of_shares {L : Shape.Leaves} (h : ∀ name, L.Fragment name → p.Shares q name) :
    p.SameFields L q := by
  intro name hname
  obtain ⟨piece, piece', hp, hq, hfields⟩ := h name hname
  simp only [Progress.fieldsOf, Progress.heightOf, hp, hq, Option.bind_some, hfields, and_self]

theorem Progress.Agrees.shares {name : String} (h : q.Agrees p) (hp : Assoc.has p (fragmentNode name))
    (hq : Assoc.has q (fragmentNode name)) : p.Shares q name := by
  obtain ⟨piece, hpiece⟩ := Option.isSome_iff_exists.1 hp
  obtain ⟨piece', hpiece'⟩ := Option.isSome_iff_exists.1 hq
  exact ⟨piece, piece', hpiece, hpiece', (h _ _ _ hpiece' hpiece).2.symm⟩

/-- One more thing that was made agrees, if there is nothing else in its place. -/
theorem Progress.Agrees.append {piece : Piece} (h : p.Agrees q)
    (hpiece : ∀ piece', Assoc.get? q node = some piece' → piece'.draft = piece.draft ∧ piece'.fields = piece.fields) :
    Progress.Agrees (p ++ [(node, piece)]) q := by
  intro node' piece₁ piece₂ h₁ h₂
  cases hold : Assoc.get? p node' with
  | some old =>
    rw [Assoc.get?_append_left hold] at h₁
    exact h node' piece₁ piece₂ (h₁ ▸ hold) h₂
  | none =>
    rw [Assoc.get?_append_right hold, Assoc.get?_cons] at h₁
    split at h₁
    · rename_i heq
      subst heq
      cases h₁
      exact hpiece piece₂ h₂
    · cases h₁

/-- All that was made is in another progress too, maybe in other files. -/
def Progress.Within (p q : Progress) : Prop :=
  ∀ node piece, Assoc.get? p node = some piece →
    ∃ piece', Assoc.get? q node = some piece' ∧ piece'.draft = piece.draft ∧ piece'.fields = piece.fields

theorem Progress.Agrees.within (h : p.Agrees q) (hhas : ∀ node, Assoc.has p node → Assoc.has q node) : p.Within q := by
  intro node piece hpiece
  obtain ⟨piece', hpiece'⟩ := Option.isSome_iff_exists.1 (hhas node (by rw [Assoc.has, hpiece]; rfl))
  exact ⟨piece', hpiece', h node piece piece' hpiece hpiece'⟩

theorem Progress.Within.has (h : p.Within q) (hnode : Assoc.has p node) : Assoc.has q node := by
  obtain ⟨piece, hpiece⟩ := Option.isSome_iff_exists.1 hnode
  obtain ⟨piece', hpiece', -⟩ := h node piece hpiece
  rw [Assoc.has, hpiece']
  rfl

/-- What was made after `p` was made in `q` too, and all of it agrees. -/
structure Progress.Repeats (q p p' : Progress) : Prop where
  agrees : p'.Agrees q
  old : ∀ node, Assoc.has p' node → Assoc.has p node ∨ Assoc.has q node

theorem Progress.Repeats.refl (h : p.Agrees q) : q.Repeats p p :=
  ⟨h, fun _ => Or.inl⟩

theorem Progress.Repeats.trans {p₁ p₂ p₃ : Progress} (h : q.Repeats p₁ p₂) (h' : q.Repeats p₂ p₃) : q.Repeats p₁ p₃ :=
  ⟨h'.agrees, fun node hnode => (h'.old node hnode).elim (h.old node) Or.inr⟩

/-- What was made after nothing is all in `q`. -/
theorem Progress.Repeats.within (h : q.Repeats [] p) : p.Within q :=
  h.agrees.within fun node hnode => (h.old node hnode).resolve_left fun h => nomatch h

/-- What was made is right, nothing is left to make for it, and its fragments are in order. -/
structure Whole (c : Sources) (jobOf : String → Option Job) (s : State) (rank : String → Nat) : Prop where
  sound : Sound c (fun _ => False) jobOf .empty s
  furnished : Furnished c (fun _ => False) jobOf .empty s.progress
  ranked : Ranked c s.progress rank

/-- There is nothing to make for the need, and its node is known to stand for it. -/
structure Need.Due (c : Sources) (jobOf : String → Option Job) (p : Progress) (n : Need) : Prop where
  settled : n.Settled c .empty p
  known : n.Known jobOf

/-- Nothing is being made that stands lower than the need. -/
def Need.Below (rank : String → Nat) (stack : Stack) : Need → Prop
  | fragment name => ∀ other ∈ stack.fragments, rank name < rank other
  | operation _ | arguments _ => stack.fragments = []
  | declared _ | code _ => True

theorem Need.Coded.below {rank : String → Nat} (h : n.Coded) : n.Below rank stack := by
  rcases h with ⟨d, rfl⟩ | ⟨type, rfl⟩ <;> trivial

/-- The file is only noted. -/
theorem Need.complete_in {piece : Piece} (h : n.complete c file p = .ok (p ++ [(node, piece)])) (file' : String) :
    n.complete c file' p = .ok (p ++ [(node, { piece with file := file' })]) := by
  cases n with
  | declared d =>
    obtain ⟨draft, hd, h⟩ := except_bind_ok h
    cases List.append_cancel_left (Except.ok.inj h)
    simp only [Need.complete, hd]
    rfl
  | code type =>
    obtain ⟨text, -, h⟩ := except_bind_ok h
    have hlength := congrArg List.length (Except.ok.inj h)
    simp at hlength
  | fragment name =>
    obtain ⟨f, hf⟩ := Need.known_of_complete h
    simp only [Need.complete, hf] at h ⊢
    obtain ⟨s, hs, h⟩ := except_bind_ok h
    obtain ⟨piece', hpiece, h⟩ := except_bind_ok h
    obtain ⟨fields, hfields, hpiece⟩ := except_bind_ok hpiece
    obtain ⟨shape, hshape, hpiece⟩ := except_bind_ok hpiece
    cases List.append_cancel_left (Except.ok.inj h)
    cases hpiece
    simp only [hs, fragmentPiece, hfields, hshape, bind, Except.bind]
    rfl
  | operation j =>
    obtain ⟨s, hs, h⟩ := except_bind_ok h
    obtain ⟨shape, hshape, h⟩ := except_bind_ok h
    cases List.append_cancel_left (Except.ok.inj h)
    simp only [Need.complete, hs, hshape, bind, Except.bind]
    rfl
  | arguments j =>
    obtain ⟨draft, hd, h⟩ := except_bind_ok h
    cases List.append_cancel_left (Except.ok.inj h)
    simp only [Need.complete, hd]
    rfl

/-! ## States that were made from the same sources -/

section Agreement

variable {late' : TypeRef → Prop} {stack' : Stack} {s s' : State}

/-- What reaches fragments with the same fields alone is the same, wherever it was made. -/
theorem Sound.agrees_at (hs : Sound c late jobOf stack s) (hs' : Sound c late' jobOf stack' s') {piece piece' : Piece}
    (hpiece : Assoc.get? s.progress node = some piece) (hpiece' : Assoc.get? s'.progress node = some piece')
    (hshares : ∀ name, Reached c (spreadsOf c jobOf node) name → s.progress.Shares s'.progress name) :
    piece'.draft = piece.draft ∧ piece'.fields = piece.fields := by
  rw [get?_progress] at hpiece hpiece'
  obtain ⟨a, ha, rfl⟩ := Option.map_eq_some_iff.1 hpiece
  obtain ⟨a', ha', rfl⟩ := Option.map_eq_some_iff.1 hpiece'
  obtain ⟨n, hn, hmet⟩ := (hs.made node a ha).met
  obtain ⟨n', hn', hmet'⟩ := (hs'.made node a' ha').met
  cases hn.symm.trans hn'
  have hsame : s.progress.SameFields (c.leaves (Deep c (n.needs c))) s'.progress :=
    Progress.sameFields_of_shares fun name hname => hshares name (by
      rw [spreadsOf, needsAt_eq hn]
      exact deep_fragment.1 (fragment_leaves.1 hname))
  have hagain := Need.complete_in (Need.complete_congr hs.named (hs.closed _) hsame hmet) a'.origin.file
  have hsteps := List.append_cancel_left (Except.ok.inj (hagain.symm.trans hmet'))
  simp only [List.cons.injEq, Prod.mk.injEq, Piece.mk.injEq, true_and, and_true] at hsteps
  exact ⟨hsteps.1.symm, hsteps.2.symm⟩

/-- What a state has made reaches fragments that it has made. -/
theorem Sound.has_reached (hs : Sound c late jobOf stack s) (hnode : Assoc.has s.progress node) {name : String}
    (hname : Reached c (spreadsOf c jobOf node) name) : Assoc.has s.progress (fragmentNode name) := by
  rw [has_progress] at hnode ⊢
  obtain ⟨a, ha⟩ := Option.isSome_iff_exists.1 hnode
  exact hs.reached hname fun first hfirst => by
    obtain ⟨b, hb, -⟩ := hs.spread node a ha first hfirst
    rw [Assoc.has, hb]
    rfl

/-- What two sound states made from the same sources is the same. -/
theorem Sound.progress_agrees (hs : Sound c late jobOf stack s) (hs' : Sound c late' jobOf stack' s')
    (hordered : Ordered c s.progress) : s.progress.Agrees s'.progress := by
  obtain ⟨rank, hrank⟩ := hordered
  have hhas : ∀ {p : Progress} {node piece}, Assoc.get? p node = some piece → Assoc.has p node := fun h => by
    rw [Assoc.has, h]
    rfl
  -- a fragment is the same once those that it spreads are, which stand lower
  have hfragment : ∀ name, Assoc.has s.progress (fragmentNode name) → Assoc.has s'.progress (fragmentNode name) →
      s.progress.Shares s'.progress name := by
    intro name
    induction hr : rank name using Nat.strong_induction_on generalizing name with
    | _ r ih =>
      intro hname hname'
      obtain ⟨piece, hpiece⟩ := Option.isSome_iff_exists.1 hname
      obtain ⟨piece', hpiece'⟩ := Option.isSome_iff_exists.1 hname'
      refine ⟨piece, piece', hpiece, hpiece', (hs.agrees_at hs' hpiece hpiece' fun other hother => ?_).2⟩
      exact ih (rank other) (hr ▸ (hrank.reached_lt hname hother).2) other rfl (hs.has_reached hname hother)
        (hs'.has_reached hname' hother)
  intro node piece piece' hpiece hpiece'
  exact hs.agrees_at hs' hpiece hpiece' fun name hname =>
    hfragment name (hs.has_reached (hhas hpiece) hname) (hs'.has_reached (hhas hpiece') hname)

end Agreement

/-! ## Runs in whole states -/

section Whole

variable {s : State} {rank : String → Nat}

/-- What is needed for what is due is due. -/
theorem Whole.due (hw : Whole c jobOf s rank) (hn : n.Due c jobOf s.progress) :
    ∀ m ∈ n.needs c, m.Due c jobOf s.progress := by
  refine fun m hm => ⟨?_, (n.inner_needs m hm).known⟩
  cases hnode : n.node? with
  | none =>
    cases n with
    | code type =>
      obtain ⟨text, htext⟩ := hn.settled.1
      obtain ⟨d, rfl⟩ := declared_of_codePlan hm
      exact hn.settled.2 d hm
    | declared d | fragment name | operation j | arguments j => cases hnode
  | some node =>
    have hhas : Assoc.has s.progress node :=
      Need.has_of_settled hnode (fun m hm => absurd hm List.not_mem_nil) hn.settled
    refine (hw.furnished node hhas m (needsAt_eq (hn.known node hnode) ▸ hm)).resolve_right ?_
    rintro ⟨type, -, h⟩
    exact h

/-- Fragments that are reached from what is due were made. -/
theorem Whole.has_reached (hw : Whole c jobOf s rank) (hn : n.Due c jobOf s.progress) {name : String}
    (hname : (c.leaves (Deep c (n.needs c))).Fragment name) : Assoc.has s.progress (fragmentNode name) := by
  rw [has_progress]
  refine hw.sound.reached (deep_fragment.1 (fragment_leaves.1 hname)) fun first hfirst => ?_
  rw [← has_progress]
  exact (hw.due hn _ (mem_fragmentsIn.1 hfirst)).settled

/-- What is due can be met again, in any file, once what it needs was made; nothing new comes of it. -/
theorem Whole.complete (hw : Whole c jobOf s rank) (hn : n.Due c jobOf s.progress) (hp : p.Agrees s.progress)
    (hordered : Ordered c p) (hneeds : ∀ m ∈ n.needs c, m.Done c late (n.push stack) p) (file : String) :
    ∃ p', n.complete c file p = .ok p' ∧ s.progress.Repeats p p' := by
  cases hnode : n.node? with
  | none =>
    cases n with
    | code type =>
      obtain ⟨⟨text, htext⟩, -⟩ := hn.settled
      exact ⟨p, by simp only [Need.complete, htext]; rfl, .refl hp⟩
    | declared d | fragment name | operation j | arguments j => cases hnode
  | some node =>
    have hhas : Assoc.has s.progress node := Need.has_of_settled hnode (fun m hm => absurd hm List.not_mem_nil) hn.settled
    have hstored := hhas
    rw [has_progress] at hstored
    obtain ⟨a, ha⟩ := Option.isSome_iff_exists.1 hstored
    obtain ⟨n', hn', hmet⟩ := (hw.sound.made node a ha).met
    cases hn'.symm.trans (hn.known node hnode)
    have hshares : ∀ name, (c.leaves (Deep c (n.needs c))).Fragment name → s.progress.Shares p name := fun name hname =>
      hp.shares (hw.has_reached hn hname) (hordered.reached
        (fun first hfirst => (hneeds _ (mem_fragmentsIn.1 hfirst)).has_fragment) (deep_fragment.1 (fragment_leaves.1 hname)))
    have hagain := Need.complete_congr hw.sound.named (hw.sound.closed _) (Progress.sameFields_of_shares hshares) hmet
    refine ⟨_, Need.complete_in hagain file, hp.append fun piece hpiece => ?_, fun node' hnode' => ?_⟩
    · rw [get?_progress, ha] at hpiece
      cases hpiece
      exact ⟨rfl, rfl⟩
    · rcases has_append_singleton.1 hnode' with hnode' | rfl
      · exact Or.inl hnode'
      · exact Or.inr hhas

/-- What is needed for what is due stands lower than it, and than all that is being made. -/
theorem Whole.below (hw : Whole c jobOf s rank) (hn : n.Due c jobOf s.progress) (hbelow : n.Below rank stack) :
    ∀ m ∈ n.needs c, m.Below rank (n.push stack) := by
  intro m hm
  cases n with
  | declared d => exact (Need.Coded.needs (Or.inl ⟨d, rfl⟩) m hm).below
  | code type => exact (Need.Coded.needs (Or.inr ⟨type, rfl⟩) m hm).below
  | fragment name =>
    cases m with
    | declared d | code type => trivial
    | fragment other =>
      have hlt := (hw.ranked name hn.settled other hm).2
      intro above habove
      rcases List.mem_cons.1 habove with rfl | habove
      · exact hlt
      · exact hlt.trans (hbelow above habove)
    | operation j | arguments j => exact (Need.inner_needs _ _ hm).elim
  | operation j | arguments j =>
    cases m with
    | declared d | code type => trivial
    | fragment other =>
      intro above habove
      change above ∈ stack.fragments at habove
      rw [show stack.fragments = [] from hbelow] at habove
      cases habove
    | operation j | arguments j => exact (Need.inner_needs _ _ hm).elim

/-- A run that needs what a whole state has makes what is there. -/
theorem Run.retraces (hw : Whole c jobOf s rank) {needs : List Need} {o : Except Failure Progress}
    (h : Run c late stack file p needs o) (hp : p.Agrees s.progress) (hordered : Ordered c p)
    (hneeds : ∀ n ∈ needs, n.Due c jobOf s.progress) (hbelow : ∀ n ∈ needs, n.Below rank stack) :
    ∃ p', o = .ok p' ∧ s.progress.Repeats p p' := by
  induction h with
  | nil => exact ⟨_, rfl, .refl hp⟩
  | later _ _ ih | settled _ _ ih =>
    exact ih hp hordered (List.forall_mem_cons.1 hneeds).2 (List.forall_mem_cons.1 hbelow).2
  | @circular _ _ _ n _ _ hcircular =>
    cases n with
    | fragment name => exact absurd (hbelow _ List.mem_cons_self name hcircular) (lt_irrefl _)
    | declared d | code type | operation j | arguments j => exact hcircular.elim
  | broken _ _ _ ih =>
    have hn := hneeds _ List.mem_cons_self
    obtain ⟨p', h, -⟩ := ih hp hordered (hw.due hn) (hw.below hn (hbelow _ List.mem_cons_self))
    cases h
  | lacking _ _ hinner hcomplete ih =>
    have hn := hneeds _ List.mem_cons_self
    obtain ⟨p', h, hp'⟩ := ih hp hordered (hw.due hn) (hw.below hn (hbelow _ List.mem_cons_self))
    cases h
    obtain ⟨p', h, -⟩ := hw.complete hn hp'.agrees (hinner.ordered hordered) hinner.done _
    cases hcomplete.symm.trans h
  | built _ _ hinner hcomplete _ ih ihr =>
    have hn := hneeds _ List.mem_cons_self
    obtain ⟨p₁, h, hp₁⟩ := ih hp hordered (hw.due hn) (hw.below hn (hbelow _ List.mem_cons_self))
    cases h
    obtain ⟨p₂, h, hp₂⟩ := hw.complete hn hp₁.agrees (hinner.ordered hordered) hinner.done _
    cases hcomplete.symm.trans h
    obtain ⟨p', ho, hp'⟩ := ihr hp₂.agrees (Need.ordered_complete hcomplete hinner.done (hinner.ordered hordered))
      (List.forall_mem_cons.1 hneeds).2 (List.forall_mem_cons.1 hbelow).2
    exact ⟨p', ho, hp₁.trans (hp₂.trans hp')⟩

end Whole

end ResponseTypes.Compile
