import ResponseTypes.Proofs.Plan.Drafts
import ResponseTypes.Proofs.Plan.Meeting

/-!
# Other fragments

What was made stays what it is when the fragments of the sources change, except those that were made: plans ask for the
same and come to the same (`Plan.Same`), and reach the same fragments (`Agrees.reached`).
-/

namespace ResponseTypes.Compile

set_option autoImplicit false

open GraphQL (Operation Selection TypeDef TypeRef)

/-- The sources with other fragments. -/
def Sources.withFragments (c : Sources) (fragments : Assoc String FragmentDef) : Sources :=
  { c with fragments }

namespace Plan

variable {c : Sources} {fragments : Assoc String FragmentDef} {α β : Type}

/-- The first plan asks for the same, and comes to the same, as the second does with other fragments. -/
structure Same (c : Sources) (fragments : Assoc String FragmentDef) (p p' : Plan α) : Prop where
  outcome : p'.outcome (c.withFragments fragments) = p.outcome c
  needs : p'.needs (c.withFragments fragments) = p.needs c

theorem same_bind {p p' : Plan α} {f f' : α → Plan β} (hp : Same c fragments p p')
    (hf : ∀ a, p.outcome c = .ok a → Same c fragments (f a) (f' a)) : Same c fragments (p >>= f) (p' >>= f') := by
  constructor
  · rw [outcome_bind, outcome_bind, hp.outcome]
    cases ha : p.outcome c with
    | error e => rfl
    | ok a => exact (hf a ha).outcome
  · rw [needs_bind, needs_bind, hp.outcome, hp.needs]
    cases ha : p.outcome c with
    | error e => rfl
    | ok a => exact congrArg _ (hf a ha).needs

/-- A plan without fragments does not depend on them. -/
theorem same_of_codes (fragments : Assoc String FragmentDef) {p : Plan α} (h : p.Codes) : Same c fragments p p := by
  induction p with
  | done a | lack e => exact ⟨rfl, rfl⟩
  | declare d next ih => exact ⟨(ih h).outcome, congrArg _ (ih h).needs⟩
  | code type next ih => exact ⟨(ih _ (h _)).outcome, congrArg _ (ih _ (h _)).needs⟩
  | spread name next ih => exact h.elim
  | keep typeName sels body next _ ih => exact h.elim
  | count thing next ih => exact ⟨(ih h).outcome, (ih h).needs⟩

/-- These fragments are the same. -/
def Unchanged (c : Sources) (fragments : Assoc String FragmentDef) (needs : List Need) : Prop :=
  ∀ name, .fragment name ∈ needs → Assoc.get? fragments name = Assoc.get? c.fragments name

theorem same_spread {name : String} {f : FragmentDef} {p p' : FragmentDef → Plan α}
    (hf : Assoc.get? c.fragments name = some f)
    (hsame : Assoc.get? (c.withFragments fragments).fragments name = some f) (h : Same c fragments (p f) (p' f)) :
    Same c fragments (.spread name p) (.spread name p') := by
  constructor
  · simp only [Plan.outcome, hf, hsame, h.outcome]
  · simp only [Plan.needs, hf, hsame, h.needs]

/-- A plan that comes to a result does so as long as the fragments are the same that it asks for. -/
theorem same_of_unchanged {p : Plan α} {a : α} (hok : p.outcome c = .ok a) (h : Unchanged c fragments (p.needs c)) :
    Same c fragments p p := by
  induction p with
  | done a | lack e => exact ⟨rfl, rfl⟩
  | declare d next ih =>
    have hnext := ih hok fun name hname => h name (List.mem_cons_of_mem _ hname)
    exact ⟨hnext.outcome, congrArg _ hnext.needs⟩
  | code type next ih =>
    have hnext := ih _ hok fun name hname => h name (List.mem_cons_of_mem _ hname)
    exact ⟨hnext.outcome, congrArg _ hnext.needs⟩
  | spread name next ih =>
    cases hf : Assoc.get? c.fragments name with
    | none => simp [Plan.outcome, hf] at hok
    | some f =>
      simp only [Plan.outcome, hf] at hok
      simp only [Plan.needs, hf, Unchanged, List.mem_cons] at h
      exact same_spread hf ((h name (Or.inl rfl)).trans hf) (ih f hok fun other hother => h other (Or.inr hother))
  | keep typeName sels body next ihb ih =>
    cases hs : body.outcome c with
    | error e => simp [Plan.outcome, hs] at hok
    | ok s =>
      simp only [Plan.outcome, hs] at hok
      simp only [Plan.needs, hs, Unchanged, List.mem_append] at h
      have hbody := ihb hs fun name hname => h name (Or.inl hname)
      have hnext := ih s hok fun name hname => h name (Or.inr hname)
      constructor
      · simp only [Plan.outcome, hbody.outcome, hs, hnext.outcome]
      · simp only [Plan.needs, hbody.outcome, hs, hbody.needs, hnext.needs]
  | count thing next ih =>
    have hnext := ih hok h
    exact ⟨hnext.outcome, hnext.needs⟩

end Plan

/-! ## Operations -/

section Operations

variable {c : Sources} {fragments : Assoc String FragmentDef}

/-- A spread at the root, when the fragment is known. -/
theorem inlineRoot_spread {root name : String} {inside : List String} {directives : List GraphQL.Directive}
    {rest : List Selection} {f : FragmentDef} (hf : Assoc.get? c.fragments name = some f) :
    inlineRoot c root inside (.spread name directives :: rest) = .spread name fun _ =>
      if f.fragment.condition = root then
        if name ∈ inside then .lack (fun _ => .endless)
        else do
          let inlined ← inlineRoot c root (name :: inside) f.fragment.selections
          return inlined ++ (← inlineRoot c root inside rest)
      else do return .spread name directives :: (← inlineRoot c root inside rest) := by
  rw [inlineRoot]
  congr 1
  funext _
  split
  · rename_i hnone
    cases hf.symm.trans hnone
  · rename_i f' hf'
    cases hf.symm.trans hf'
    congr 1

/-- The root fragments of an operation are the same as long as the fragments are the same that it asks for. -/
theorem same_inlineRoot (root : String) (inside : List String) (sels : List Selection) {inlined : List Selection}
    (hok : (inlineRoot c root inside sels).outcome c = .ok inlined)
    (h : Plan.Unchanged c fragments ((inlineRoot c root inside sels).needs c)) :
    Plan.Same c fragments (inlineRoot c root inside sels)
      (inlineRoot (c.withFragments fragments) root inside sels) := by
  match sels with
  | [] =>
    rw [inlineRoot, inlineRoot]
    exact ⟨rfl, rfl⟩
  | .spread name directives :: rest =>
    cases hf : Assoc.get? c.fragments name with
    | none =>
      rw [inlineRoot] at hok
      simp [Plan.outcome, hf] at hok
    | some f =>
      rw [inlineRoot_spread hf] at hok h ⊢
      simp only [Plan.needs, hf, Plan.Unchanged, List.mem_cons] at h
      have hsame : Assoc.get? (c.withFragments fragments).fragments name = some f := (h name (Or.inl rfl)).trans hf
      rw [inlineRoot_spread hsame]
      refine Plan.same_spread hf hsame ?_
      simp only [Plan.outcome, hf] at hok
      by_cases hroot : f.fragment.condition = root
      · by_cases hi : name ∈ inside
        · simp only [if_pos hroot, if_pos hi]
          exact ⟨rfl, rfl⟩
        · have hless := remaining_cons_lt (Assoc.mem_keys_of_get? hf) hi
          simp only [if_pos hroot, if_neg hi] at hok h ⊢
          obtain ⟨first, hfirst, hok⟩ := Plan.outcome_bind_ok hok
          rw [Plan.needs_bind, hfirst] at h
          refine Plan.same_bind (same_inlineRoot root (name :: inside) f.fragment.selections hfirst
            fun other hother => h other (Or.inr (List.mem_append_left _ hother))) fun a ha => ?_
          cases hfirst.symm.trans ha
          obtain ⟨second, hsecond, -⟩ := Plan.outcome_bind_ok hok
          dsimp only at h
          rw [Plan.needs_bind] at h
          exact Plan.same_bind (same_inlineRoot root inside rest hsecond fun other hother =>
            h other (Or.inr (List.mem_append_right _ (List.mem_append_left _ hother)))) fun _ _ => ⟨rfl, rfl⟩
      · simp only [if_neg hroot] at hok h ⊢
        obtain ⟨second, hsecond, -⟩ := Plan.outcome_bind_ok hok
        rw [Plan.needs_bind] at h
        exact Plan.same_bind (same_inlineRoot root inside rest hsecond fun other hother =>
          h other (Or.inr (List.mem_append_left _ hother))) fun _ _ => ⟨rfl, rfl⟩
  | .field head below :: rest =>
    rw [inlineRoot] at hok h ⊢
    · rw [inlineRoot]
      · obtain ⟨second, hsecond, -⟩ := Plan.outcome_bind_ok hok
        rw [Plan.needs_bind] at h
        exact Plan.same_bind (same_inlineRoot root inside rest hsecond fun other hother =>
          h other (List.mem_append_left _ hother)) fun _ _ => ⟨rfl, rfl⟩
      · exact fun _ _ => Selection.noConfusion
    all_goals exact fun _ _ => Selection.noConfusion
  | .inline condition directives below :: rest =>
    rw [inlineRoot] at hok h ⊢
    · rw [inlineRoot]
      · obtain ⟨second, hsecond, -⟩ := Plan.outcome_bind_ok hok
        rw [Plan.needs_bind] at h
        exact Plan.same_bind (same_inlineRoot root inside rest hsecond fun other hother =>
          h other (List.mem_append_left _ hother)) fun _ _ => ⟨rfl, rfl⟩
      · exact fun _ _ => Selection.noConfusion
    all_goals exact fun _ _ => Selection.noConfusion
termination_by (remaining (Assoc.keys c.fragments) inside, sizeOf sels)
decreasing_by
  all_goals first
    | exact Prod.Lex.left _ _ (by assumption)
    | exact Prod.Lex.right _ (by simp only [List.cons.sizeOf_spec]; omega)

/-- The response of an operation is the same as long as the fragments are the same that it asks for. -/
theorem same_operationPlan {op : Operation} {root : TypeDef} {s : Shape}
    (hok : (operationPlan c op root).outcome c = .ok s)
    (h : Plan.Unchanged c fragments ((operationPlan c op root).needs c)) :
    Plan.Same c fragments (operationPlan c op root) (operationPlan (c.withFragments fragments) op root) := by
  obtain ⟨sels, hsels, hok⟩ := Plan.outcome_bind_ok hok
  unfold operationPlan at h
  rw [Plan.needs_bind, hsels] at h
  refine Plan.same_bind (same_inlineRoot root.name [] op.selections hsels fun other hother =>
    h other (List.mem_append_left _ hother)) fun a ha => ?_
  cases hsels.symm.trans ha
  exact Plan.same_of_unchanged hok fun other hother => h other (List.mem_append_right _ hother)

end Operations

/-! ## Needs -/

section Needs

variable {c : Sources} {fragments : Assoc String FragmentDef}

/-- A need is met in the same way with other fragments. -/
structure Need.Same (c : Sources) (fragments : Assoc String FragmentDef) (n : Need) : Prop where
  needs : n.needs (c.withFragments fragments) = n.needs c
  complete : ∀ file p, n.complete (c.withFragments fragments) file p = n.complete c file p

/-- A need that can be met is met in the same way as long as the fragments are the same that it asks for. -/
theorem Need.same_of_unchanged {n : Need} {file : String} {p p' : Progress} (hok : n.complete c file p = .ok p')
    (hneeds : Plan.Unchanged c fragments (n.needs c))
    (hself : ∀ name, n = .fragment name → Assoc.get? fragments name = Assoc.get? c.fragments name) :
    n.Same c fragments := by
  cases n with
  | declared d =>
    have hsame := Plan.same_of_codes (c := c) fragments (p := draft c.toConfig d) (codes_draft d)
    exact ⟨hsame.needs, fun _ _ => congrArg (· >>= _) hsame.outcome⟩
  | code type =>
    have hsame := Plan.same_of_codes (c := c) fragments (p := codePlan c.toConfig type) (codes_codePlan type)
    exact ⟨hsame.needs, fun _ _ => congrArg (· >>= _) hsame.outcome⟩
  | fragment name =>
    simp only [Need.complete] at hok
    cases hf : Assoc.get? c.fragments name with
    | none => simp [hf] at hok
    | some f =>
      rw [hf] at hok
      obtain ⟨s, hs, -⟩ := except_bind_ok hok
      rw [needs_fragment hf] at hneeds
      have hf' : Assoc.get? (c.withFragments fragments).fragments name = some f := (hself name rfl).trans hf
      have hsame := Plan.same_of_unchanged hs hneeds
      refine ⟨by rw [needs_fragment hf, needs_fragment hf', ← hsame.needs]; rfl, fun _ _ => ?_⟩
      simp only [Need.complete, hf, hf']
      exact congrArg (· >>= _) hsame.outcome
  | operation j =>
    obtain ⟨s, hs, -⟩ := except_bind_ok hok
    have hsame := same_operationPlan hs fun name hname => hneeds name (List.mem_append_right _ hname)
    have hhelpers := Plan.same_of_codes (c := c) fragments (p := ensureHelpers c.toConfig) codes_ensureHelpers
    refine ⟨?_, fun _ _ => congrArg (· >>= _) hsame.outcome⟩
    exact congrArg₂ (· ++ ·) hhelpers.needs hsame.needs
  | arguments j =>
    have hsame := Plan.same_of_codes (c := c) fragments (p := variablesPlan c.toConfig j) (codes_variablesPlan j)
    exact ⟨hsame.needs, fun _ _ => congrArg (· >>= _) hsame.outcome⟩

/-- These fragments spread only each other, and are the same. -/
structure Agrees (c : Sources) (fragments : Assoc String FragmentDef) (kept : String → Prop) : Prop where
  spread : ∀ name other, kept name → Spreads c name other → kept other
  same : ∀ name, kept name → (Need.fragment name).Same c fragments

namespace Agrees

variable {kept : String → Prop} {names : List String} {other : String} {needs : List Need} {n : Need}

/-- What is reached from kept fragments is kept. -/
theorem kept_of_reached (h : Agrees c fragments kept) (hnames : ∀ name ∈ names, kept name)
    (hr : Reached c names other) : kept other := by
  obtain ⟨name, hname, hr⟩ := hr
  induction hr with
  | refl => exact hnames name hname
  | tail _ hs ih => exact h.spread _ _ ih hs

theorem spreads (h : Agrees c fragments kept) {name : String} (hname : kept name) :
    Spreads (c.withFragments fragments) name other ↔ Spreads c name other := by
  rw [Spreads, Spreads, (h.same name hname).needs]

/-- The same fragments are reached. -/
theorem reached (h : Agrees c fragments kept) (hnames : ∀ name ∈ names, kept name) :
    Reached (c.withFragments fragments) names other ↔ Reached c names other := by
  constructor
  · rintro ⟨name, hname, hr⟩
    refine ⟨name, hname, ?_⟩
    induction hr with
    | refl => exact .refl
    | tail _ hs ih => exact ih.tail ((h.spreads (h.kept_of_reached hnames ⟨name, hname, ih⟩)).1 hs)
  · rintro ⟨name, hname, hr⟩
    refine ⟨name, hname, ?_⟩
    have hkept : ∀ {last}, Relation.ReflTransGen (Spreads c) name last → kept last :=
      fun hr => h.kept_of_reached hnames ⟨name, hname, hr⟩
    induction hr with
    | refl => exact .refl
    | tail hr hs ih => exact ih.tail ((h.spreads (hkept hr)).2 hs)

/-- The same is needed, for fragments too. -/
theorem deep (h : Agrees c fragments kept) (hneeds : ∀ name, .fragment name ∈ needs → kept name) :
    Deep (c.withFragments fragments) needs = Deep c needs := by
  have hnames : ∀ name ∈ fragmentsIn needs, kept name := fun name hname => hneeds name (mem_fragmentsIn.1 hname)
  funext n
  refine propext (or_congr Iff.rfl (exists_congr fun name => ?_))
  rw [h.reached hnames]
  exact and_congr_right fun hr => by rw [(h.same name (h.kept_of_reached hnames hr)).needs]

end Agrees

end Needs

/-! ## States -/

section States

variable {c : Sources} {fragments : Assoc String FragmentDef} {late : TypeRef → Prop} {jobOf jobOf' : String → Option Job}
  {stack : Stack} {s : State}

/-- What meeting a need adds stands under its node. -/
theorem Need.node_of_complete {n : Need} {file : String} {p : Progress} {node : Node} {piece : Piece}
    (h : n.complete c file p = .ok (p ++ [(node, piece)])) : n.node? = some node := by
  rcases Need.complete_eq h with ⟨-, hsame⟩ | ⟨node', piece', hnode, -, hadded⟩
  · have hlength := congrArg List.length hsame
    simp at hlength
  · cases List.append_cancel_left hadded
    exact hnode

/-- The sources have other fragments, but the same where fragments were made. -/
structure Unmoved (c : Sources) (fragments : Assoc String FragmentDef) (s : State) : Prop where
  same : ∀ name, Assoc.has s.store (fragmentNode name) → Assoc.get? fragments name = Assoc.get? c.fragments name
  named : (c.withFragments fragments).Named

theorem Need.Backed.has_fragment {name : String} {o : Origin} (h : (Need.fragment name).Backed s o) :
    Assoc.has s.store (fragmentNode name) :=
  has_progress s _ ▸ Compile.Backed.has h

/-- What was made is met in the same way. -/
theorem Sound.same (h : Sound c late jobOf stack s) (hu : Unmoved c fragments s) {node : Node}
    {a : Artifact ArtifactKind} (ha : Assoc.get? s.store node = some a) :
    ∃ n, needOf jobOf node = some n ∧ n.Meets c s node a ∧ n.Same c fragments := by
  obtain ⟨⟨n, hn, hmet⟩, hbacked⟩ := h.made node a ha
  refine ⟨n, hn, hmet, Need.same_of_unchanged hmet (fun name hname => hu.same name ?_) ?_⟩
  · exact (hbacked (.fragment name) (needsAt_eq hn ▸ hname) trivial).has_fragment
  · rintro name rfl
    refine hu.same name ?_
    cases Need.node_of_complete hmet
    rw [Assoc.has, ha]
    rfl

/-- The fragments that were made are the same. -/
theorem Sound.agrees (h : Sound c late jobOf stack s) (hu : Unmoved c fragments s) :
    Agrees c fragments (fun name => Assoc.has s.store (fragmentNode name)) where
  spread name other hname hs := by
    obtain ⟨a, ha⟩ := Option.isSome_iff_exists.1 hname
    exact ((h.made _ a ha).backed _ hs trivial).has_fragment
  same name hname := by
    obtain ⟨a, ha⟩ := Option.isSome_iff_exists.1 hname
    obtain ⟨n, hn, -, hsame⟩ := h.same hu ha
    cases hn
    exact hsame

theorem Sound.needsAt_withFragments (h : Sound c late jobOf stack s) (hu : Unmoved c fragments s) {node : Node}
    (hhas : Assoc.has s.store node) (hjob : needOf jobOf' node = needOf jobOf node) :
    needsAt (c.withFragments fragments) jobOf' node = needsAt c jobOf node := by
  obtain ⟨a, ha⟩ := Option.isSome_iff_exists.1 hhas
  obtain ⟨n, hn, -, hsame⟩ := h.same hu ha
  rw [needsAt_eq hn, needsAt_eq (hjob.trans hn), hsame.needs]

/-- What was kept is right for other fragments too, as long as those are the same that were made, and the operations
too. -/
theorem Sound.withFragments (h : Sound c late jobOf stack s) (hu : Unmoved c fragments s)
    (hjobs : ∀ node, Assoc.has s.store node → needOf jobOf' node = needOf jobOf node) :
    Sound (c.withFragments fragments) late jobOf' stack s := by
  have hagrees := h.agrees hu
  have hnode : ∀ {node}, Assoc.has s.store node → needsAt (c.withFragments fragments) jobOf' node = needsAt c jobOf node :=
    fun hhas => h.needsAt_withFragments hu hhas (hjobs _ hhas)
  have hcode : ∀ type, Plan.Same c fragments (codePlan c.toConfig type) (codePlan c.toConfig type) :=
    fun type => Plan.same_of_codes _ (codes_codePlan type)
  have hhas : ∀ {node} {a : Artifact ArtifactKind}, Assoc.get? s.store node = some a → Assoc.has s.store node :=
    fun ha => by rw [Assoc.has, ha]; rfl
  refine ⟨hu.named, h.distinct, fun name hname => ?_, h.maps, fun node a ha => ?_, fun node a ha name => ?_,
    fun typeName sels shape origin he t ht => ?_, fun type text origin he => ?_, fun type ht => ?_, h.kinds, h.unmade⟩
  · obtain ⟨m, hm, hrefs⟩ := h.fields name hname
    refine ⟨m, hm, ?_⟩
    rw [(hagrees.same name hname).needs, hagrees.deep fun other hother => hagrees.spread _ _ hname hother]
    exact hrefs
  · obtain ⟨n, hn, hmet, hsame⟩ := h.same hu ha
    exact ⟨⟨n, (hjobs node (hhas ha)).trans hn, (hsame.complete _ _).trans hmet⟩, fun m hm hsel =>
      (h.made node a ha).backed m (hnode (hhas ha) ▸ hm) hsel⟩
  · rw [h.uses node a ha, spreadsOf, spreadsOf, hnode (hhas ha)]
    refine (hagrees.reached fun other hother => ?_).symm
    exact ((h.made node a ha).backed _ (mem_fragmentsIn.1 hother) trivial).has_fragment
  · obtain ⟨hout, hneeds, huses⟩ := h.shapes typeName sels shape origin he t ht
    have hsame : Plan.Same c fragments (selection c.toConfig t sels) (selection c.toConfig t sels) :=
      Plan.same_of_unchanged hout fun name hname => hu.same name (hneeds _ hname).has_fragment
    refine ⟨hsame.outcome.trans hout, fun n hn => hneeds n (hsame.needs ▸ hn), fun name => ?_⟩
    rw [huses name, ← hsame.needs]
    refine (hagrees.reached fun other hother => ?_).symm
    exact (hneeds _ (hsame.needs ▸ mem_fragmentsIn.1 hother)).has_fragment
  · obtain ⟨hout, hdone, huses⟩ := h.inputs type text origin he
    refine ⟨(hcode type).outcome.trans hout, hdone.imp ?_ id, huses⟩
    rintro ⟨⟨text, htext⟩, hsettled⟩
    exact ⟨⟨text, (hcode type).outcome.trans htext⟩, fun d hd => hsettled d ((hcode type).needs ▸ hd)⟩
  · obtain ⟨text, htext⟩ := h.late type ht
    exact ⟨text, (hcode type).outcome.trans htext⟩

end States

end ResponseTypes.Compile
