import ResponseTypes.Proofs.Build.Sections
import ResponseTypes.Proofs.Exact.Coherent

/-!
# Exact responses

If there are neither interfaces nor unions, the shape of an operation's response, read with the generated shapes of
fragments in the places of references to them, holds what the operation asks for and nothing else, and each field has the
lists that its type has and may be missing where its type says so.  Where several parts give one field, one of them gives
all of it (`response_exact`).
-/

namespace ResponseTypes.Compile

set_option autoImplicit false

open GraphQL (FieldHead Operation Selection TypeDef TypeRef)

/-- What is selected in a fragment, before fragments are composed. -/
def writtenShape (c : Sources) (name : String) : Option Shape :=
  (Assoc.get? c.fragments name).bind fun f => ((fragmentPlan c.toConfig f).outcome c).toOption

/-- The shape that is generated for a fragment, given what was made so far. -/
def generatedShape (c : Sources) (p : Progress) (name : String) : Option Shape :=
  (writtenShape c name).bind fun s => (finished p s).toOption

variable {c : Sources}

/-! ## Inlined fragments -/

theorem areAllPlain_append (sels more : List Selection) :
    areAllPlain (sels ++ more) = (areAllPlain sels && areAllPlain more) := by
  induction sels with
  | nil => rfl
  | cons s rest ih => rw [List.cons_append, areAllPlain, areAllPlain, ih, Bool.and_assoc]

/-- Selections stand for others on a type if they collect the same. -/
structure StandFor (c : Sources) (t : TypeDef) (inlined sels : List Selection) : Prop where
  plain : areAllPlain inlined = true
  collects : ∀ head below, Collects c t.name inlined head below ↔ Collects c t.name sels head below

theorem StandFor.cons {t : TypeDef} {s : Selection} {inlined sels : List Selection} (hs : isPlain s = true)
    (h : StandFor c t inlined sels) : StandFor c t (s :: inlined) (s :: sels) := by
  refine ⟨by rw [areAllPlain, hs, h.plain]; rfl, fun head below => ?_⟩
  rw [collects_cons, h.collects, ← collects_cons]

/-- The selections of fragments on the root type stand for the spreads. -/
theorem inlineRoot_collects (hsimple : c.Simple) {root : TypeDef} (ht : Known c.toConfig root) (hobject : root.body.isObject = true)
    (inside : List String) (sels : List Selection) (hplain : areAllPlain sels = true) :
    ∀ inlined, (inlineRoot c root.name inside sels).outcome c = .ok inlined → StandFor c root inlined sels := by
  match sels with
  | [] =>
    intro inlined h
    rw [inlineRoot] at h
    cases h
    exact ⟨rfl, fun _ _ => Iff.rfl⟩
  | .spread name directives :: rest =>
    intro inlined h
    rw [areAllPlain, Bool.and_eq_true] at hplain
    have hrest := inlineRoot_collects hsimple ht hobject inside rest hplain.2
    rw [inlineRoot] at h
    simp only [Plan.outcome] at h
    cases hf : Assoc.get? c.fragments name with
    | none => simp [hf] at h
    | some f =>
      rw [hf] at h
      dsimp only at h
      split at h
      · rename_i hcondition
        split at h
        · cases h
        · rename_i hi
          have hless := remaining_cons_lt (Assoc.mem_keys_of_get? hf) hi
          obtain ⟨inner, hinner, h⟩ := Plan.outcome_bind_ok h
          obtain ⟨more, hmore, h⟩ := Plan.outcome_bind_ok h
          cases h
          have hone := inlineRoot_collects hsimple ht hobject (name :: inside) f.fragment.selections (hsimple.plain name f hf) inner hinner
          have hmore := hrest more hmore
          have happlies : c.schema.doesFragmentTypeApply f.fragment.condition root.name = true := by
            rw [hcondition]
            exact (Schema.applies_of_isObject ht hobject root.name).2 rfl
          refine ⟨by rw [areAllPlain_append, hone.plain, hmore.plain]; rfl, fun head below => ?_⟩
          rw [collects_append, hone.collects, hmore.collects, collects_cons (l := rest), collects_spread hf, and_iff_right happlies]
      · obtain ⟨more, hmore, h⟩ := Plan.outcome_bind_ok h
        cases h
        exact (hrest more hmore).cons hplain.1
  | .field head below :: rest =>
    intro inlined h
    rw [areAllPlain, Bool.and_eq_true] at hplain
    rw [inlineRoot] at h
    · obtain ⟨more, hmore, h⟩ := Plan.outcome_bind_ok h
      cases h
      exact (inlineRoot_collects hsimple ht hobject inside rest hplain.2 more hmore).cons hplain.1
    · exact fun _ _ => Selection.noConfusion
  | .inline condition directives below :: rest =>
    intro inlined h
    rw [areAllPlain, Bool.and_eq_true] at hplain
    rw [inlineRoot] at h
    · obtain ⟨more, hmore, h⟩ := Plan.outcome_bind_ok h
      cases h
      exact (inlineRoot_collects hsimple ht hobject inside rest hplain.2 more hmore).cons hplain.1
    · exact fun _ _ => Selection.noConfusion
termination_by (remaining (Assoc.keys c.fragments) inside, sizeOf sels)
decreasing_by
  all_goals first
    | exact Prod.Lex.left _ _ (by assumption)
    | exact Prod.Lex.right _ (by simp only [List.cons.sizeOf_spec]; omega)

/-! ## Fragments that were made -/

section Made

variable {late : TypeRef → Prop} {jobOf : String → Option Job} {stack : Stack} {s : State}

/-- A fragment was made. -/
def MadeIn (s : State) (name : String) : Prop :=
  Assoc.has s.store (fragmentNode name) = true

theorem needs_bind_left {α β : Type} {p : Plan α} {f : α → Plan β} {n : Need} (hn : n ∈ p.needs c) : n ∈ (p >>= f).needs c := by
  rw [Plan.needs_bind]
  exact List.mem_append_left _ hn

theorem needs_bind_right {α β : Type} {p : Plan α} {f : α → Plan β} {a : α} {n : Need} (ha : p.outcome c = .ok a)
    (hn : n ∈ (f a).needs c) : n ∈ (p >>= f).needs c := by
  rw [Plan.needs_bind, ha]
  exact List.mem_append_right _ hn

theorem outcome_fragmentPlan {f : FragmentDef} {shape : Shape} (h : (fragmentPlan c.toConfig f).outcome c = .ok shape) :
    ∃ t s, c.schema.type? f.fragment.condition = some t ∧ (selection c.toConfig t f.fragment.selections).outcome c = .ok s ∧
      shape = s.simplify ∧
      ∀ n ∈ (selection c.toConfig t f.fragment.selections).needs c, n ∈ (fragmentPlan c.toConfig f).needs c := by
  have hplan : fragmentPlan c.toConfig f = .count "fragments" (ensureHelpers c.toConfig >>= fun _ =>
      Plan.typeOf c.toConfig f.fragment.condition >>= fun t =>
        selection c.toConfig t f.fragment.selections >>= fun s => pure s.simplify) := rfl
  rw [hplan] at h ⊢
  obtain ⟨_, hhelpers, h⟩ := Plan.outcome_bind_ok h
  obtain ⟨t, ht, h⟩ := Plan.outcome_bind_ok h
  obtain ⟨s, hs, h⟩ := Plan.outcome_bind_ok h
  cases h
  exact ⟨t, s, Plan.outcome_typeOf ht, hs, rfl, fun n hn =>
    needs_bind_right hhelpers (needs_bind_right ht (needs_bind_left hn))⟩

/-- What a fragment's artifact was made from. -/
theorem Sound.fragment_made (h : Sound c late jobOf stack s) {name : String} {a : Artifact ArtifactKind}
    (ha : Assoc.get? s.store (fragmentNode name) = some a) :
    ∃ f shape fields shape', Assoc.get? c.fragments name = some f ∧ (fragmentPlan c.toConfig f).outcome c = .ok shape ∧
      (flatFields shape).answer s.progress.fieldsOf = .ok fields ∧ s.progress.fieldsOf name = some fields ∧
      finished s.progress shape = .ok shape' ∧ a.toDraft = fragmentDraft c.toConfig f shape' ∧
      ∀ other, .fragment other ∈ (fragmentPlan c.toConfig f).needs c → MadeIn s other := by
  obtain ⟨⟨n, hn, hmet⟩, hbacked⟩ := h.made _ a ha
  cases hn
  simp only [Need.Meets, Need.complete] at hmet
  cases hf : Assoc.get? c.fragments name with
  | none => simp [hf] at hmet
  | some f =>
    rw [hf] at hmet
    obtain ⟨shape, hshape, hmet⟩ := except_bind_ok hmet
    obtain ⟨piece, hpiece, hmet⟩ := except_bind_ok hmet
    obtain ⟨fields, hfields, hpiece⟩ := except_bind_ok hpiece
    obtain ⟨shape', hshape', hpiece⟩ := except_bind_ok hpiece
    have hentry := List.append_cancel_left (Except.ok.inj hmet)
    cases hpiece
    simp only [List.cons.injEq, Prod.mk.injEq, Piece.mk.injEq, true_and, and_true] at hentry
    refine ⟨f, shape, fields, shape', rfl, hshape, hfields, ?_, hshape', hentry.1.symm, fun other hother => ?_⟩
    · rw [Progress.fieldsOf, get?_progress, ha]
      change (s.fieldsAt (fragmentNode name)).map Prod.fst = some fields
      rw [← hentry.2]
      rfl
    · rw [needsAt_eq rfl, needs_fragment hf] at hbacked
      obtain ⟨a', ha', -⟩ := hbacked _ hother trivial
      rw [MadeIn, Assoc.has, ha']
      rfl

/-- Fragments that were made have the shapes and fields that are compiled for them. -/
theorem Sound.stocked (h : Sound c late jobOf stack s) :
    Stocked c (MadeIn s) (writtenShape c) (generatedShape c s.progress) s.progress.fieldsOf := by
  have hmade : ∀ name, MadeIn s name → ∃ f shape fields shape', Assoc.get? c.fragments name = some f ∧
      (fragmentPlan c.toConfig f).outcome c = .ok shape ∧ writtenShape c name = some shape ∧
      (flatFields shape).answer s.progress.fieldsOf = .ok fields ∧ s.progress.fieldsOf name = some fields ∧
      finished s.progress shape = .ok shape' ∧ generatedShape c s.progress name = some shape' ∧
      ∀ other, .fragment other ∈ (fragmentPlan c.toConfig f).needs c → MadeIn s other := by
    intro name hname
    obtain ⟨a, ha⟩ := Option.isSome_iff_exists.1 hname
    obtain ⟨f, shape, fields, shape', hf, hshape, hflat, hfields, hfinished, -, hneeds⟩ := h.fragment_made ha
    have hwritten : writtenShape c name = some shape := by
      rw [writtenShape, hf, Option.bind_some, hshape]
      rfl
    refine ⟨f, shape, fields, shape', hf, hshape, hwritten, hflat, hfields, hfinished, ?_, hneeds⟩
    rw [generatedShape, hwritten, Option.bind_some, hfinished]
    rfl
  refine ⟨fun name hname => ?_, fun name shape m hname hshape hm => ?_, fun name shape hname hshape => ?_⟩
  · obtain ⟨f, shape, -, -, hf, hshape, hwritten, -, -, -, -, hneeds⟩ := hmade name hname
    obtain ⟨t, s, ht, hs, rfl, hsub⟩ := outcome_fragmentPlan hshape
    exact ⟨f, t, s, hf, ht, hs, hwritten, fun other hother => hneeds other (hsub _ hother)⟩
  · obtain ⟨-, shape', fields, -, -, -, hwritten, hflat, hfields, -⟩ := hmade name hname
    cases hwritten.symm.trans hshape
    cases hfields.symm.trans hm
    exact hflat
  · obtain ⟨-, shape', -, final, -, -, hwritten, -, -, hfinished, hgenerated, -⟩ := hmade name hname
    cases hwritten.symm.trans hshape
    exact ⟨final, hgenerated, _, hfinished⟩

end Made

/-! ## Operations -/

/-- The shape of a response is what the operation's plan comes to, finished with the fragments that were made. -/
theorem runOn_operationShape {c : Setup} {late : TypeRef → Prop} {jobOf : String → Option Job} (hc : c.toSources.Named)
    {s s' : State} (hs : Good c.toSources late jobOf .empty s) {op : Operation} {root : TypeDef} (hroot : Known c.toConfig root)
    {shape : Shape} (h : (operationShape c op root).runOn s = (.ok shape, s')) :
    Good c.toSources late jobOf .empty s' ∧ ∃ written, (operationPlan c.toSources op root).outcome c.toSources = .ok written ∧
      finished s'.progress written = .ok shape ∧
      ∀ name, .fragment name ∈ (operationPlan c.toSources op root).needs c.toSources → MadeIn s' name := by
  have hgenerate : ∀ name f, Assoc.get? c.fragments name = some f →
      Follows c late jobOf .empty (generator c name) [.fragment name] (fun _ => .ok ())
        (Reached c.toSources (spreadsOf c.toSources jobOf (fragmentNode name))) :=
    fun name f hf => follows_generateFragment hc [] hf rfl rfl
  unfold operationShape at h
  rw [runOn_bind] at h
  rcases follows_select (keeps_operationPlan op hroot) rfl hgenerate s hs with ⟨e, -, he⟩ | ⟨p, hr, hrun⟩
  · obtain ⟨s₁, he⟩ := runOn_eq_of_fst he
    rw [he] at h
    cases h
  · cases hout : (operationPlan c.toSources op root).outcome c.toSources with
    | error e =>
      rw [hout] at hrun
      obtain ⟨s₁, he⟩ := runOn_eq_of_fst hrun
      rw [he] at h
      cases h
    | ok written =>
      rw [hout] at hrun
      obtain ⟨s₁, hrun, rfl, hg, -⟩ := hrun
      rw [hrun] at h
      dsimp only at h
      have hready := hr.ready fun name hname => Plan.fragment_known hname
      have hrefs : written.RefsIn (c.leaves (Deep c.toSources ((operationPlan c.toSources op root).needs c.toSources))) :=
        (refsIn_operationPlan hc hout).mono (Config.leaves_le fun _ => Or.inl) written
      have hfinish : Answered c.toSources late jobOf .empty _ s₁ (finish (generator c) written) (finished s₁.progress written) :=
        runOn_finishShape (reuses_generateFragment []) hg hready hrefs
      cases hfinished : finished s₁.progress written with
      | error e =>
        rw [hfinished] at hfinish
        obtain ⟨s₂, he⟩ := runOn_eq_of_fst hfinish
        rw [he] at h
        cases h
      | ok final =>
        rw [hfinished] at hfinish
        obtain ⟨s₂, hrun₂, hread⟩ := hfinish
        rw [hrun₂] at h
        cases h
        refine ⟨hread.good, written, rfl, hread.progress ▸ hfinished, fun name hname => ?_⟩
        rw [MadeIn, hread.store]
        exact hready.made name (mem_fragmentsIn.2 hname)

/-- A shape is exact for selections on a type: what stands at response paths is what is selected there, suits it, and is
composed of coherent parts, so that nothing is given twice in ways that contradict each other. -/
structure ExactFor (c : Sources) (generated : String → Option Shape) (t : TypeDef) (sels : List Selection) (s : Shape) : Prop where
  composite : s.IsComposite
  holds : ∀ path, path ≠ [] → (s.Holds generated path ↔ ∃ parent last, FieldAt c t sels path parent last)
  suits : ∀ path v parent last, s.At generated path v → FieldAt c t sels path parent last → SuitsField c parent last.name v
  coherent : ∀ path v u, s.At generated path v → v.element.IsComposite → ComposedOf generated v.element u →
    IsCoherent generated u

/-- Selections on a type can be compiled only if it is an object type, when there are neither interfaces nor unions. -/
theorem isObject_of_selection (hobjects : c.schema.ObjectsOnly) {t : TypeDef} (ht : Known c.toConfig t) {sels : List Selection}
    {s : Shape} (h : (selection c.toConfig t sels).outcome c = .ok s) : t.body.isObject = true := by
  by_contra hobject
  rw [selection, if_neg (by simp [hobjects _ t ht]), if_neg hobject] at h
  cases h

/-- What an operation's plan comes to is exact once it is finished. -/
theorem exactFor_finished (hc : c.Named) (hsimple : c.Simple) {R : String → Prop} {generated : String → Option Shape}
    {fieldsOf : String → Option Fields} (hstocked : Stocked c R (writtenShape c) generated fieldsOf) {op : Operation} {root : TypeDef}
    (hroot : Known c.toConfig root) (hplain : areAllPlain op.selections = true)
    (hsame : SameFields c root op.selections) {written shape : Shape} (hwritten : (operationPlan c op root).outcome c = .ok written)
    (hmade : ∀ name, .fragment name ∈ (operationPlan c op root).needs c → R name) (hfinish : Finishes fieldsOf written shape) :
    ExactFor c generated root op.selections shape := by
  obtain ⟨sels, hsels, houtcome⟩ := Plan.outcome_bind_ok hwritten
  obtain ⟨s, hs, houtcome⟩ := Plan.outcome_bind_ok houtcome
  cases houtcome
  have hobject := isObject_of_selection hsimple.objects hroot hs
  have hinlined := inlineRoot_collects hsimple hroot hobject [] op.selections hplain sels hsels
  obtain ⟨names, hnamed⟩ := hsame.namedBy
  have hwrites : Writes c R (writtenShape c) names root sels s :=
    selection_writes (N := fun n => ∀ other, n = .fragment other → Supplied c R (writtenShape c) other) hc hsimple
      (fun other h => h other rfl) names hroot hobject sels hinlined.plain (hnamed.mono fun head below => (hinlined.collects head below).1)
      (fun n hn other hother => (hstocked.exact hc hsimple other
        (hmade other (needs_bind_right hsels (needs_bind_left (hother ▸ hn))))).supplied) s hs
  rw [hwrites.simplify_eq hroot hobject] at hfinish
  have hconforms : Conforms c R names (.named root.name) false s := by
    rw [hwrites.eq_object]
    exact .object rfl hroot hobject hwrites.conforms.nodup hwrites.conforms.entries
  refine ⟨?_, fun path hpath => ?_, fun path v parent last hv hlast => ?_, fun path v u hv hcomposite hu => ?_⟩
  · rw [hwrites.eq_object] at hfinish
    exact (matches_of_conforms hsimple.distinct (hstocked.exact hc hsimple) hroot hobject hwrites.conforms hfinish).composite
  · rw [holds_finished hsimple.distinct (hstocked.exact hc hsimple) hconforms hfinish, hwrites.holds,
      selects_congr hinlined.collects, selects_iff hpath]
  · exact suitsField_finished hsimple.distinct (hstocked.exact hc hsimple) hconforms hfinish hv hroot hnamed hlast
  · exact coherent_finished hsimple.distinct (hstocked.exact hc hsimple)
      (fun name hname => hstocked.coheres hc hsimple name hname) hconforms hfinish hv hcomposite hu

/-- The shape of an operation's response is exact, with the shapes that the artifacts of fragments were written from. -/
theorem response_exact {c : Setup} {late : TypeRef → Prop} {jobOf : String → Option Job} (hc : c.toSources.Named)
    (hsimple : c.toSources.Simple) {s s' : State} (hs : Good c.toSources late jobOf .empty s) {op : Operation} {root : TypeDef}
    (hroot : Known c.toConfig root) (hplain : areAllPlain op.selections = true) (hsame : SameFields c.toSources root op.selections) {shape : Shape}
    (h : (operationShape c op root).runOn s = (.ok shape, s')) :
    ExactFor c.toSources (generatedShape c.toSources s'.progress) root op.selections shape ∧
      ∀ name a, Assoc.get? s'.store (fragmentNode name) = some a → ∃ f final, Assoc.get? c.fragments name = some f ∧
        generatedShape c.toSources s'.progress name = some final ∧ a.toDraft = fragmentDraft c.toConfig f final := by
  obtain ⟨hgood, written, hwritten, hfinished, hmade⟩ := runOn_operationShape hc hs hroot h
  have hsound := hgood.sound
  refine ⟨exactFor_finished hc hsimple hsound.stocked hroot hplain hsame hwritten hmade ⟨_, hfinished⟩, fun name a ha => ?_⟩
  obtain ⟨f, shape, -, final, hf, hshape, -, -, hfinal, hdraft, -⟩ := hsound.fragment_made ha
  refine ⟨f, final, hf, ?_, hdraft⟩
  rw [generatedShape, writtenShape, hf, Option.bind_some, hshape]
  change (finished s'.progress shape).toOption = some final
  rw [hfinal]
  rfl

end ResponseTypes.Compile
