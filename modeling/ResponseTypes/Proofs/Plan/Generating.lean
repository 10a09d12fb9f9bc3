import ResponseTypes.Proofs.Plan.Declaring

/-!
# Generating fragments

Generating a fragment does what a run does (`follows_generateFragment`).  A query on fragments that were made changes
nothing but what scopes have recorded (`Reads`).
-/

namespace ResponseTypes.Compile

set_option autoImplicit false

open GraphQL (Selection TypeDef TypeRef)
open Dependency (fragmentsUsed)
open Shape (RefsIn FieldRefsIn)

/-! ## Reading fields -/

section Reads

variable {c : Setup} {late : TypeRef → Prop} {jobOf : String → Option Job} {stack : Stack} {names : List String}

/-- The second state is the first after fragments that `names` reach were used again. -/
structure Reads (c : Sources) (late : TypeRef → Prop) (jobOf : String → Option Job) (stack : Stack)
    (names : List String) (s s' : State) : Prop where
  good : Good c late jobOf stack s'
  store : s'.store = s.store
  fields : ∀ node, s'.fieldsAt node = s.fieldsAt node
  maps : ∀ name, Assoc.get? s.store (fragmentNode name) = none →
    Assoc.get? s'.fieldMaps name = Assoc.get? s.fieldMaps name
  codes : s'.inputs.entries = s.inputs.entries
  moves : ∃ U, (∀ f, U f → Reached c names f) ∧ s.tracker.Moves U s'.tracker

namespace Reads

variable {c : Sources} {s s' s'' : State}

theorem refl (h : Good c late jobOf stack s) : Reads c late jobOf stack names s s :=
  ⟨h, rfl, fun _ => rfl, fun _ _ => rfl, rfl, _, fun _ => False.elim, Tracker.Moves.refl _⟩

theorem trans (h : Reads c late jobOf stack names s s') (h' : Reads c late jobOf stack names s' s'') :
    Reads c late jobOf stack names s s'' := by
  obtain ⟨U, hU, hm⟩ := h.moves
  obtain ⟨V, hV, hm'⟩ := h'.moves
  exact ⟨h'.good, h'.store.trans h.store, fun node => (h'.fields node).trans (h.fields node),
    fun name hname => (h'.maps name (h.store ▸ hname)).trans (h.maps name hname), h'.codes.trans h.codes, _,
    fun f hf => hf.elim (hU f) (hV f), hm.trans hm'⟩

theorem progress (h : Reads c late jobOf stack names s s') : s'.progress = s.progress :=
  progress_congr h.store fun node _ => h.fields node

theorem file (h : Reads c late jobOf stack names s s') : s'.tracker.currentFile = s.tracker.currentFile := by
  obtain ⟨U, -, hm⟩ := h.moves
  exact hm.file

/-- Fragments that were used already are used again without effect. -/
theorem effect {c : Setup} {s₀ : State} {needs : List Need} (h : Reads c.toSources late jobOf stack names s s')
    (he : Effect c jobOf stack (Reached c.toSources names) needs s₀ s) :
    Effect c jobOf stack (Reached c.toSources names) needs s₀ s' := by
  obtain ⟨U, hU, hm⟩ := h.moves
  have hread : Effect c jobOf stack U [] s s' := .of_eq hm h.store h.codes fun _ hn => absurd hn List.not_mem_nil
  have := he.trans hread (h.store ▸ h.good.sound.unmade.2)
  rw [List.append_nil] at this
  exact this.mono fun f => ⟨fun hf => hf.elim id (hU f), Or.inl⟩

end Reads

/-- The generator uses fragments that were made again. -/
def Reuses (c : Sources) (late : TypeRef → Prop) (jobOf : String → Option Job) (stack : Stack) (generate : Generator) :
    Prop :=
  ∀ s name, Good c late jobOf stack s → (∃ f, Assoc.get? c.fragments name = some f) →
    Assoc.has s.store (fragmentNode name) →
    ∃ s', (generate name).runOn s = (.ok (), s') ∧ Reads c late jobOf stack [name] s s'

theorem Reads.mono {c : Sources} {names' : List String} {s s' : State} (h : Reads c late jobOf stack names s s')
    (hnames : ∀ name ∈ names, Reached c names' name) : Reads c late jobOf stack names' s s' := by
  obtain ⟨U, hU, hm⟩ := h.moves
  exact { h with moves := ⟨U, fun f hf => Reached.trans hnames (hU f hf), hm⟩ }

/-- The fragments that `names` reach exist and were made. -/
structure Ready (c : Sources) (names : List String) (s : State) : Prop where
  known : ∀ name ∈ names, ∃ f, Assoc.get? c.fragments name = some f
  made : ∀ name ∈ names, Assoc.has s.store (fragmentNode name)

theorem Ready.of_store {c : Sources} {s s' : State} (h : Ready c names s) (hs : s'.store = s.store) : Ready c names s' :=
  ⟨h.known, hs ▸ h.made⟩

/-- A step comes to a result, and does nothing but to use fragments that were made again. -/
def Answered (c : Sources) (late : TypeRef → Prop) (jobOf : String → Option Job) (stack : Stack) (names : List String)
    (s : State) {α : Type} (act : Step α) : Except Lack α → Prop
  | .error e => (act.runOn s).1 = .error (e (some s.tracker.currentFile))
  | .ok a => ∃ s', act.runOn s = (.ok a, s') ∧ Reads c late jobOf stack names s s'

/-- Carrying a query out gives its answer. -/
theorem runOn_query {c : Sources} {generate : Generator} (hgen : Reuses c late jobOf stack generate) {α : Type}
    {P : α → Prop} {q : Query α} {s : State} (hs : Good c late jobOf stack s) (hready : Ready c names s)
    (hq : q.Within (Reached c names) s.progress.fieldsOf P) :
    Answered c late jobOf stack names s (q.perform (fragmentFields generate)) (q.answer s.progress.fieldsOf) := by
  induction q generalizing s with
  | done a => exact ⟨s, rfl, Reads.refl hs⟩
  | lack e => rfl
  | fields name next ih =>
    have hmade := hs.sound.reached hq.1 hready.made
    obtain ⟨s₁, hrun, hread⟩ := hgen s name hs (hq.1.known hready.known) hmade
    have hreads : Reads c late jobOf stack names s s₁ := hread.mono fun n hn => List.mem_singleton.1 hn ▸ hq.1
    obtain ⟨m, hm, hfields, -⟩ := get?_fieldMaps hread.good.sound (hread.store ▸ hmade)
    have hget : (fragmentFields generate name).runOn s = (.ok m.fields, s₁) := by
      unfold fragmentFields
      rw [runOn_bind, hrun]
      dsimp only
      rw [runOn_bind, runOn_read]
      simp only [State.fieldMapsPart, hm]
      rfl
    have hperform : ((Query.fields name next).perform (fragmentFields generate)).runOn s =
        ((next m.fields).perform (fragmentFields generate)).runOn s₁ := by
      rw [Query.perform, runOn_bind, hget]
    rw [hread.progress] at hfields
    have hnext := ih m.fields hread.good (hready.of_store hread.store) (hread.progress ▸ hq.2 m.fields hfields)
    rw [hread.progress] at hnext
    simp only [Query.answer, hfields]
    cases hanswer : (next m.fields).answer s.progress.fieldsOf with
    | error e =>
      rw [hanswer, Answered, hread.file] at hnext
      rw [Answered, hperform]
      exact hnext
    | ok a =>
      rw [hanswer] at hnext
      obtain ⟨s', hrun', hread'⟩ := hnext
      exact ⟨s', hperform.trans hrun', hreads.trans hread'⟩

/-- Fragments that were made are as high as they are said to be. -/
theorem heightIn_of_reached {c : Sources} {s : State} (hs : Good c late jobOf stack s) (hready : Ready c names s)
    {name : String} (hname : Reached c names name) : heightIn s.fieldMaps name = s.progress.heightOf name := by
  obtain ⟨m, hm, -, hheight⟩ := get?_fieldMaps hs.sound (hs.sound.reached hname hready.made)
  rw [hheight, heightIn, hm]
  rfl

/-- Finishing a shape gives what a run makes of it. -/
theorem runOn_finishShape {c : Sources} {generate : Generator} (hgen : Reuses c late jobOf stack generate) {shape : Shape}
    {needs : List Need} {s : State} (hs : Good c late jobOf stack s) (hready : Ready c (fragmentsIn needs) s)
    (hrefs : shape.RefsIn (c.leaves (Deep c needs))) :
    Answered c late jobOf stack (fragmentsIn needs) s (finish generate shape) (finished s.progress shape) := by
  have hheight : height (heightIn s.fieldMaps) shape = height s.progress.heightOf shape := by
    refine height_congr (fun name hname => ?_) shape hrefs
    rw [leaves_fragment] at hname
    exact heightIn_of_reached hs hready hname
  have hrun : (finish generate shape).runOn s =
      ((finishWithin (height s.progress.heightOf shape) shape).perform (fragmentFields generate)).runOn s := by
    unfold finish
    rw [runOn_bind, runOn_read]
    exact congrArg (fun h => ((finishWithin h shape).perform (fragmentFields generate)).runOn s) hheight
  have hquery := runOn_query hgen hs hready
    (leaves_fragment c needs ▸ finishWithin_within (hs.sound.closed needs) (height s.progress.heightOf shape) shape hrefs)
  unfold finished
  cases hout : (finishWithin (height s.progress.heightOf shape) shape).answer s.progress.fieldsOf with
  | error e =>
    rw [hout] at hquery
    exact (congrArg Prod.fst hrun).trans hquery
  | ok a =>
    rw [hout] at hquery
    obtain ⟨s', hrun', hread⟩ := hquery
    exact ⟨s', hrun.trans hrun', hread⟩

end Reads

/-! ## Generating fragments -/

section Fragments

variable {c : Setup} {late : TypeRef → Prop} {jobOf : String → Option Job} {stack : Stack}

theorem runOn_discard {σ α : Type} (act : Action σ α) (s : σ) :
    (discard act).runOn s = match act.runOn s with
      | (.ok _, s') => (.ok (), s')
      | (.error e, s') => (.error e, s') := by
  change (act >>= fun a => pure (Function.const α PUnit.unit a)).runOn s = _
  rw [runOn_bind]
  rfl

/-- The fields of fragments with other keys. -/
def withFieldMaps (s : State) (maps : Assoc String FieldMap) : State :=
  { s with fieldMaps := maps }

/-- The same fields, with keys that the fragments depend on. -/
structure SameFieldMaps (s : State) (maps : Assoc String FieldMap) : Prop where
  distinct : (Assoc.keys s.fieldMaps).Nodup → (Assoc.keys maps).Nodup
  fields : ∀ other, (Assoc.get? maps other).map (fun m => (m.fields, m.height)) =
    (Assoc.get? s.fieldMaps other).map (fun m => (m.fields, m.height))
  covers : ∀ other a m', Assoc.get? s.store (fragmentNode other) = some a → Assoc.get? maps other = some m' →
    ∃ m, Assoc.get? s.fieldMaps other = some m ∧ (Covers a.origin m.origin → Covers a.origin m'.origin)
  unmade : ∀ other, Assoc.get? s.store (fragmentNode other) = none →
    Assoc.get? maps other = Assoc.get? s.fieldMaps other

theorem SameFieldMaps.refl (s : State) : SameFieldMaps s s.fieldMaps :=
  ⟨id, fun _ => rfl, fun _ _ m' _ hm' => ⟨m', hm', id⟩, fun _ _ => rfl⟩

/-- The fields of a fragment get the keys of its artifact, if both are there and the fields have no keys yet. -/
theorem attributeFields_cases (name : String) (s : State) :
    ((attributeFields name).runOn s = (.ok (), s) ∧ ∀ m a, Assoc.get? s.fieldMaps name = some m →
      Assoc.get? s.store (fragmentNode name) = some a → m.origin.keys ≠ []) ∨
    ∃ m a, Assoc.get? s.fieldMaps name = some m ∧ Assoc.get? s.store (fragmentNode name) = some a ∧ m.origin.keys = [] ∧
      (attributeFields name).runOn s = (.ok (), withFieldMaps s
        (Assoc.insert s.fieldMaps name { m with origin := { m.origin with keys := a.origin.keys } })) := by
  unfold attributeFields
  rw [runOn_bind, runOn_read]
  dsimp only [State.fieldMapsPart]
  rw [runOn_bind, runOn_read]
  dsimp only [State.storePart]
  cases hm : Assoc.get? s.fieldMaps name with
  | none => exact Or.inl ⟨rfl, fun _ _ hm' => nomatch hm'⟩
  | some m =>
    cases ha : Assoc.get? s.store (ArtifactKind.fragment, name) with
    | none => exact Or.inl ⟨rfl, fun _ _ _ ha' => nomatch ha.symm.trans ha'⟩
    | some a =>
      dsimp only
      split
      · rename_i hempty
        exact Or.inr ⟨m, a, rfl, ha, List.isEmpty_iff.1 hempty, rfl⟩
      · rename_i hkeys
        refine Or.inl ⟨rfl, fun m' a' hm' _ hempty => hkeys ?_⟩
        cases hm'
        exact List.isEmpty_iff.2 hempty

theorem runOn_attributeFields (name : String) (s : State) :
    ∃ maps, (attributeFields name).runOn s = (.ok (), withFieldMaps s maps) ∧ SameFieldMaps s maps := by
  rcases attributeFields_cases name s with ⟨hrun, -⟩ | ⟨m, a, hm, ha, -, hrun⟩
  · exact ⟨s.fieldMaps, hrun, .refl s⟩
  refine ⟨_, hrun, fun h => Assoc.nodup_keys_insert h _ _, fun other => ?_, fun other b m' hb hm' => ?_,
    fun other hother => ?_⟩
  · rw [Assoc.get?_insert]
    split
    · rename_i h
      rw [← h, hm]
      rfl
    · rfl
  · rw [Assoc.get?_insert] at hm'
    split at hm'
    · rename_i h
      subst h
      cases hm'
      cases ha.symm.trans hb
      refine ⟨m, hm, fun hc file hne hdep => ?_⟩
      simp only [Origin.dependsOn, Bool.or_eq_true, beq_iff_eq, List.contains_iff_mem] at hdep ⊢
      refine hdep.elim (fun hfile => ?_) Or.inr
      have := hc file hne (by simp [Origin.dependsOn, hfile])
      simpa [Origin.dependsOn] using this
    · exact ⟨m', hm', id⟩
  · refine Assoc.get?_insert_of_ne _ _ ?_
    rintro rfl
    cases ha.symm.trans hother

/-- The keys of fields do not matter. -/
theorem reads_withFieldMaps {c : Sources} {names : List String} {s : State} {maps : Assoc String FieldMap}
    (hs : Good c late jobOf stack s) (h : SameFieldMaps s maps) :
    Reads c late jobOf stack names s (withFieldMaps s maps) := by
  have hfields : ∀ node, (withFieldMaps s maps).fieldsAt node = s.fieldsAt node := by
    intro node
    simp only [State.fieldsAt, withFieldMaps, h.fields]
  have hp : (withFieldMaps s maps).progress = s.progress := progress_congr rfl fun node _ => hfields node
  refine ⟨⟨{ hs.sound with
    distinct := { hs.sound.distinct with maps := h.distinct hs.sound.distinct.maps }
    fields := fun name hname => ?_
    maps := fun name a m' ha hm' => ?_
    made := fun node a ha => (hs.sound.made node a ha).congr rfl hp (hfields node) rfl
    inputs := hp ▸ hs.sound.inputs }, hs.tracked⟩, rfl, hfields, h.unmade, rfl, _, fun _ => False.elim,
    Tracker.Moves.refl _⟩
  · obtain ⟨m, hm, hrefs⟩ := hs.sound.fields name hname
    have := h.fields name
    rw [hm] at this
    obtain ⟨m', hm', heq⟩ := Option.map_eq_some_iff.1 this
    refine ⟨m', hm', ?_⟩
    rw [(Prod.mk.inj heq).1]
    exact hrefs
  · obtain ⟨m, hm, hc⟩ := h.covers name a m' ha hm'
    exact hc (hs.sound.maps name a m ha hm)

theorem follows_attributeFields (name : String) :
    Follows c late jobOf stack (attributeFields name) [] (fun _ => .ok ()) (fun _ => False) := by
  intro s hs
  obtain ⟨maps, hrun, hmaps⟩ := runOn_attributeFields name s
  have hreads : Reads c.toSources late jobOf stack [] s (withFieldMaps s maps) := reads_withFieldMaps hs hmaps
  exact Or.inr ⟨_, .nil, _, hrun, hreads.progress, hreads.good,
    .of_eq (Tracker.Moves.refl _) rfl rfl fun _ hn => absurd hn List.not_mem_nil⟩

/-- Generating a fragment that was made uses it again. -/
theorem reuses_generateFragment (building : List String) :
    Reuses c.toSources late jobOf stack (fun name => discard (generateFragment c building name)) := by
  rintro s name hs ⟨f, hf⟩ hhas
  obtain ⟨a, ha⟩ := Option.isSome_iff_exists.1 hhas
  obtain ⟨t, hmerge, hmoves, -⟩ := Tracker.moves_merge hs.tracked a.origin
  have hused := hmoves.mono (hs.sound.uses _ a ha)
  have hmerged := hs.moves hused
  obtain ⟨maps, hattribute, hmaps⟩ := runOn_attributeFields name { s with tracker := t }
  have hreads : Reads c.toSources late jobOf stack [name] s { s with tracker := t } :=
    ⟨hmerged, rfl, fun _ => rfl, fun _ _ => rfl, rfl, _, fun other hother => reached_singleton.2 (Or.inr hother), hused⟩
  refine ⟨_, ?_, hreads.trans (reads_withFieldMaps hmerged hmaps)⟩
  have hname : ∀ act : Step String, act.runOn s = (.ok a.name, { s with tracker := t }) →
      (attributing name act).runOn s = (.ok a.name, withFieldMaps { s with tracker := t } maps) := by
    intro act hact
    unfold attributing
    rw [runOn_bind, hact]
    dsimp only
    rw [runOn_bind, hattribute]
    rfl
  have hpresent : (fragmentInProgress name).runOn s = (.ok a.name, { s with tracker := t }) := by
    have hget : Assoc.get? (State.storePart.get s) (ArtifactKind.fragment, name) = some a := ha
    unfold fragmentInProgress
    rw [runOn_bind, runOn_read]
    simp only [hget]
    unfold Store.reuse
    rw [runOn_bind, runOn_merge hmerge]
    rfl
  have hrun : (generateFragment c building name).runOn s =
      (.ok a.name, withFieldMaps { s with tracker := t } maps) := by
    rw [generateFragment.eq_def]
    split
    · rename_i hnone
      cases hnone.symm.trans hf
    · refine hname _ ?_
      split
      · exact hpresent
      · exact runOn_artifact_hit ha hmerge
  rw [runOn_discard, hrun]

/-- A fragment that is spread is looked up, recorded and generated. -/
theorem follows_useFragment {generate : Generator} {name : String} {f : FragmentDef}
    (hf : Assoc.get? c.fragments name = some f)
    (h : Follows c late jobOf stack (generate name) [.fragment name] (fun _ => .ok ())
      (Reached c.toSources (spreadsOf c.toSources jobOf (fragmentNode name)))) :
    Follows c late jobOf stack (useFragment c generate name) [.fragment name] (fun _ => .ok f)
      (Reached c.toSources [name]) := by
  have hadd : Follows c late jobOf stack (Tracking.addFragmentUse name : Step Unit) [] (fun _ => .ok ())
      (· = name) := by
    intro s hs
    obtain ⟨t, hadd, hmoves⟩ := Tracker.moves_addUse hs.tracked name
    exact Or.inr ⟨_, .nil, _, runOn_add hadd, rfl, hs.moves hmoves,
      .of_eq hmoves rfl rfl fun _ hn => absurd hn List.not_mem_nil⟩
  unfold useFragment
  rw [hf]
  refine (hadd.bind (f := fun _ => generate name >>= fun _ => pure f) (h.bind (follows_pure f))).mono fun other => ?_
  rw [reached_singleton, or_false]
  rfl

theorem follows_useFragment_unknown {generate : Generator} {name : String}
    (hf : Assoc.get? c.fragments name = none) :
    Follows c late jobOf stack (useFragment c generate name) []
      (fun _ => .error (.fragmentNotFound name)) (fun _ => False) := by
  unfold useFragment
  rw [hf]
  exact follows_lack _ _

/-- Carrying out the plan of a selection does what its run does. -/
theorem follows_select {α : Type} {generate : Generator} {p : Plan α} (hp : p.Keeps c.toSources)
    (hinputs : stack.inputs = [])
    (h : ∀ name f, Assoc.get? c.fragments name = some f →
      Follows c late jobOf stack (generate name) [.fragment name] (fun _ => .ok ())
        (Reached c.toSources (spreadsOf c.toSources jobOf (fragmentNode name)))) :
    Follows c late jobOf stack (p.perform c.cached (host c (useFragment c generate))) (p.needs c.toSources)
      (fun _ => p.outcome c.toSources) (Reached c.toSources (fragmentsIn (p.needs c.toSources))) := by
  refine follows_perform p (Or.inl ⟨hp, hinputs⟩) (fun n hn => ?_) fun name hf => follows_useFragment_unknown hf
  cases n with
  | declared d => exact follows_declare [] d hinputs
  | fragment name => exact fun f hf => follows_useFragment hf (h name f hf)
  | code type | operation j | arguments j => exact (Plan.selected_of_keeps hp _ hn).elim

theorem keeps_ensureHelpers {c : Sources} : (ensureHelpers c.toConfig).Keeps c := by
  unfold ensureHelpers
  split
  · exact ⟨fun _ _ => nofun, trivial⟩
  · trivial

theorem keeps_fragmentPlan {c : Sources} (f : FragmentDef) : (fragmentPlan c.toConfig f).Keeps c := by
  refine Plan.keeps_bind (p := ensureHelpers c.toConfig) keeps_ensureHelpers fun _ _ => ?_
  refine Plan.keeps_bind (Plan.keeps_typeOf _) fun t ht => ?_
  exact Plan.keeps_bind (selection_keeps t _ (known_of_typeOf ht)) fun _ _ => trivial

/-- What a run needed is ready. -/
theorem Run.ready {c : Sources} {file : String} {p : Progress} {needs : List Need} {s : State}
    (h : Run c late stack file p needs (.ok s.progress))
    (hknown : ∀ name, .fragment name ∈ needs → ∃ f, Assoc.get? c.fragments name = some f) :
    Ready c (fragmentsIn needs) s := by
  refine ⟨fun name hname => hknown name (mem_fragmentsIn.1 hname), fun name hname => ?_⟩
  rw [← has_progress]
  rcases h.done _ (mem_fragmentsIn.1 hname) with hs | ⟨type, ht, -⟩
  · exact hs
  · cases ht

/-- The state after the fields of a fragment were kept. -/
def withFields (f : FragmentDef) (fields : Fields) (s : State) : State :=
  withFieldMaps s (Assoc.insert s.fieldMaps f.fragment.name
    ⟨fields, fieldsHeight (heightIn s.fieldMaps) fields, ⟨f.file, []⟩⟩)

theorem runOn_keepFields (f : FragmentDef) (fields : Fields) (s : State) :
    (keepFields f fields).runOn s = (.ok (), withFields f fields s) := by
  unfold keepFields
  rw [runOn_bind, runOn_read]
  rfl

/-- The fields of a fragment that was not made do not matter. -/
theorem fieldsAt_withFields {f : FragmentDef} {fields : Fields} {s : State} {node : Node}
    (h : Assoc.get? s.store (fragmentNode f.fragment.name) = none) (hnode : node ∈ Assoc.keys s.store) :
    (withFields f fields s).fieldsAt node = s.fieldsAt node := by
  simp only [State.fieldsAt, withFields, withFieldMaps]
  split
  · rename_i hkind
    rw [Assoc.get?_insert_of_ne]
    intro heq
    have : fragmentNode f.fragment.name = node := by rw [fragmentNode, heq, ← hkind]
    rw [this] at h
    rw [Assoc.get?_eq_none] at h
    exact h hnode
  · rfl

theorem progress_withFields {f : FragmentDef} {fields : Fields} {s : State}
    (h : Assoc.get? s.store (fragmentNode f.fragment.name) = none) : (withFields f fields s).progress = s.progress :=
  progress_congr rfl fun _ => fieldsAt_withFields h

theorem good_withFields {c : Sources} {f : FragmentDef} {fields : Fields} {s : State}
    (hs : Good c late jobOf stack s) (h : Assoc.get? s.store (fragmentNode f.fragment.name) = none) :
    Good c late jobOf stack (withFields f fields s) := by
  have hne : ∀ name, Assoc.has s.store (fragmentNode name) → f.fragment.name ≠ name := by
    rintro _ hname rfl
    rw [Assoc.has, h] at hname
    cases hname
  refine ⟨{ hs.sound with
    distinct := { hs.sound.distinct with maps := Assoc.nodup_keys_insert hs.sound.distinct.maps _ _ }
    fields := fun name hname => ?_
    maps := fun name a m ha hm => ?_
    made := fun node a ha => (hs.sound.made node a ha).congr rfl (progress_withFields h)
      (fieldsAt_withFields h (Assoc.mem_keys_of_get? ha)) rfl
    inputs := (progress_withFields h) ▸ hs.sound.inputs }, hs.tracked⟩
  · obtain ⟨m, hm, hrefs⟩ := hs.sound.fields name hname
    exact ⟨m, (Assoc.get?_insert_of_ne _ _ (hne name hname)).trans hm, hrefs⟩
  · change Assoc.get? s.store _ = some a at ha
    have hname : Assoc.has s.store (fragmentNode name) := by rw [Assoc.has, ha]; rfl
    exact hs.sound.maps name a m ha ((Assoc.get?_insert_of_ne _ _ (hne name hname)).symm.trans hm)

/-- Keeping the fields of a fragment does not matter for what else was done. -/
theorem Effect.withFields {U : String → Prop} {needs : List Need} {f : FragmentDef} {fields : Fields} {s s' : State}
    (h : Effect c jobOf stack U needs s s') : Effect c jobOf stack U needs s (withFields f fields s') :=
  ⟨h.moves, ⟨⟨h.kept.enabled, h.kept.store⟩, h.kept.codes⟩, fun n hn =>
    (h.recorded n hn).imp ⟨⟨rfl, fun _ _ h => h⟩, fun _ _ h => h⟩ fun _ h => h, fun hout =>
    (h.grows hout).congr rfl rfl rfl rfl rfl rfl rfl⟩

/-- A fragment is built once its fields are kept and its shape is finished. -/
theorem built_fragment {name : String} {f : FragmentDef} {fields : Fields} {s s₂ s₄ : State}
    (hf : Assoc.get? c.fragments name = some f) (hname : f.fragment.name = name)
    (hunmade : Assoc.get? s₂.store (fragmentNode name) = none)
    (hrefs : FieldRefsIn (c.leaves (Deep c.toSources ((Need.fragment name).needs c.toSources))) fields)
    (heff : Effect c jobOf ((Need.fragment name).push stack)
      (Reached c.toSources (spreadsOf c.toSources jobOf (fragmentNode name))) ((Need.fragment name).needs c.toSources) s s₂)
    (hread : Reads c.toSources late jobOf ((Need.fragment name).push stack)
      (fragmentsIn ((Need.fragment name).needs c.toSources)) (withFields f fields s₂) s₄) :
    s₄.fieldsAt (fragmentNode name) = some (fields, fieldsHeight (heightIn s₂.fieldMaps) fields) ∧
      Built c late jobOf stack (.fragment name) (fragmentNode name) s s₄ := by
  have hmap : Assoc.get? (withFields f fields s₂).fieldMaps name =
      some ⟨fields, fieldsHeight (heightIn s₂.fieldMaps) fields, ⟨f.file, []⟩⟩ := by
    rw [← hname]
    exact Assoc.get?_insert_self _ _ _
  have hkept : Assoc.get? s₄.fieldMaps name = some ⟨fields, fieldsHeight (heightIn s₂.fieldMaps) fields, ⟨f.file, []⟩⟩ :=
    (hread.maps name hunmade).trans hmap
  refine ⟨?_, hread.good, hread.effect heff.withFields, hread.store ▸ hunmade, fun other m hother hm g hg => ?_,
    fun other hother => ?_⟩
  · simp only [State.fieldsAt, fragmentNode, if_true, hkept, Option.map_some]
  · cases hother
    cases hf.symm.trans hg
    cases hm.symm.trans hkept
    rfl
  · cases hother
    exact ⟨_, hkept, hrefs⟩

theorem runOn_buildFragment_error {generate : Generator} {f : FragmentDef} {e : Failure} {s : State}
    (h : (((fragmentPlan c.toConfig f).perform c.cached (host c (useFragment c generate))).runOn s).1 = .error e) :
    ((buildFragment c f generate).runOn s).1 = .error e := by
  obtain ⟨s', h⟩ := runOn_eq_of_fst h
  unfold buildFragment
  rw [runOn_bind, h]

/-- Once the shape of a fragment is compiled, its fields are kept before it is finished. -/
theorem runOn_buildFragment {generate : Generator} {f : FragmentDef} {shape : Shape} {s s₁ : State}
    (h : ((fragmentPlan c.toConfig f).perform c.cached (host c (useFragment c generate))).runOn s = (.ok shape, s₁)) :
    (buildFragment c f generate).runOn s = ((flatFields shape).perform (fragmentFields generate) >>= fun fields =>
      keepFields f fields >>= fun _ => finish generate shape >>= fun a =>
        pure (fragmentDraft c.toConfig f a) : Step Draft).runOn s₁ := by
  unfold buildFragment
  rw [runOn_bind, h]

/-- The fields of what reads generated fragments are as high as a run tells. -/
theorem fieldsHeight_of_reached {c : Sources} {s : State} {needs : List Need} {fields : Fields}
    (hs : Good c late jobOf stack s) (hready : Ready c (fragmentsIn needs) s)
    (h : FieldRefsIn (c.leaves (Deep c needs)) fields) :
    fieldsHeight (heightIn s.fieldMaps) fields = fieldsHeight s.progress.heightOf fields := by
  refine fieldsHeight_congr (fun name hname => ?_) fields h
  rw [leaves_fragment] at hname
  exact heightIn_of_reached hs hready hname

/-- Building a fragment does what its run does. -/
theorem builds_fragment (hc : c.toSources.Named) {generate : Generator} {name : String} {f : FragmentDef}
    (hf : Assoc.get? c.fragments name = some f)
    (hreuse : Reuses c.toSources late jobOf ((Need.fragment name).push stack) generate)
    (h : ∀ other g, Assoc.get? c.fragments other = some g →
      Follows c late jobOf ((Need.fragment name).push stack) (generate other) [.fragment other]
        (fun _ => .ok ()) (Reached c.toSources (spreadsOf c.toSources jobOf (fragmentNode other)))) :
    Builds c late jobOf stack (.fragment name) (fragmentNode name) (buildFragment c f generate) := by
  intro s hs hget
  have hname : f.fragment.name = name := hc name f hf
  have hneeds : (Need.fragment name).needs c.toSources = (fragmentPlan c.toConfig f).needs c.toSources :=
    needs_fragment hf
  have hplan := follows_select (keeps_fragmentPlan f) rfl h s hs
  rw [← hneeds] at hplan
  rcases hplan with ⟨e, hr, he⟩ | ⟨p, hr, hrun⟩
  · exact Or.inl ⟨e, hr, runOn_buildFragment_error he⟩
  · refine Or.inr ⟨p, hr, ?_⟩
    simp only [Need.complete, hf]
    cases hout : (fragmentPlan c.toConfig f).outcome c.toSources with
    | error e =>
      rw [hout] at hrun
      exact runOn_buildFragment_error hrun
    | ok shape =>
      rw [hout] at hrun
      obtain ⟨s₁, hrun, rfl, hg, heff⟩ := hrun
      have hready : Ready c.toSources (fragmentsIn ((Need.fragment name).needs c.toSources)) s₁ :=
        hr.ready fun _ => hneeds ▸ Plan.fragment_known
      have hrefs : shape.RefsIn (c.leaves (Deep c.toSources ((Need.fragment name).needs c.toSources))) :=
        hneeds ▸ (refsIn_fragmentPlan hc hout).mono (Config.leaves_le fun _ => Or.inl) shape
      have hunmade : Assoc.get? s₁.store (fragmentNode name) = none := by
        have := hg.sound.unmade.1 name List.mem_cons_self
        rw [Assoc.has] at this
        simpa using this
      have hwithin := flatFields_within (hg.sound.closed _) shape hrefs
      have hflat := runOn_query hreuse hg hready (leaves_fragment c.toSources _ ▸ hwithin)
      simp only [bind, Except.bind, fragmentPiece]
      cases hfields : (flatFields shape).answer s₁.progress.fieldsOf with
      | error e =>
        rw [hfields, Answered] at hflat
        obtain ⟨s', he⟩ := runOn_eq_of_fst hflat
        rw [runOn_buildFragment hrun, runOn_bind, he, heff.moves.file]
      | ok fields =>
        rw [hfields] at hflat
        obtain ⟨s₂, hrun₂, hread₂⟩ := hflat
        have hunmade₂ : Assoc.get? s₂.store (fragmentNode name) = none := hread₂.store ▸ hunmade
        have hg₃ : Good c.toSources late jobOf _ (withFields f fields s₂) := good_withFields hread₂.good (hname ▸ hunmade₂)
        have hp₃ : (withFields f fields s₂).progress = s₁.progress :=
          (progress_withFields (hname ▸ hunmade₂)).trans hread₂.progress
        have hfinish := runOn_finishShape hreuse hg₃ (hready.of_store hread₂.store) hrefs
        rw [hp₃] at hfinish
        have hrun₃ : (buildFragment c f generate).runOn s =
            (finish generate shape >>= fun a => pure (fragmentDraft c.toConfig f a) : Step Draft).runOn
              (withFields f fields s₂) := by
          rw [runOn_buildFragment hrun, runOn_bind, hrun₂]
          dsimp only
          rw [runOn_bind, runOn_keepFields]
        cases hfinished : finished s₁.progress shape with
        | error e =>
          rw [hfinished, Answered] at hfinish
          obtain ⟨s', he⟩ := runOn_eq_of_fst hfinish
          have hfile : (withFields f fields s₂).tracker.currentFile = s.tracker.currentFile :=
            hread₂.file.trans heff.moves.file
          dsimp only
          rw [hrun₃, runOn_bind, he, hfile]
        | ok a =>
          rw [hfinished] at hfinish
          obtain ⟨s₄, hrun₄, hread₄⟩ := hfinish
          have hfieldRefs := Query.within_answer hwithin hfields
          have hheight := fieldsHeight_of_reached hread₂.good (hready.of_store hread₂.store) hfieldRefs
          rw [hread₂.progress] at hheight
          obtain ⟨hat, hbuilt⟩ := built_fragment hf hname hunmade₂ hfieldRefs (hread₂.effect heff) hread₄
          refine ⟨fragmentDraft c.toConfig f a, s₄, ?_, hread₄.progress.trans hp₃, by rw [hat, hheight], hbuilt⟩
          rw [hrun₃, runOn_bind, hrun₄]
          rfl

theorem fileWithin_fragment {c : Sources} {name : String} {f : FragmentDef} (hf : Assoc.get? c.fragments name = some f)
    (file : String) : (Need.fragment name).fileWithin c file = Tracker.fileAfter file (some f.file) := by
  simp only [Need.fileWithin, hf]
  by_cases hempty : f.file = ""
  · rw [if_pos hempty, hempty]
    rfl
  · rw [if_neg hempty]
    unfold Tracker.fileAfter
    split
    · simp_all
    · simp_all
    · rename_i heq
      exact Option.some.inj heq

/-- A fragment's fields get their keys after the fragment was generated. -/
theorem follows_attributing {name : String} {act : Step String} {needs : List Need}
    {out : Progress → Except Lack String} {U : String → Prop} (h : Follows c late jobOf stack act needs out U)
    (hout : ∀ p, ∃ a, out p = .ok a) :
    Follows c late jobOf stack (discard (attributing name act)) needs (fun _ => .ok ()) U := by
  have hbind := h.andThen (f := fun _ => attributeFields name) hout fun _ _ _ => follows_attributeFields name
  have hrun : ∀ s, (discard (attributing name act)).runOn s = (act >>= fun _ => attributeFields name).runOn s := by
    intro s
    rw [runOn_discard, attributing, runOn_bind, runOn_bind]
    rcases act.runOn s with ⟨e | a, s₁⟩
    · rfl
    · dsimp only
      rw [runOn_bind]
      rcases (attributeFields name).runOn s₁ with ⟨e | a, s₂⟩ <;> rfl
  intro s hs
  have := hbind.mono (V := U) (fun f => Iff.of_eq (or_false _)) s hs
  rw [List.append_nil] at this
  unfold FollowsAt at this ⊢
  rw [hrun]
  exact this

/-- Fragments refer to no input types. -/
theorem typed_fragment {c : Sources} (hs : c.schema.OutputTyped) {name : String} {f : FragmentDef}
    (hf : Assoc.get? c.fragments name = some f) : (Need.fragment name).Typed c := by
  have hkeeps := keeps_fragmentPlan (c := c) f
  refine ⟨fun m => ?_, fun type ht => ?_⟩
  · rw [needs_fragment hf]
    exact Plan.input_notMem_of_keeps hkeeps hs m
  · rw [needs_fragment hf] at ht
    exact (Plan.selected_of_keeps hkeeps _ ht).elim

/-- Generating a fragment does what a run does. -/
theorem follows_generateFragment (hc : c.toSources.Named) (building : List String) {name : String} {f : FragmentDef}
    (hf : Assoc.get? c.fragments name = some f) {stack : Stack} (hstack : stack.fragments = building)
    (hinputs : stack.inputs = []) :
    Follows c late jobOf stack (discard (generateFragment c building name)) [.fragment name]
      (fun _ => .ok ()) (Reached c.toSources (spreadsOf c.toSources jobOf (fragmentNode name))) := by
  rw [generateFragment.eq_def]
  split
  · rename_i hnone
    cases hnone.symm.trans hf
  · rename_i f' hf'
    cases hf'.symm.trans hf
    by_cases hb : name ∈ building
    · rw [dif_pos hb]
      intro s hs
      have hunmade := hs.sound.unmade.1 name (hstack ▸ hb)
      have hcircular : (Need.fragment name).Circular stack := by
        rw [← hstack] at hb
        exact hb
      refine Or.inl ⟨_, .circular (fun hset => ?_) hcircular, ?_⟩
      · change Assoc.has s.progress (fragmentNode name) = true at hset
        rw [has_progress, hunmade] at hset
        cases hset
      · have hget : Assoc.get? (State.storePart.get s) (ArtifactKind.fragment, name) = none :=
          Option.isNone_iff_eq_none.1 (Option.isSome_eq_false_iff.1 hunmade)
        have hpresent : (fragmentInProgress name).runOn s =
            (.error (.breach (.circularFragment name) (some s.tracker.currentFile)), s) := by
          unfold fragmentInProgress
          rw [runOn_bind, runOn_read]
          simp only [hget]
          rfl
        rw [runOn_discard, attributing, runOn_bind, hpresent]
        rfl
    · rw [dif_neg hb]
      have hless := remaining_cons_lt (Assoc.mem_keys_of_get? hf) hb
      have hstart : Startable stack (.fragment name) :=
        ⟨fun hmem => hb (hstack ▸ hmem), fun _ _ => Need.noConfusion, fun _ _ => hinputs⟩
      have hbuild : Builds c late jobOf stack (.fragment name) (fragmentNode name) _ :=
        builds_fragment hc hf (reuses_generateFragment (name :: building)) fun other g hg =>
          follows_generateFragment hc (name :: building) hg (congrArg (name :: ·) hstack) rfl
      refine follows_attributing ?_ fun p => ⟨p.nameOf (fragmentNode name), rfl⟩
      exact follows_artifact rfl hstart (fileWithin_fragment hf) (fun _ _ => rfl) (fun hs => typed_fragment hs hf) rfl
        (hbuild.marking (fun _ _ => ⟨rfl, rfl, rfl, rfl, rfl⟩) name)
termination_by remaining (Assoc.keys c.fragments) building
decreasing_by assumption

end Fragments

end ResponseTypes.Compile
