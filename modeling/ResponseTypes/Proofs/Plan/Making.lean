import ResponseTypes.Proofs.Plan.Follows
import ResponseTypes.Proofs.Plan.Meeting

/-!
# Making artifacts

`followsAt_artifact` : generating an artifact on first request does what a run does for the need that the artifact stands
for, if building it does (`Builds`).
-/

namespace ResponseTypes.Compile

set_option autoImplicit false

open GraphQL (Selection TypeDef TypeRef)
open Dependency (fragmentsUsed)
open Shape (FieldRefsIn)

variable {c : Setup} {late : TypeRef → Prop} {jobOf : String → Option Job} {stack : Stack} {α β : Type}

/-! ## Storing artifacts -/

section Artifacts

variable {kind : ArtifactKind} {key : String} {given : Option String} {build : Step Draft} {s s₂ : State}

/-- The state in which an artifact is built. -/
def opened (given : Option String) (s : State) : State :=
  { s with tracker := s.tracker.start given }

/-- The state after an artifact was built and stored. -/
def stored (node : Node) (draft : Draft) (o : Origin) (t : Tracker) (s : State) : State :=
  { s with
    tracker := t
    store := Assoc.insert s.store node { toDraft := draft, kind := node.1, origin := o }
    journal := s.journal ++ [⟨.debug, "Generated " ++ node.1.name ++ " " ++ draft.name⟩] }

/-- If the artifact is there, it is not built. -/
theorem runOn_artifact_some {a : Artifact ArtifactKind} (h : Assoc.get? s.store (kind, key) = some a) :
    (artifact kind key given build).runOn s = (Store.reuse a : Step String).runOn s := by
  have hget : Assoc.get? (State.storePart.get s) (kind, key) = some a := h
  unfold artifact Store.generateOnce
  rw [runOn_bind, runOn_read]
  simp only [hget]

theorem runOn_artifact_hit {a : Artifact ArtifactKind} {t : Tracker} (h : Assoc.get? s.store (kind, key) = some a)
    (ht : s.tracker.merge a.origin.keys (some a.origin.file) = .ok t) :
    (artifact kind key given build).runOn s = (.ok a.name, { s with tracker := t }) := by
  rw [runOn_artifact_some h]
  unfold Store.reuse
  rw [runOn_bind, runOn_merge ht]
  rfl

theorem runOn_artifact_miss (h : Assoc.get? s.store (kind, key) = none) :
    (artifact kind key given build).runOn s = (do
      let draft ← build
      Tracking.add ⟨KindName.name kind, draft.name⟩
      let keys ← Tracking.finish
      State.storePart.modify (fun m => Assoc.insert m (kind, key)
        { toDraft := draft, kind, origin := ⟨(opened given s).tracker.currentFile, keys⟩ })
      note .debug ("Generated " ++ KindName.name kind ++ " " ++ draft.name)
      return draft.name : Step String).runOn (opened given s) := by
  have hget : Assoc.get? (State.storePart.get s) (kind, key) = none := h
  unfold artifact Store.generateOnce
  rw [runOn_bind, runOn_read]
  simp only [hget]
  unfold Store.generate
  rw [runOn_bind, runOn_start]
  dsimp only
  rw [runOn_bind, runOn_currentFile]
  rfl

theorem runOn_artifact_error {e : Failure} (h : Assoc.get? s.store (kind, key) = none)
    (hb : (build.runOn (opened given s)).1 = .error e) : ((artifact kind key given build).runOn s).1 = .error e := by
  obtain ⟨s', hb⟩ := runOn_eq_of_fst hb
  rw [runOn_artifact_miss h, runOn_bind, hb]

theorem runOn_artifact_ok {draft : Draft} {keys : List String} {t t' : Tracker}
    (h : Assoc.get? s.store (kind, key) = none) (hb : build.runOn (opened given s) = (.ok draft, s₂))
    (hadd : s₂.tracker.add ⟨KindName.name kind, draft.name⟩ = .ok t) (hfinish : t.finish = .ok (keys, t')) :
    (artifact kind key given build).runOn s =
      (.ok draft.name, stored (kind, key) draft ⟨(opened given s).tracker.currentFile, keys⟩ t' s₂) := by
  rw [runOn_artifact_miss h, runOn_bind, hb]
  dsimp only
  rw [runOn_bind, runOn_add hadd]
  dsimp only
  rw [runOn_bind, runOn_finish hfinish]
  rfl

end Artifacts

theorem insert_eq_append {κ : Type} [DecidableEq κ] {m : Assoc κ α} {k : κ} (h : Assoc.get? m k = none) (a : α) :
    Assoc.insert m k a = m ++ [(k, a)] := by
  induction m with
  | nil => rfl
  | cons e m ih =>
    rw [Assoc.get?_cons] at h
    rw [Assoc.insert]
    by_cases he : e.1 = k
    · simp [he] at h
    · rw [if_neg he] at h
      rw [if_neg he, ih h, List.cons_append]

theorem progress_stored {node : Node} {draft : Draft} {o : Origin} {t : Tracker} {s : State}
    (h : Assoc.get? s.store node = none) :
    (stored node draft o t s).progress = s.progress ++ [(node, ⟨draft, o.file, s.fieldsAt node⟩)] := by
  simp only [State.progress, stored, insert_eq_append h, List.map_append]
  rfl

/-- What is kept after an artifact was stored. -/
theorem stored_cases {node node' : Node} {draft : Draft} {o : Origin} {t : Tracker} {s : State} {a : Artifact ArtifactKind}
    (h : Assoc.get? (stored node draft o t s).store node' = some a) :
    (node' = node ∧ a.toDraft = draft ∧ a.origin = o) ∨ Assoc.get? s.store node' = some a := by
  change Assoc.get? (Assoc.insert s.store node _) node' = some a at h
  rw [Assoc.get?_insert] at h
  split at h
  · rename_i hnode
    cases h
    exact Or.inl ⟨hnode.symm, rfl, rfl⟩
  · exact Or.inr h

theorem extends_stored {node : Node} {draft : Draft} {o : Origin} {t : Tracker} {s : State}
    (h : Assoc.get? s.store node = none) (ht : t.enabled = s.tracker.enabled) : Extends s (stored node draft o t s) := by
  refine ⟨ht, fun node' a ha => (Assoc.get?_insert_of_ne _ _ ?_).trans ha⟩
  rintro rfl
  cases h.symm.trans ha

theorem has_stored_of_ne {node node' : Node} {draft : Draft} {o : Origin} {t : Tracker} {s : State} (h : node' ≠ node) :
    Assoc.has (stored node draft o t s).store node' = Assoc.has s.store node' :=
  congrArg Option.isSome (Assoc.get?_insert_of_ne _ _ (Ne.symm h))

/-! ## Needs with nodes -/

section Nodes

variable {n : Need} {node : Node}

/-- What is being made below a need. -/
theorem Need.mem_push_inputs {m : String} (h : m ∈ (n.push stack).inputs) :
    m ∈ stack.inputs ∨ n = .declared (.input m) := by
  cases n with
  | declared d =>
    cases d with
    | input k => exact (List.mem_cons.1 h).elim (fun h => Or.inr (by rw [h])) Or.inl
    | helper | tag | tagUnion | enum => exact Or.inl h
  | fragment name => cases h
  | code type | operation j | arguments j => exact Or.inl h

theorem Need.mem_push_fragments {name : String} (h : name ∈ (n.push stack).fragments) :
    name ∈ stack.fragments ∨ n = .fragment name := by
  cases n with
  | declared d => cases d <;> exact Or.inl h
  | fragment k => exact (List.mem_cons.1 h).elim (fun h => Or.inr (by rw [h])) Or.inl
  | code type | operation j | arguments j => exact Or.inl h

theorem Need.push_fragments_of_mem {name : String} (h : name ∈ stack.fragments) : name ∈ (n.push stack).fragments := by
  cases n with
  | declared d => cases d <;> exact h
  | fragment k => exact List.mem_cons_of_mem k h
  | code type | operation j | arguments j => exact h

theorem Need.push_inputs_of_mem {m : String} (hf : ∀ name, n = .fragment name → stack.inputs = [])
    (h : m ∈ stack.inputs) : m ∈ (n.push stack).inputs := by
  cases n with
  | declared d =>
    cases d with
    | input k => exact List.mem_cons_of_mem k h
    | helper | tag | tagUnion | enum => exact h
  | fragment k =>
    rw [hf k rfl] at h
    cases h
  | code type | operation j | arguments j => exact h

/-- A need whose node was not made can be met on top of what is being made. -/
structure Startable (stack : Stack) (n : Need) : Prop where
  circular : ¬n.Circular stack
  inputs : ∀ m ∈ stack.inputs, n ≠ .declared (.input m)
  fragments : ∀ name, n = .fragment name → stack.inputs = []

theorem DeclaredSettled.mono_inputs {stack' : Stack} {p : Progress} {d : Declared}
    (h : Need.DeclaredSettled stack p d) (hi : ∀ m ∈ stack.inputs, m ∈ stack'.inputs ∨ Assoc.has p (Declared.input m).node) :
    Need.DeclaredSettled stack' p d := by
  rcases h with ⟨m, hm, rfl⟩ | h
  · exact (hi m hm).imp (fun hm => ⟨m, hm, rfl⟩) id
  · exact Or.inr h

/-- What there is nothing to make for stays so on other stacks, as long as the input types on the first are on the
second or were made. -/
theorem Need.Done.mono_inputs {c : Sources} {stack' : Stack} {p : Progress} {m : Need} (h : m.Done c late stack p)
    (hi : ∀ i ∈ stack.inputs, i ∈ stack'.inputs ∨ Assoc.has p (Declared.input i).node) : m.Done c late stack' p := by
  refine h.imp (fun h => ?_) id
  cases m with
  | declared d => exact DeclaredSettled.mono_inputs h hi
  | code type => exact ⟨h.1, fun d hd => DeclaredSettled.mono_inputs (h.2 d hd) hi⟩
  | fragment name | operation j | arguments j => exact h

theorem Sound.push {s : State} (h : Sound c.toSources late jobOf stack s) (hn : n.node? = some node)
    (hnode : Assoc.get? s.store node = none) (hs : Startable stack n) : Sound c.toSources late jobOf (n.push stack) s := by
  have hno : Assoc.has s.store node = false := by rw [Assoc.has, hnode]; rfl
  refine { h with inputs := fun type text o he => ?_, unmade := ⟨fun name hname => ?_, fun m hm => ?_⟩ }
  · obtain ⟨hout, hdone, huses⟩ := h.inputs type text o he
    exact ⟨hout, hdone.mono_inputs fun m hm => Or.inl (Need.push_inputs_of_mem hs.fragments hm), huses⟩
  · rcases Need.mem_push_fragments hname with hname | rfl
    · exact h.unmade.1 name hname
    · cases hn
      exact hno
  · rcases Need.mem_push_inputs hm with hm | rfl
    · exact h.unmade.2 m hm
    · cases hn
      exact hno

end Nodes

/-! ## Making artifacts -/

/-- The state is that in which an artifact was built: its run was followed, and all it spreads was made. -/
structure Built (c : Setup) (late : TypeRef → Prop) (jobOf : String → Option Job) (stack : Stack) (n : Need)
    (node : Node) (s s' : State) : Prop where
  good : Good c.toSources late jobOf (n.push stack) s'
  effect : Effect c jobOf (n.push stack) (Reached c.toSources (spreadsOf c.toSources jobOf node)) (n.needs c.toSources) s s'
  unmade : Assoc.get? s'.store node = none
  maps : ∀ name m, node = fragmentNode name → Assoc.get? s'.fieldMaps name = some m →
    ∀ f, Assoc.get? c.fragments name = some f → m.origin = ⟨f.file, []⟩
  fields : ∀ name, node = fragmentNode name →
    ∃ m, Assoc.get? s'.fieldMaps name = some m ∧
      FieldRefsIn (c.leaves (Deep c.toSources ((Need.fragment name).needs c.toSources))) m.fields

/-- Building the artifact of a need does what the run of its needs does, and then what meeting the need does. -/
def Builds (c : Setup) (late : TypeRef → Prop) (jobOf : String → Option Job) (stack : Stack) (n : Need) (node : Node)
    (build : Step Draft) : Prop :=
  ∀ s, Good c.toSources late jobOf (n.push stack) s → Assoc.get? s.store node = none →
    (∃ e, Run c.toSources late (n.push stack) s.tracker.currentFile s.progress (n.needs c.toSources) (.error e) ∧
      (build.runOn s).1 = .error e) ∨
    ∃ p, Run c.toSources late (n.push stack) s.tracker.currentFile s.progress (n.needs c.toSources) (.ok p) ∧
      match n.complete c.toSources s.tracker.currentFile p with
      | .error e => (build.runOn s).1 = .error (e (some s.tracker.currentFile))
      | .ok p' => ∃ draft s', build.runOn s = (.ok draft, s') ∧ s'.progress = p ∧
          p' = p ++ [(node, ⟨draft, s.tracker.currentFile, s'.fieldsAt node⟩)] ∧ Built c late jobOf stack n node s s'

theorem runOn_marking (marks : Part State (List String)) (name : String) (act : Step α) (s : State) :
    (marking marks name act).runOn s =
      ((act.runOn (marks.set ((marks.get s).insert name) s)).1,
        marks.set ((marks.get (act.runOn (marks.set ((marks.get s).insert name) s)).2).erase name)
          (act.runOn (marks.set ((marks.get s).insert name) s)).2) := rfl

/-- Marks do not matter for what is built. -/
theorem Builds.marking {n : Need} {node : Node} {build : Step Draft} {marks : Part State (List String)}
    (hmarks : ∀ m (s : State), s.Alike (marks.set m s)) (name : String) (h : Builds c late jobOf stack n node build) :
    Builds c late jobOf stack n node (marking marks name build) := by
  intro s hs hget
  have halike := hmarks ((marks.get s).insert name) s
  have hbuilt := h _ (hs.congr halike) (halike.store ▸ hget)
  rw [halike.tracker, halike.progress] at hbuilt
  refine hbuilt.imp (fun ⟨e, hr, he⟩ => ⟨e, hr, by rw [runOn_marking, he]⟩) fun ⟨p, hr, hrun⟩ => ⟨p, hr, ?_⟩
  cases hcomplete : n.complete c.toSources s.tracker.currentFile p with
  | error e =>
    rw [hcomplete] at hrun
    rw [runOn_marking]
    exact hrun
  | ok p' =>
    rw [hcomplete] at hrun
    obtain ⟨draft, s', hrun, hp, hp', hb⟩ := hrun
    have halike' := hmarks ((marks.get s').erase name) s'
    refine ⟨draft, marks.set ((marks.get s').erase name) s', by rw [runOn_marking, hrun], halike'.progress.trans hp, ?_, ?_⟩
    · rw [halike'.fieldsAt]
      exact hp'
    · exact {
        good := hb.good.congr halike'
        effect := hb.effect.congr halike.symm halike'
        unmade := halike'.store ▸ hb.unmade
        maps := halike'.fieldMaps ▸ hb.maps
        fields := halike'.fieldMaps ▸ hb.fields }

/-- The name of an artifact that was made. -/
def Progress.nameOf (p : Progress) (node : Node) : String :=
  ((Assoc.get? p node).map (·.draft.name)).getD ""

/-- Storing an artifact that was built keeps a state sound. -/
theorem Built.stored {n : Need} {node : Node} {s s' : State} {draft : Draft} {o : Origin} {t : Tracker}
    (h : Built c late jobOf stack n node s s') (hn : n.node? = some node) (hs : Startable stack n)
    (hjob : needOf jobOf node = some n) (henabled : t.enabled = s'.tracker.enabled)
    (hcomplete : n.complete c.toSources o.file s'.progress =
      .ok (s'.progress ++ [(node, ⟨draft, o.file, s'.fieldsAt node⟩)]))
    (hneeds : ∀ m ∈ n.needs c.toSources, m.Selected → m.Backed s' o)
    (hfile : ∀ name f, n = .fragment name → Assoc.get? c.fragments name = some f → f.file ≠ "" → o.file = f.file)
    (huses : ∀ name, name ∈ fragmentsUsed o.keys ↔ Reached c.toSources (spreadsOf c.toSources jobOf node) name) :
    Sound c.toSources late jobOf stack (stored node draft o t s') := by
  have hsound := h.good.sound
  have hext : Extends s' (Compile.stored node draft o t s') := extends_stored h.unmade henabled
  have hprogress : (Compile.stored node draft o t s').progress = _ := progress_stored h.unmade
  have hle : s'.progress.Le (Compile.stored node draft o t s').progress := hprogress ▸ Progress.le_append _ _
  exact {
    named := hsound.named
    distinct := { hsound.distinct with store := Assoc.nodup_keys_insert hsound.distinct.store _ _ }
    fields := fun name hname => by
      by_cases hnode : node = fragmentNode name
      · exact hnode ▸ h.fields name hnode
      · rw [has_stored_of_ne (Ne.symm hnode)] at hname
        exact hsound.fields name hname
    maps := fun name a m ha hm => by
      rcases stored_cases ha with ⟨rfl, -, rfl⟩ | ha
      · obtain rfl := Need.eq_fragment_of_node hn
        obtain ⟨f, hf⟩ := Need.known_of_complete hcomplete
        intro file hne hdep
        rw [h.maps name m rfl hm f hf] at hdep
        have hfile' : f.file = file := by simpa [Origin.dependsOn] using hdep
        subst hfile'
        simp [Origin.dependsOn, hfile name f rfl hf hne]
      · exact hsound.maps name a m ha hm
    made := fun node' a ha => by
      refine Made.extend hsound ?_ hle rfl hext.store henabled
      rcases stored_cases ha with ⟨rfl, rfl, rfl⟩ | ha
      · exact ⟨⟨n, hjob, hcomplete⟩, needsAt_eq hjob ▸ hneeds⟩
      · exact hsound.made node' a ha
    uses := fun node' a ha => by
      rcases stored_cases ha with ⟨rfl, -, rfl⟩ | ha
      · exact huses
      · exact hsound.uses node' a ha
    shapes := fun typeName sels shape origin he type ht => by
      obtain ⟨hout, hneeds, huses⟩ := hsound.shapes typeName sels shape origin he type ht
      exact ⟨hout, fun m hm => (hneeds m hm).congr hext.store henabled, huses⟩
    inputs := fun type text origin he => by
      obtain ⟨hout, hdone, huses⟩ := hsound.inputs type text origin he
      refine ⟨hout, (hdone.mono hle).mono_inputs fun m hm => ?_, huses⟩
      -- The input type that was made is no longer being made.
      refine (Need.mem_push_inputs hm).imp id ?_
      rintro rfl
      cases hn
      rw [hprogress]
      exact has_append_self _ _ _
    late := hsound.late
    kinds := fun e he => by
      rcases Assoc.mem_insert he with rfl | he
      · rfl
      · exact hsound.kinds e he
    unmade := by
      refine ⟨fun name hname => ?_, fun m hm => ?_⟩
      · refine (has_stored_of_ne ?_).trans (hsound.unmade.1 name (Need.push_fragments_of_mem hname))
        rintro rfl
        obtain rfl := Need.eq_fragment_of_node hn
        exact hs.circular hname
      · refine (has_stored_of_ne ?_).trans (hsound.unmade.2 m (Need.push_inputs_of_mem hs.fragments hm))
        rintro rfl
        exact hs.inputs m hm (Need.eq_of_node hn) }

/-! ## What grows -/

/-- An artifact refers to input types through type expressions alone, and only declared types and variables do. -/
structure Need.Typed (c : Sources) (n : Need) : Prop where
  declared : ∀ m, .declared (.input m) ∉ n.needs c
  code : ∀ type, .code type ∈ n.needs c → (∃ d, n = .declared d) ∨ ∃ j, n = .arguments j

theorem Need.typed_declared (c : Sources) (d : Declared) : (Need.declared d).Typed c :=
  ⟨input_notMem_draft d, fun _ _ => Or.inl ⟨d, rfl⟩⟩

theorem Need.typed_arguments (c : Sources) (j : Job) : (Need.arguments j).Typed c := by
  refine ⟨fun m hm => ?_, fun _ _ => Or.inr ⟨j, rfl⟩⟩
  rcases needs_variablesPlan hm with ⟨name, h⟩ | ⟨type, h⟩ <;> cases h

/-- Input types hang on an artifact's type expressions alone. -/
theorem Need.Typed.hangs {c : Setup} {s : State} {n n' : Need} {m : String} (h : n.Typed c.toSources)
    (hn : n' ∈ n.needs c.toSources) (hm : n'.Hangs c s m) :
    ∃ type, n' = .code type ∧ ((∃ d, n = .declared d) ∨ ∃ j, n = .arguments j) := by
  cases n' with
  | declared d =>
    obtain ⟨k, rfl⟩ : ∃ k, d = .input k := by
      rcases hm with rfl | hfirm
      · exact ⟨m, rfl⟩
      · obtain ⟨type, ht⟩ := hfirm.head
        exact input_of_code_mem ht
    exact absurd hn (h.declared k)
  | code type => exact ⟨type, rfl, h.code type hn⟩
  | arguments j => exact (Need.inner_needs n _ hn).elim
  | fragment name | operation j => exact hm.elim

theorem Need.fileWithin_of_not_fragment {c : Sources} {file : String} {n : Need} (h : ∀ name, n ≠ .fragment name) :
    n.fileWithin c file = file := by
  cases n with
  | fragment name => exact absurd rfl (h name)
  | declared d | code type | operation j | arguments j => rfl

section Growth

variable {n : Need} {node : Node} {given : Option String} {s s₂ : State} {draft : Draft} {o : Origin} {t : Tracker}

/-- What an artifact with a new origin refers to. -/
structure Referring (c : Setup) (stack : Stack) (n : Need) (o : Origin) (s₂ : State) : Prop where
  recorded : ∀ m ∈ n.needs c.toSources, m.Recorded c (n.push stack) s₂
  covers : ∀ o', s₂.tracker.enabled → Recorded s₂ o' → Covers o o'
  unmade : ∀ m ∈ (n.push stack).inputs, Assoc.has s₂.store (Declared.input m).node = false

/-- A type expression of an artifact, as its references stand when it is completed. -/
theorem Referring.link (h : Referring c stack n o s₂) {W : Origin → String → Prop} {type : TypeRef}
    (ht : .code type ∈ n.needs c.toSources) (hs : Preserves s s₂) (hlinks : Links c jobOf W s s₂)
    (hup : Upward s.tracker.enabled W) (hW : ∀ m ∈ (n.push stack).inputs, W o m) : Link c W s s₂ o type := by
  rcases h.recorded _ ht with ⟨hcached, text, o', he, hr⟩ | hall
  · exact (hlinks.entry hcached he hs).of_covers (fun henabled => h.covers o' henabled hr)
      (hup o o' fun henabled => h.covers o' (hs.enabled ▸ henabled) hr)
  · by_cases hwait : ∃ m ∈ (n.push stack).inputs, Names c.toSources type m
    · obtain ⟨m, hm, hnames⟩ := hwait
      exact Or.inr (Or.inl ⟨m, hnames, hW m hm⟩)
    · refine Or.inl fun d hd => ?_
      rcases hall d hd with ⟨m, hm, rfl⟩ | ⟨a, ha, hr⟩
      · exact absurd ⟨m, hm, hd⟩ hwait
      · exact ⟨a, ha, fun henabled => h.covers _ henabled hr⟩

/-- What is referred to through a tight type expression is referred to strongly. -/
theorem Referring.strong (h : Referring c stack n o s₂) {type : TypeRef} (ht : .code type ∈ n.needs c.toSources)
    (htight : Tight c s₂ type) : Strong c.toSources s₂ o type := by
  rcases h.recorded _ ht with ⟨hcached, text, o', he, hr⟩ | hall
  · exact (htight.kept hcached text o' he).of_covers fun henabled => h.covers o' henabled hr
  · intro d hd
    rcases hall d hd with ⟨m, hm, rfl⟩ | ⟨a, ha, hr⟩
    · have := htight.made _ hd
      rw [h.unmade m hm] at this
      cases this
    · exact ⟨a, ha, fun henabled => h.covers _ henabled hr⟩

theorem Tight.stored {type : TypeRef} (h : Tight c s₂ type) (hs : Extends s₂ (stored node draft o t s₂)) :
    Tight c (stored node draft o t s₂) type :=
  ⟨fun d hd => hs.has (h.made d hd), fun hcached text o' ho' => (h.kept hcached text o' ho').mono hs⟩

/-- What hangs on what an artifact refers to hangs on the artifact when it is stored. -/
theorem Referring.hangs (h : Referring c stack n o s₂) (htyped : n.Typed c.toSources) (hn : n.node? = some node)
    (hs : Extends s₂ (stored node draft o t s₂)) {n' : Need} {m : String} (hn' : n' ∈ n.needs c.toSources)
    (hm : n'.Hangs c s₂ m) : n.Hangs c (stored node draft o t s₂) m := by
  obtain ⟨type, rfl, hleads⟩ := htyped.hangs hn' hm
  obtain ⟨ht, k, hk, hfirm⟩ := hm
  have hfirst : FirmStep c (stored node draft o t s₂) n type :=
    ⟨ht.stored hs, node, _, hn, Assoc.get?_insert_self _ _ _, (h.strong hn' ht).mono hs⟩
  have hall : Firm c (stored node draft o t s₂) n m := by
    rcases hfirm with rfl | hfirm
    · exact ⟨_, .last hn' hk, fun step hstep => List.mem_singleton.1 hstep ▸ hfirst⟩
    · obtain ⟨path, hchain, hsteps⟩ := hfirm.mono hs fun type ht => ht.stored hs
      exact ⟨_, .step hn' hk hchain, List.forall_mem_cons.2 ⟨hfirst, hsteps⟩⟩
  rcases hleads with ⟨d, rfl⟩ | ⟨j, rfl⟩
  · exact Or.inr hall
  · exact hall

/-- What grows when an artifact is built and stored. -/
theorem Grows.artifact (h : Grows c jobOf (n.push stack) (n.needs c.toSources) (opened given s) s₂)
    (hrefer : Referring c stack n o s₂) (hkept : Preserves (opened given s) s₂) (hn : n.node? = some node)
    (hget : Assoc.get? s.store node = none) (hget₂ : Assoc.get? s₂.store node = none)
    (hfile : (∀ name, n ≠ .fragment name) → (opened given s).tracker.currentFile = s.tracker.currentFile)
    (hofile : o.file = (opened given s).tracker.currentFile) (htyped : n.Typed c.toSources)
    (hjob : needOf jobOf node = some n) (henabled : t.enabled = s₂.tracker.enabled) :
    Grows c jobOf stack [n] s (stored node draft o t s₂) := by
  have hopened : (opened given s).tracker.enabled = s.tracker.enabled := by
    obtain ⟨-, -, -, -, henabled, -⟩ := s.tracker.start_scopes given
    exact henabled
  have hs : Extends s₂ (stored node draft o t s₂) := extends_stored hget₂ henabled
  -- What an artifact waits for while it is made is made by then, or waited for by what needs it.
  have hW : ∀ o' m, Awaits (n.push stack) (opened given s) s₂ o' m → Awaits stack s (stored node draft o t s₂) o' m := by
    rintro o' m ⟨hm, hdep⟩
    have hplain : ∀ name, n ≠ .fragment name := by
      rintro name rfl
      obtain ⟨n', hn', hhangs⟩ := h.hung m (hm.resolve_left List.not_mem_nil)
      obtain ⟨type, -, ⟨d, hd⟩ | ⟨j, hj⟩⟩ := htyped.hangs hn' hhangs
      · cases hd
      · cases hj
    refine ⟨?_, hfile hplain ▸ hopened ▸ hdep⟩
    rcases hm with hm | hm
    · rcases Need.mem_push_inputs hm with hm | rfl
      · exact Or.inl hm
      · cases hn
        exact Or.inr ⟨hget, by rw [Assoc.has, stored, Assoc.get?_insert_self]; rfl⟩
    · exact Or.inr ⟨hm.before, hs.has hm.after⟩
  have hlink : ∀ {o' type}, Link c (Awaits (n.push stack) (opened given s) s₂) (opened given s) s₂ o' type →
      Link c (Awaits stack s (stored node draft o t s₂)) s (stored node draft o t s₂) o' type :=
    fun hl => Link.mono (s := s) hl hs (hW _)
  refine ⟨fun m hm => ?_, fun node' a hbefore ha type ht => ?_, fun type text o' hbefore ho' =>
    hlink ((h.links).kept type text o' hbefore ho')⟩
  · refine ⟨n, List.mem_singleton_self n, ?_⟩
    by_cases hnode : (Declared.input m).node = node
    · rw [Need.eq_of_node (hn.trans (congrArg some hnode.symm))]
      exact Or.inl rfl
    · obtain ⟨n', hn', hhangs⟩ := h.hung m ⟨hm.before, has_stored_of_ne hnode ▸ hm.after⟩
      exact hrefer.hangs htyped hn hs hn' hhangs
  · by_cases hnode : node' = node
    · subst hnode
      rw [stored, Assoc.get?_insert_self] at ha
      cases ha
      rw [needsAt_eq hjob] at ht
      refine hlink (hrefer.link ht hkept h.links upward_awaits fun m hm => ⟨Or.inl hm, fun _ _ => ?_⟩)
      simp [Origin.dependsOn, hofile]
    · rw [stored, Assoc.get?_insert_of_ne _ _ (Ne.symm hnode)] at ha
      exact hlink (h.links.made node' a hbefore ha type ht)

end Growth

/-- What was made is used again, as a run that settles the need has it. -/
theorem followsAt_artifact_hit {kind : ArtifactKind} {key : String} {given : Option String} {build : Step Draft} {n : Need}
    (hn : n.node? = some (kind, key)) {s : State} (hgood : Good c.toSources late jobOf stack s)
    {a : Artifact ArtifactKind} (hget : Assoc.get? s.store (kind, key) = some a) :
    FollowsAt c late jobOf stack (artifact kind key given build) [n] (fun p => .ok (p.nameOf (kind, key)))
      (Reached c.toSources (spreadsOf c.toSources jobOf (kind, key))) s := by
  obtain ⟨t, hmerge, hmoves, hcovers⟩ := Tracker.moves_merge hgood.tracked a.origin
  have hhas : Assoc.has s.progress (kind, key) := by
    rw [has_progress, Assoc.has, hget]
    rfl
  refine Or.inr ⟨s.progress, .settled (Need.settled_of_has hn hhas) .nil, { s with tracker := t }, ?_, rfl,
    hgood.moves hmoves, .of_eq (hmoves.mono (hgood.sound.uses _ a hget)) rfl rfl fun m hm => ?_⟩
  · rw [runOn_artifact_hit hget hmerge]
    simp only [Progress.nameOf, get?_progress, hget]
    rfl
  · cases List.mem_singleton.1 hm
    exact Need.recorded_of_node hn ⟨a, hget, fun henabled => hcovers (hmoves.enabled ▸ henabled)⟩

/-- Generating the artifact of a need on first request does what a run does. -/
theorem followsAt_artifact {kind : ArtifactKind} {key : String} {given : Option String} {build : Step Draft} {n : Need}
    (hn : n.node? = some (kind, key)) (hs : Startable stack n)
    (hfile : ∀ file, n.fileWithin c.toSources file = Tracker.fileAfter file given)
    (hinputs : ∀ m, .declared (.input m) ∈ n.needs c.toSources → (n.push stack).inputs = [])
    (htyped : c.schema.OutputTyped → n.Typed c.toSources) {s : State}
    (hgood : Good c.toSources late jobOf stack s)
    (hbuild : Assoc.get? s.store (kind, key) = none → Builds c late jobOf stack n (kind, key) build)
    (hjob : Assoc.get? s.store (kind, key) = none → needOf jobOf (kind, key) = some n) :
    FollowsAt c late jobOf stack (artifact kind key given build) [n] (fun p => .ok (p.nameOf (kind, key)))
      (Reached c.toSources (spreadsOf c.toSources jobOf (kind, key))) s := by
  cases hget : Assoc.get? s.store (kind, key) with
  | some a => exact followsAt_artifact_hit hn hgood hget
  | none =>
    have hnot : ¬n.Settled c.toSources stack s.progress := by
      intro hset
      have := Need.has_of_settled hn hs.inputs hset
      rw [has_progress, Assoc.has, hget] at this
      cases this
    have hopened : Good c.toSources late jobOf (n.push stack) (opened given s) := by
      obtain ⟨-, -, -, -, henabled, -⟩ := s.tracker.start_scopes given
      exact ⟨(hgood.sound.push hn hget hs).congr rfl rfl rfl rfl henabled, Tracker.scoped_start _ _⟩
    have hcurrent : (opened given s).tracker.currentFile = n.fileWithin c.toSources s.tracker.currentFile := by
      obtain ⟨-, -, -, hcurrent, -⟩ := s.tracker.start_scopes given
      rw [hfile]
      exact hcurrent
    have hprogress : (opened given s).progress = s.progress := rfl
    rcases hbuild hget (opened given s) hopened hget with ⟨e, hr, he⟩ | ⟨p, hr, hrun⟩
    · rw [hcurrent, hprogress] at hr
      exact Or.inl ⟨e, .broken hnot hs.circular hr, runOn_artifact_error hget he⟩
    · rw [hcurrent] at hr hrun
      cases hcomplete : n.complete c.toSources (n.fileWithin c.toSources s.tracker.currentFile) p with
      | error e =>
        rw [hcomplete] at hrun
        exact Or.inl ⟨_, .lacking hnot hs.circular hr hcomplete, runOn_artifact_error hget hrun⟩
      | ok p' =>
        rw [hcomplete] at hrun
        obtain ⟨draft, s₂, hrun, rfl, rfl, hbuilt⟩ := hrun
        obtain ⟨t, hadd, hmoves⟩ := Tracker.moves_addArtifact hbuilt.good.tracked kind draft.name
        have hstart : (opened given s).tracker = s.tracker.start given := rfl
        have hnoted : (opened given s).tracker.Moves _ { s₂ with tracker := t }.tracker := hbuilt.effect.moves.trans hmoves
        obtain ⟨keys, t', hfinish, hf⟩ := finished_of_moves hgood.tracked hstart hnoted
        have hopenfile := hcurrent.trans (hfile _)
        have hused : ∀ f, f ∈ fragmentsUsed keys ↔ Reached c.toSources (spreadsOf c.toSources jobOf (kind, key)) f := by
          simpa using hf.used
        have hen : t'.enabled = s₂.tracker.enabled := by
          obtain ⟨-, -, -, -, henabled, -⟩ := s.tracker.start_scopes given
          exact hf.moves.enabled.trans (hbuilt.effect.moves.enabled.trans henabled).symm
        have hcovers : ∀ o, s₂.tracker.enabled → Recorded s₂ o → Covers ⟨(opened given s).tracker.currentFile, keys⟩ o :=
          fun o henabled ho => hopenfile ▸ hf.covers o (hmoves.enabled ▸ henabled) (ho.mono hmoves)
        have hsound : Sound c.toSources late jobOf stack
            (stored (kind, key) draft ⟨(opened given s).tracker.currentFile, keys⟩ t' s₂) :=
          hbuilt.stored hn hs (hjob hget) hen (hcurrent ▸ hcomplete) (hbuilt.effect.selected_backed hcovers hinputs)
            (fun name f hname hf hne => by
              change (opened given s).tracker.currentFile = f.file
              rw [hcurrent, hname]
              simp only [Need.fileWithin, hf, if_neg hne]) hused
        have hp : (stored (kind, key) draft ⟨(opened given s).tracker.currentFile, keys⟩ t' s₂).progress = _ :=
          progress_stored hbuilt.unmade
        refine Or.inr ⟨_, .built hnot hs.circular hr hcomplete .nil, _, ?_, hcurrent ▸ hp,
          ⟨hsound, hf.moves.scoped hgood.tracked⟩, hf.moves.mono (by simp),
          ⟨⟨hf.moves.enabled, fun node a ha => ?_⟩, hbuilt.effect.kept.codes⟩,
          fun m hm => ?_, fun hout => ?_⟩
        · rw [runOn_artifact_ok hget hrun hadd hfinish, Progress.nameOf, Assoc.get?_append_right, Assoc.get?_cons, if_pos rfl]
          · rfl
          · rw [get?_progress, hbuilt.unmade]
            rfl
        · exact (extends_stored hbuilt.unmade hen).store node a (hbuilt.effect.kept.store node a ha)
        · cases List.mem_singleton.1 hm
          exact Need.recorded_of_node hn ⟨_, Assoc.get?_insert_self _ _ _, hopenfile ▸ hf.recorded _ rfl⟩
        · refine (hbuilt.effect.grows hout).artifact ⟨hbuilt.effect.recorded, hcovers, hbuilt.good.sound.unmade.2⟩
            hbuilt.effect.kept hn hget hbuilt.unmade (fun hnot => ?_) rfl (htyped hout) (hjob hget) hen
          rw [hcurrent, Need.fileWithin_of_not_fragment hnot]

theorem follows_artifact {kind : ArtifactKind} {key : String} {given : Option String} {build : Step Draft} {n : Need}
    (hn : n.node? = some (kind, key)) (hs : Startable stack n)
    (hfile : ∀ file, n.fileWithin c.toSources file = Tracker.fileAfter file given)
    (hinputs : ∀ m, .declared (.input m) ∈ n.needs c.toSources → (n.push stack).inputs = [])
    (htyped : c.schema.OutputTyped → n.Typed c.toSources) (hjob : needOf jobOf (kind, key) = some n)
    (hbuild : Builds c late jobOf stack n (kind, key) build) :
    Follows c late jobOf stack (artifact kind key given build) [n] (fun p => .ok (p.nameOf (kind, key)))
      (Reached c.toSources (spreadsOf c.toSources jobOf (kind, key))) :=
  fun _ hgood => followsAt_artifact hn hs hfile hinputs htyped hgood (fun _ => hbuild) fun _ => hjob

end ResponseTypes.Compile
