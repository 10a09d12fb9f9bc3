import ResponseTypes.Proofs.Plan.Anchors

/-!
# Steps that moor

`Moors c building act P` : from moored states, in which the fragments in `building` are not made, a step that succeeds leads
to moored states and furthers them, and its result satisfies `P` there.  Tracking moors, and what is put together from steps
that moor: memos (`moors_memoized`), artifacts (`moors_artifact`), plans (`moors_perform`) and declared types
(`moors_declare`).  The references in the result of a plan are held.
-/

namespace ResponseTypes.Compile

set_option autoImplicit false

/-- From moored states, in which no fragment in `building` was generated, the step leads to a result and a state in `P`
whenever it succeeds, and keeps states so. -/
def Moors {α : Type} (c : Setup) (building : List String) (act : Step α) (P : α → State → Prop) : Prop :=
  ∀ s a s', Moored c.toConfig s → Unmade building s → act.runOn s = (.ok a, s') →
    Moored c.toConfig s' ∧ Furthers c building s s' ∧ P a s'

variable {c : Setup} {building : List String} {s s' : State} {α β : Type} {P Q : α → State → Prop}
  {R : β → State → Prop}

/-- A step that changes nothing of note. -/
theorem moors_of_calm {act : Step α} (h : ∀ s a s', act.runOn s = (.ok a, s') → Calm s s' ∧ P a s') :
    Moors c building act P := by
  intro s a s' hs _ hrun
  obtain ⟨hcalm, hP⟩ := h s a s' hrun
  exact ⟨hcalm.moored hs, hcalm.furthers, hP⟩

theorem moors_mono {act : Step α} (h : Moors c building act P) (hPQ : ∀ a s, P a s → Q a s) : Moors c building act Q := by
  intro s a s' hs hu hrun
  obtain ⟨hs', hf, hP⟩ := h s a s' hs hu hrun
  exact ⟨hs', hf, hPQ a s' hP⟩

theorem moors_pure (a : α) (h : ∀ s, P a s) : Moors c building (pure a : Step α) P := by
  refine moors_of_calm fun s _ _ hrun => ?_
  cases hrun
  exact ⟨.refl s, h s⟩

theorem moors_fail (e : Failure) : Moors c building (Action.fail e : Step α) P := fun _ _ _ _ _ h => nomatch h

theorem moors_failHere (e : Option String → Failure) : Moors c building (Tracking.failHere e : Step α) P :=
  fun _ _ _ _ _ h => nomatch h

theorem moors_bind {act : Step α} {f : α → Step β} (h : Moors c building act P) (hf : ∀ a, Moors c building (f a) R) :
    Moors c building (act >>= f) R := by
  intro s b s'' hs hu hrun
  obtain ⟨a, s', hact, hrun⟩ := runOn_bind_ok hrun
  obtain ⟨hs', hfirst, -⟩ := h s a s' hs hu hact
  obtain ⟨hs'', hsecond, hR⟩ := hf a s' b s'' hs' (hfirst.unmade hu) hrun
  exact ⟨hs'', hfirst.trans hsecond, hR⟩

/-- What is returned after a step. -/
theorem moors_map {act : Step α} (f : α → β) (h : Moors c building act P) (hR : ∀ a s, P a s → R (f a) s) :
    Moors c building (act >>= fun a => pure (f a)) R := by
  intro s b s' hs hu hrun
  obtain ⟨a, s₁, hact, hrun⟩ := runOn_bind_ok hrun
  cases hrun
  obtain ⟨hs', hfirst, hP⟩ := h s a _ hs hu hact
  exact ⟨hs', hfirst, hR a _ hP⟩

theorem moors_discard {P : State → Prop} {act : Step α} (h : Moors c building act fun _ => P) :
    Moors c building (discard act) fun _ => P :=
  moors_map (fun _ => ()) h fun _ _ => id

theorem moors_read (p : Part State α) : Moors c building p.read fun _ _ => True := by
  refine moors_of_calm fun s _ _ hrun => ?_
  cases hrun
  exact ⟨.refl s, trivial⟩

theorem calm_modify {p : Part State α} (hp : SilentPart p) {f : α → α} {a : Unit} (hrun : (p.modify f).runOn s = (.ok a, s')) :
    Calm s s' := by
  rw [runOn_modify] at hrun
  cases hrun
  exact .of_silentPart hp _ s

theorem moors_modify {p : Part State α} (hp : SilentPart p) (f : α → α) : Moors c building (p.modify f) fun _ _ => True :=
  moors_of_calm fun _ _ _ hrun => ⟨calm_modify hp hrun, trivial⟩

/-- Marks change nothing of note. -/
theorem moors_marking {marks : Part State (List String)} (hmarks : SilentPart marks) (name : String) {act : Step α}
    (h : Moors c building act P) (hP : ∀ a s s', Calm s s' → P a s → P a s') :
    Moors c building (marking marks name act) P := by
  intro s a s' hs hu hrun
  obtain ⟨_, s₁, hmark, hrun⟩ := runOn_bind_ok (runOn_marking_ok hrun)
  obtain ⟨_, s₂, hact, hrun⟩ := runOn_bind_ok hrun
  obtain ⟨_, s₃, hunmark, hrun⟩ := runOn_bind_ok hrun
  cases hrun
  have hmarked : Furthers c building s s₁ := (calm_modify hmarks hmark).furthers
  obtain ⟨hs₂, hf, ha⟩ := h s₁ a s₂ ((calm_modify hmarks hmark).moored hs) (hmarked.unmade hu) hact
  have hunmarked := calm_modify hmarks hunmark
  exact ⟨hunmarked.moored hs₂, (hmarked.trans hf).trans hunmarked.furthers, hP a s₂ s' hunmarked ha⟩

/-! ## Tracking -/

theorem moors_add (d : Dependency) : Moors c building (Tracking.add d : Step Unit) fun _ _ => True := by
  refine moors_of_calm fun s _ _ hrun => ?_
  obtain ⟨t, hadd, rfl⟩ := runOn_add_ok hrun
  exact ⟨.of_tracker (Tracker.bubbles_add hadd) rfl rfl rfl, trivial⟩

/-- Keys that are merged are held. -/
theorem calm_merge {keys : List String} {file : Option String} {a : Unit}
    (hrun : (Tracking.merge keys file : Step Unit).runOn s = (.ok a, s')) :
    Calm s s' ∧ (s'.tracker.enabled = true → ∀ k ∈ keys, s'.tracker.Holds k) := by
  obtain ⟨t, hmerge, rfl⟩ := runOn_merge_ok hrun
  have hb := Tracker.bubbles_merge hmerge
  exact ⟨.of_tracker hb rfl rfl rfl, fun he k hk => Tracker.holds_merge (hb.enabled ▸ he) hmerge hk⟩

/-- The keys of an artifact that is used again are held. -/
theorem calm_reuse {a : Artifact ArtifactKind} {name : String} (hrun : (Store.reuse a : Step String).runOn s = (.ok name, s')) :
    Calm s s' ∧ (s'.tracker.enabled = true → ∀ k ∈ a.origin.keys, s'.tracker.Holds k) := by
  obtain ⟨_, s₁, hmerge, hrun⟩ := runOn_bind_ok hrun
  cases hrun
  exact calm_merge hmerge

theorem Moored.opened (h : Moored c.toConfig s) (given : Option String) : Moored c.toConfig (opened given s) := by
  obtain ⟨_, -, -, -, henabled, -⟩ := s.tracker.start_eq given
  exact h.congr henabled rfl rfl h.maps fun _ => rfl

theorem Moored.closed {keys : List String} (h : Moored c.toConfig s)
    (hfinish : (Tracking.finish : Step (List String)).runOn s = (.ok keys, s')) : Moored c.toConfig s' := by
  obtain ⟨t, hclosed, rfl⟩ := runOn_tracker_ok hfinish
  exact h.congr (Tracker.enabled_finish hclosed) rfl rfl h.maps fun _ => rfl

theorem moors_inScope (given : Option String) {act : Step α} (f : α → List String → β) (h : Moors c building act P) :
    Moors c building (do
      Tracking.start given
      let a ← act
      let keys ← Tracking.finish
      return f a keys) fun _ _ => True := by
  intro s b s' hs hu hrun
  obtain ⟨a, s₁, keys, hact, hfinish, -⟩ := runOn_inScope_ok hrun
  obtain ⟨hs₁, hf, -⟩ := h _ a s₁ (hs.opened given) hu hact
  exact ⟨hs₁.closed hfinish, hf.close hfinish, trivial⟩

/-! ## Memos -/

/-- A memo whose results are anchored, in the sense of `A`, by the keys they are kept with. -/
structure MooredMemo {κ : Type} (c : Config) (memo : Part State (Memo κ α)) (A : State → (String → Prop) → α → Prop) :
    Prop extends MemoPart memo where
  known : ∀ {s}, Moored c s → ∀ e ∈ (memo.get s).entries, A s (· ∈ e.2.2.keys) e.2.1
  set : ∀ {s} (m : Memo κ α), Moored c s → (∀ e ∈ m.entries, A s (· ∈ e.2.2.keys) e.2.1) → Moored c (memo.set m s)
  mono : ∀ {s s' K K' a}, A s K a → Enlarges s s' → s'.tracker.enabled = s.tracker.enabled →
    (s.tracker.enabled = true → ∀ k, K k → K' k) → A s' K' a

theorem mooredMemo_shapes {config : Config} :
    MooredMemo config State.shapesPart fun s K shape => shape.Cites (Anchored config s K) where
  toMemoPart := memoPart_shapes
  known h := h.shapes
  set {s} m h hm := by
    have hanchored : ∀ {K r}, Anchored config s K r → Anchored config { s with shapes := m } K r :=
      fun ha => ha.mono ⟨fun _ _ => id, fun _ _ _ => rfl⟩ rfl fun _ _ => id
    exact ⟨h.artifacts, h.maps, h.names, h.own, fun name a fields ha hfields => (h.fields name a fields ha hfields).mono
      fun r => hanchored, fun e he => (hm e he).mono fun r => hanchored⟩
  mono h hs henabled hK := h.mono fun r hr => hr.mono hs henabled hK

theorem mooredMemo_inputs {config : Config} : MooredMemo config State.inputsPart fun _ _ _ => True where
  toMemoPart := memoPart_inputs
  known _ _ _ := trivial
  set _ h _ := h.congr rfl rfl rfl h.maps fun _ => rfl
  mono _ _ _ _ := trivial

section Memos

variable {κ : Type} [DecidableEq κ] {memo : Part State (Memo κ α)} {A : State → (String → Prop) → α → Prop}
  (hmemo : MooredMemo c.toConfig memo A)

include hmemo

omit [DecidableEq κ] in
/-- Changing a memo so that its results are anchored. -/
theorem Moored.changed (building : List String) {f : Memo κ α → Memo κ α} {a : Unit} (hs : Moored c.toConfig s)
    (hf : ∀ e ∈ (f (memo.get s)).entries, A s (· ∈ e.2.2.keys) e.2.1) (hrun : (memo.modify f).runOn s = (.ok a, s')) :
    Moored c.toConfig s' ∧ Furthers c building s s' := by
  rw [runOn_modify] at hrun
  cases hrun
  refine ⟨hmemo.set _ hs hf, .of_store (by rw [hmemo.tracker]; exact .refl _) (hmemo.store _ s) fun _ _ _ => ?_⟩
  rw [State.fieldsOf, hmemo.fieldMaps, State.fieldsOf]

/-- A result that is there was anchored when it was kept, and its keys are merged; one that is computed is anchored by the
keys of its scope. -/
theorem moors_memoized (enabled : Bool) (key : κ) {compute : Step α}
    (h : Moors c building compute fun a s => A s s.tracker.Holds a) :
    Moors c building (Memo.memoized memo enabled key compute) fun a s => A s s.tracker.Holds a := by
  unfold Memo.memoized
  split
  · exact h
  intro s b s' hs hu hrun
  obtain ⟨_, _, hread, hrun⟩ := runOn_bind_ok hrun
  cases hread
  split at hrun
  · rename_i a o hget
    obtain ⟨_, s₁, hcount, hrun⟩ := runOn_bind_ok hrun
    obtain ⟨_, s₂, hmerge, hrun⟩ := runOn_bind_ok hrun
    cases hrun
    obtain ⟨hs₁, hf₁⟩ := hs.changed hmemo building (hmemo.known hs) hcount
    obtain ⟨hcalm, hheld⟩ := calm_merge hmerge
    have hfurthers := hf₁.trans hcalm.furthers
    have hknown := hmemo.known hs _ (Assoc.mem_of_get? hget)
    refine ⟨hcalm.moored hs₁, hfurthers, hmemo.mono hknown hfurthers.enlarges hfurthers.enabled fun he k hk => ?_⟩
    exact hheld (hfurthers.enabled ▸ he) k hk
  · obtain ⟨_, s₁, hcount, hrun⟩ := runOn_bind_ok hrun
    obtain ⟨_, s₂, hstart, hrun⟩ := runOn_bind_ok hrun
    obtain ⟨file, s₃, hfile, hrun⟩ := runOn_bind_ok hrun
    obtain ⟨_, s₄, hcompute, hrun⟩ := runOn_bind_ok hrun
    obtain ⟨keys, s₅, hfinish, hrun⟩ := runOn_bind_ok hrun
    obtain ⟨_, s₆, hkeep, hrun⟩ := runOn_bind_ok hrun
    cases hrun
    have hs₂ : opened none s₁ = s₂ := congrArg Prod.snd hstart
    have hs₃ : s₂ = s₃ := congrArg Prod.snd hfile
    subst hs₂ hs₃
    obtain ⟨hs₁, hf₁⟩ := hs.changed hmemo building (hmemo.known hs) hcount
    obtain ⟨hs₄, hf₄, ha⟩ := h _ b s₄ (hs₁.opened none) (hf₁.unmade hu) hcompute
    have hs₅ := hs₄.closed hfinish
    have hf₅ := hf₄.close hfinish
    obtain ⟨t, hclosed, rfl⟩ := runOn_tracker_ok hfinish
    have henabled := Tracker.enabled_finish hclosed
    have hkept : A { s₄ with tracker := t } (· ∈ keys) b :=
      hmemo.mono ha ⟨fun _ _ => id, fun _ _ _ => rfl⟩ henabled fun he k hk => hk.closed he hclosed
    obtain ⟨hs₆, hf₆⟩ := hs₅.changed hmemo building (fun e he => by
      rcases Assoc.mem_insert he with rfl | he
      · exact hkept
      · exact hmemo.known hs₅ e he) hkeep
    refine ⟨hs₆, (hf₁.trans hf₅).trans hf₆, hmemo.mono hkept hf₆.enlarges hf₆.enabled fun he k hk => ?_⟩
    obtain ⟨_, _, hb⟩ := hf₆.bubbles
    exact (Tracker.holds_finish (henabled ▸ he) hclosed hk).mono hb

end Memos

/-! ## Artifacts -/

section Artifacts

variable {kind : ArtifactKind} {key : String} {given : Option String} {build : Step Draft}

/-- An artifact other than that of a fragment. -/
theorem moors_artifact (hkind : kind ≠ .fragment)
    (hbuild : Moors c building build fun draft s => Finalized c s (kind, key) draft) :
    Moors c building (artifact kind key given build) fun _ _ => True := by
  have hnode : ∀ name, (kind, key) ≠ fragmentNode name := fun _ h => hkind (congrArg Prod.fst h)
  intro s name s' hs hu hrun
  cases hget : Assoc.get? s.store (kind, key) with
  | some a =>
    have hcalm := (calm_reuse ((runOn_artifact_some hget).symm.trans hrun)).1
    exact ⟨hcalm.moored hs, hcalm.furthers, trivial⟩
  | none =>
    obtain ⟨draft, s₁, t, keys, t', hbuilt, hadd, hfinish, rfl⟩ := made_of_runOn_artifact hget hrun
    obtain ⟨hs₁, hf, hfinal⟩ := hbuild _ draft s₁ (hs.opened given) hu hbuilt
    have henabled : t'.enabled = s₁.tracker.enabled :=
      (Tracker.enabled_finish hfinish).trans (Tracker.bubbles_add hadd).enabled
    exact ⟨hs₁.stored henabled fun name h => absurd h (hnode name), hf.store hget hadd hfinish
      (fun hu => ⟨hf.unmade hu, fun name _ => hnode name⟩) (fun name h => absurd h (hnode name)) hfinal, trivial⟩

end Artifacts

/-! ## Plans -/

/-- What answers plans moors, and the references to a fragment that is spread are held. -/
structure Host.Moors (c : Setup) (building : List String) (host : Host) : Prop where
  declare : ∀ d, Compile.Moors c building (host.declare d) fun _ _ => True
  code : ∀ type, Compile.Moors c building (host.code type) fun _ _ => True
  spread : ∀ name, Compile.Moors c building (host.spread name) fun f s => f.CitedIn c.toConfig (Held c.toConfig s)

section Plans

variable {plan : Plan α} {A : (FragmentRef → Prop) → α → Prop}

/-- References that are held stay so until the plan is carried out. -/
theorem moored_perform {host : Host} (hhost : host.Moors c building) {a : α}
    (h : ∀ R, (∀ r, Held c.toConfig s r → R r) → plan.Cites c.toConfig R (A R)) (hs : Moored c.toConfig s)
    (hu : Unmade building s) (hrun : (plan.perform c.cached host).runOn s = (.ok a, s')) :
    Moored c.toConfig s' ∧ Furthers c building s s' ∧ A (Held c.toConfig s') a := by
  induction plan generalizing s s' with
  | done b =>
    cases hrun
    exact ⟨hs, (Calm.refl s).furthers, h _ fun _ => id⟩
  | lack e => cases hrun
  | declare d next ih =>
    obtain ⟨_, s₁, hfirst, hrun⟩ := runOn_bind_ok hrun
    obtain ⟨hs₁, hf₁, -⟩ := hhost.declare d s _ s₁ hs hu hfirst
    obtain ⟨hs', hf', ha⟩ := ih (fun R hR => h R fun r hr => hR r (hf₁.held hr)) hs₁ (hf₁.unmade hu) hrun
    exact ⟨hs', hf₁.trans hf', ha⟩
  | code type next ih =>
    obtain ⟨text, s₁, hfirst, hrun⟩ := runOn_bind_ok hrun
    obtain ⟨hs₁, hf₁, -⟩ := hhost.code type s _ s₁ hs hu hfirst
    obtain ⟨hs', hf', ha⟩ := ih text (fun R hR => h R (fun r hr => hR r (hf₁.held hr)) text) hs₁ (hf₁.unmade hu) hrun
    exact ⟨hs', hf₁.trans hf', ha⟩
  | spread name next ih =>
    obtain ⟨f, s₁, hfirst, hrun⟩ := runOn_bind_ok hrun
    obtain ⟨hs₁, hf₁, hcited⟩ := hhost.spread name s f s₁ hs hu hfirst
    obtain ⟨hs', hf', ha⟩ := ih f
      (fun R hR => h R (fun r hr => hR r (hf₁.held hr)) f fun parent => hR _ (hcited parent)) hs₁ (hf₁.unmade hu) hrun
    exact ⟨hs', hf₁.trans hf', ha⟩
  | keep typeName sels body next ihb ih =>
    obtain ⟨shape, s₁, hfirst, hrun⟩ := runOn_bind_ok hrun
    -- the body is the same whatever references it is told of
    have hbody : Moors c building (body.perform c.cached host) fun shape s =>
        shape.Cites (Anchored c.toConfig s s.tracker.Holds) :=
      fun _ _ _ hs hu hrun => ihb (fun R _ => (h (fun _ => True) fun _ _ => trivial).1 R) hs hu hrun
    obtain ⟨hs₁, hf₁, hshape⟩ :=
      moors_memoized mooredMemo_shapes c.cached (typeName, sels) hbody s shape s₁ hs hu hfirst
    obtain ⟨hs', hf', ha⟩ := ih shape
      (fun R hR => (h R fun r hr => hR r (hf₁.held hr)).2 shape (hshape.mono hR)) hs₁ (hf₁.unmade hu) hrun
    exact ⟨hs', hf₁.trans hf', ha⟩
  | count thing next ih =>
    obtain ⟨_, s₁, hfirst, hrun⟩ := runOn_bind_ok hrun
    have hcalm := calm_modify mutePart_counters.toSilentPart hfirst
    have hf₁ : Furthers c building s s₁ := hcalm.furthers
    obtain ⟨hs', hf', ha⟩ := ih (fun R hR => h R fun r hr => hR r (hf₁.held hr)) (hcalm.moored hs) (hf₁.unmade hu) hrun
    exact ⟨hs', hf₁.trans hf', ha⟩

/-- The references in the result of a plan are held. -/
theorem moors_perform {host : Host} (hhost : host.Moors c building) (h : ∀ R, plan.Cites c.toConfig R (A R)) :
    Moors c building (plan.perform c.cached host) fun a s => A (Held c.toConfig s) a :=
  fun _ _ _ hs hu hrun => moored_perform hhost (fun R _ => h R) hs hu hrun

/-- A plan that spreads no fragment. -/
theorem moors_codes {host : Host} (hhost : host.Moors c building) (h : plan.Codes) :
    Moors c building (plan.perform c.cached host) fun _ _ => True :=
  moors_perform hhost fun _ => Plan.cites_of_codes h

end Plans

/-! ## Declared types -/

section Declaring

variable {inner : Declared → Step Unit} {d : Declared}

theorem moors_inputHost (hinner : ∀ d, Moors c building (inner d) fun _ _ => True) :
    (inputHost c inner).Moors c building := by
  have hdeclaring : (declaring inner).Moors c building := ⟨hinner, fun _ => moors_failHere _, fun _ => moors_failHere _⟩
  exact ⟨hinner, fun type => moors_memoized mooredMemo_inputs c.cached type (moors_codes hdeclaring (codes_codePlan type)),
    fun _ => moors_failHere _⟩

theorem moors_declareWith (hinner : ∀ d, Moors c building (inner d) fun _ _ => True) (d : Declared) :
    Moors c building (declareWith c inner d) fun _ _ => True := by
  have hkind : d.kind ≠ .fragment ∧ d.kind ≠ .operation := by cases d <;> exact ⟨nofun, nofun⟩
  have hbuild := markingInput_of (P := fun build => Moors c building build fun _ _ => True)
    (fun n h => moors_marking mutePart_inputMarks.toSilentPart n h fun _ _ _ _ => id) d
    (moors_codes (moors_inputHost hinner) (codes_draft (c := c.toSources) d))
  exact moors_bind (moors_artifact hkind.1 (moors_mono hbuild fun _ _ _ => .other hkind.1 hkind.2)) fun _ =>
    moors_pure () fun _ => trivial

theorem moors_declare (inputs : List String) (d : Declared) : Moors c building (declare c inputs d) fun _ _ => True := by
  refine declare_rec (H := fun _ _ act => Moors c building act fun _ _ => True) (fun _ _ _ => moors_add _) ?_ ?_ inputs d
  · exact fun inputs n _ ih => moors_declareWith ih (.input n)
  · exact fun _ d _ => moors_declareWith (fun d => moors_declareWith (fun _ => moors_pure () fun _ => trivial) d) d

/-- What answers all plans, if the fragments that are spread do. -/
theorem moors_host {spread : Spread}
    (h : ∀ name, Moors c building (spread name) fun f s => f.CitedIn c.toConfig (Held c.toConfig s)) :
    (host c spread).Moors c building :=
  { moors_inputHost (fun d => moors_declare [] d) with spread := h }

end Declaring

end ResponseTypes.Compile
