import ResponseTypes.Proofs.Plan.Walking

/-!
# What steps maintain

`Maintains I act` : the step `act` maintains a property of states, whether it fails or not.  Of a property that is about
nothing but whether dependencies are tracked and which shapes are kept (`Frugal`), only carrying out plans has to be looked
at (`Carries`): then all that a build does maintains it (`rules_maintains`).
-/

namespace ResponseTypes.Compile

set_option autoImplicit false

open GraphQL (TypeRef)

/-- A step maintains a property of states, whether it fails or not. -/
def Maintains {α : Type} (I : State → Prop) (act : Step α) : Prop :=
  ∀ s, I s → I (act.runOn s).2

/-- The property is about nothing but whether dependencies are tracked and which shapes are kept. -/
def Frugal (I : State → Prop) : Prop :=
  ∀ s s', s'.tracker.enabled = s.tracker.enabled → s'.shapes.entries = s.shapes.entries → I s → I s'

section Steps

variable {I : State → Prop} {α β : Type}

theorem maintains_pure (a : α) : Maintains I (pure a : Step α) := fun _ h => h

theorem maintains_fail (e : Failure) : Maintains I (Action.fail e : Step α) := fun _ h => h

theorem maintains_bind {act : Step α} {f : α → Step β} (h : Maintains I act) (hf : ∀ a, Maintains I (f a)) :
    Maintains I (act >>= f) := by
  intro s hs
  rw [runOn_bind]
  have hact := h s hs
  rcases hrun : act.runOn s with ⟨_ | a, s'⟩
  · rw [hrun] at hact
    exact hact
  · rw [hrun] at hact
    exact hf a s' hact

theorem maintains_discard {act : Step α} (h : Maintains I act) : Maintains I (discard act) :=
  maintains_bind h fun _ => maintains_pure ()

theorem maintains_read (p : Part State α) : Maintains I p.read := fun _ h => h

theorem sequential_maintains : Sequential fun act => Maintains I act where
  pure := maintains_pure
  fail := maintains_fail
  read := maintains_read
  bind := maintains_bind

theorem maintains_failHere (e : Option String → Failure) : Maintains I (Tracking.failHere e : Step α) :=
  sequential_maintains.failHere e

theorem maintains_currentFile : Maintains I (Tracking.currentFile : Step String) :=
  sequential_maintains.currentFile

variable (hI : Frugal I)

include hI

/-- A part of the state that is neither the tracker nor the kept shapes may change. -/
theorem maintains_modify {p : Part State α} (hp : ∀ a s, (p.set a s).tracker = s.tracker ∧ (p.set a s).shapes = s.shapes)
    (f : α → α) : Maintains I (p.modify f) :=
  fun s => hI s _ (congrArg Tracker.enabled (hp _ s).1) (congrArg Memo.entries (hp _ s).2)

theorem maintains_note (level : Level) (text : String) : Maintains I (note level text) := fun s => hI s _ rfl rfl

theorem maintains_count (thing : String) : Maintains I (count thing) :=
  maintains_modify hI (fun _ _ => ⟨rfl, rfl⟩) _

theorem maintains_marking {marks : Part State (List String)} (hmarks : QuietPart marks) (name : String) {act : Step α}
    (h : Maintains I act) : Maintains I (marking marks name act) := by
  have hset : ∀ m s, I s → I (marks.set m s) :=
    fun m s => hI s _ (congrArg Tracker.enabled (hmarks.tracker m s)) (congrArg Memo.entries (hmarks.shapes m s))
  exact fun s hs => hset _ _ (h _ (hset _ _ hs))

/-! ### Tracking -/

theorem maintains_tracker {f : Tracker → Except Failure (α × Tracker)}
    (h : ∀ t a t', f t = .ok (a, t') → t'.enabled = t.enabled) :
    Maintains I ((Tracks.tracker : Part State Tracker).step f) := by
  intro s hs
  unfold Action.runOn Part.step
  cases hf : f (Tracks.tracker.get s) with
  | error e => exact hs
  | ok r => exact hI s _ (h _ r.1 r.2 hf) rfl hs

theorem maintains_start (file : Option String) : Maintains I (Tracking.start file : Step Unit) := by
  intro s
  obtain ⟨-, -, -, -, henabled, -⟩ := s.tracker.start_scopes file
  exact hI s _ henabled rfl

theorem maintains_add (d : Dependency) : Maintains I (Tracking.add d : Step Unit) := by
  refine maintains_tracker hI fun t a t' h => ?_
  unfold Tracker.add at h
  split at h
  · cases h
  · cases h
    split <;> rfl

theorem maintains_merge (keys : List String) (file : Option String) :
    Maintains I (Tracking.merge keys file : Step Unit) := by
  refine maintains_tracker hI fun t a t' h => ?_
  unfold Tracker.merge at h
  split at h
  · cases h
  · cases h
    rfl

theorem maintains_finish : Maintains I (Tracking.finish : Step (List String)) := by
  refine maintains_tracker hI fun t a t' h => ?_
  unfold Tracker.finish at h
  split at h
  · cases h
  · dsimp only at h
    split at h <;> cases h <;> rfl

/-! ### Memos and artifacts -/

theorem maintains_memoized {κ : Type} [DecidableEq κ] {memo : Part State (Memo κ α)}
    (hmemo : ∀ f, Maintains I (memo.modify f)) (enabled : Bool) (key : κ) {compute : Step α} (h : Maintains I compute) :
    Maintains I (Memo.memoized memo enabled key compute) :=
  sequential_maintains.memoized (maintains_merge hI) hmemo (maintains_start hI none) (maintains_finish hI) enabled key h

theorem maintains_artifact (kind : ArtifactKind) (key : String) (file : Option String) {build : Step Draft}
    (h : Maintains I build) : Maintains I (artifact kind key file build) := by
  unfold artifact Store.generateOnce Store.generate
  refine maintains_bind (maintains_read _) fun store => ?_
  split
  · exact sequential_maintains.reuse (maintains_merge hI) _
  · refine maintains_bind (maintains_start hI file) fun _ => maintains_bind maintains_currentFile fun _ => ?_
    refine maintains_bind h fun _ => maintains_bind (maintains_add hI _) fun _ => ?_
    refine maintains_bind (maintains_finish hI) fun _ => ?_
    refine maintains_bind (maintains_modify hI (fun _ _ => ⟨rfl, rfl⟩) _) fun _ => ?_
    exact maintains_bind (maintains_note hI _ _) fun _ => maintains_pure _

end Steps

/-! ## Carrying out plans -/

/-- Steps that answer plans maintain a property, and give the fragments that are asked for. -/
structure Host.Maintains (c : Sources) (I : State → Prop) (host : Host) : Prop where
  declare : ∀ d, Compile.Maintains I (host.declare d)
  code : ∀ type, Compile.Maintains I (host.code type)
  spread : ∀ name, Compile.Maintains I (host.spread name)
  answers : ∀ name s f s', (host.spread name).runOn s = (.ok f, s') → Assoc.get? c.fragments name = some f

/-- Carrying out the plans of selections and of input values maintains a property. -/
def Carries (c : Setup) (I : State → Prop) : Prop :=
  ∀ {α : Type} (host : Host) (p : Plan α), host.Maintains c.toSources I → p.Keeps c.toSources ∨ p.Codes →
    Maintains I (p.perform c.cached host)

/-! ## Generating -/

section Generating

variable {c : Setup} {I : State → Prop} (hI : Frugal I) (hcarries : Carries c I)

include hI hcarries

theorem maintains_declareWith {inner : Declared → Step Unit} (h : ∀ d, Maintains I (inner d)) (d : Declared) :
    Maintains I (declareWith c inner d) := by
  have hdeclaring : (declaring inner).Maintains c.toSources I :=
    ⟨h, fun _ => maintains_failHere _, fun _ => maintains_failHere _, fun _ _ _ _ => nofun⟩
  have hinput : (inputHost c inner).Maintains c.toSources I :=
    ⟨h, fun type => maintains_memoized hI (fun f => maintains_modify hI (fun _ _ => ⟨rfl, rfl⟩) f) _ _
      (hcarries _ _ hdeclaring (Or.inr (codes_codePlan type))), fun _ => maintains_failHere _, fun _ _ _ _ => nofun⟩
  refine maintains_bind (maintains_artifact hI _ _ _ ?_) fun _ => maintains_pure ()
  have hbuild := hcarries _ _ hinput (Or.inr (codes_draft (c := c.toSources) d))
  exact markingInput_of (fun n => maintains_marking hI mutePart_inputMarks.toQuietPart n) d hbuild

theorem maintains_declareFlat (d : Declared) : Maintains I (declareFlat c d) :=
  maintains_declareWith hI hcarries
    (fun d => maintains_declareWith hI hcarries (fun _ => maintains_pure ()) d) d

theorem maintains_declare (building : List String) (d : Declared) : Maintains I (declare c building d) :=
  declare_rec (H := fun _ _ act => Maintains I act) (fun _ _ _ => maintains_add hI _)
    (fun _ _ _ ih => maintains_declareWith hI hcarries ih _) (fun _ d _ => maintains_declareFlat hI hcarries d) building d

theorem maintains_host {spread : Spread} (h : ∀ name, Maintains I (spread name))
    (hanswers : ∀ name s f s', (spread name).runOn s = (.ok f, s') → Assoc.get? c.fragments name = some f) :
    (host c spread).Maintains c.toSources I where
  declare := maintains_declare hI hcarries []
  code type := maintains_memoized hI (fun f => maintains_modify hI (fun _ _ => ⟨rfl, rfl⟩) f) _ _
    (hcarries _ _ ⟨maintains_declare hI hcarries [], fun _ => maintains_failHere _, fun _ => maintains_failHere _,
      fun _ _ _ _ => nofun⟩ (Or.inr (codes_codePlan type)))
  spread := h
  answers := hanswers

omit hI hcarries in
/-- A fragment that is used is the one of its name. -/
theorem useFragment_answers {generate : Generator} {name : String} {s s' : State} {f : FragmentDef}
    (h : (useFragment c generate name).runOn s = (.ok f, s')) : Assoc.get? c.fragments name = some f := by
  unfold useFragment at h
  split at h
  · rw [runOn_failHere] at h
    cases h
  · rename_i f' hf
    rw [runOn_bind] at h
    rcases huse : (Tracking.addFragmentUse name : Step Unit).runOn s with ⟨_ | _, s₁⟩ <;> rw [huse] at h
    · cases h
    · dsimp only at h
      rw [runOn_bind] at h
      rcases hgen : (generate name).runOn s₁ with ⟨_ | _, s₂⟩ <;> rw [hgen] at h <;> cases h
      exact hf

/-- What answers the plans of selections, if generating fragments maintains the property. -/
theorem maintains_fragmentHost {generate : Generator} (h : ∀ name, Maintains I (generate name)) :
    (host c (useFragment c generate)).Maintains c.toSources I := by
  refine maintains_host hI hcarries (fun name => ?_) fun _ _ _ _ => useFragment_answers
  unfold useFragment
  split
  · exact maintains_failHere _
  · exact maintains_bind (maintains_add hI _) fun _ => maintains_bind (h name) fun _ => maintains_pure _

/-- All that a build does maintains what carrying out plans maintains. -/
theorem rules_maintains : Rules c fun _ act => Maintains I act where
  pure _ a := maintains_pure a
  fail _ e := maintains_fail e
  failHere _ e := maintains_failHere e
  bind := maintains_bind
  read _ p := maintains_read p
  modify _ _ hp f := maintains_modify hI (fun a s => ⟨hp.tracker a s, hp.shapes a s⟩) f
  skipped _ _ _ := maintains_note hI _ _
  keepFields {_ _ f} _ _ fields := sequential_maintains.keepFields (maintains_modify hI fun _ _ => ⟨rfl, rfl⟩) f fields
  attributeFields _ name := sequential_maintains.attributeFields (maintains_modify hI fun _ _ => ⟨rfl, rfl⟩) name
  inScope given _ f h := sequential_maintains.inScope (maintains_start hI given) (maintains_finish hI) f h
  artifact given _ _ h := maintains_artifact hI _ _ given h
  marking hmarks name _ h := maintains_marking hI hmarks.toQuietPart name h
  again _ name := sequential_maintains.fragmentInProgress (maintains_merge hI) name
  perform _ h hp := hcarries _ _ (maintains_fragmentHost hI hcarries h) hp

end Generating

end ResponseTypes.Compile
