import ResponseTypes.Proofs.Plan.Maintain

/-!
# Kept shapes are what selections come to

In a state that `Recalls` the sources, each shape that is kept is what compiling its selections comes to.  Sound states do
(`Sound.recalls`), and carrying out plans maintains it (`carries_recalls`), so that it holds at every point of generating.
In such a state compiling selections gives what their plan comes to, whether shapes are kept or not (`outcome_of_select`).
-/

namespace ResponseTypes.Compile

set_option autoImplicit false

open GraphQL (Selection TypeDef TypeRef)

/-- Each shape that is kept is what the plan of its selections comes to. -/
def Recalls (c : Sources) (s : State) : Prop :=
  ∀ typeName sels shape origin, Assoc.get? s.shapes.entries (typeName, sels) = some (shape, origin) →
    ∀ t, c.schema.type? typeName = some t → (selection c.toConfig t sels).outcome c = .ok shape

theorem recalls_initial (c : Sources) (tracking : Bool) : Recalls c (.initial tracking) :=
  fun _ _ _ _ => nofun

theorem frugal_recalls (c : Sources) : Frugal (Recalls c) := by
  intro s s' _ hentries hs typeName sels shape origin h
  rw [hentries] at h
  exact hs typeName sels shape origin h

variable {c : Setup}

/-- The step comes to the outcome `out` if it comes to anything, in states that recall the sources, and maintains that. -/
def Comes (c : Sources) {α : Type} (act : Step α) (out : Except Lack α) : Prop :=
  ∀ s, Recalls c s → Recalls c (act.runOn s).2 ∧ ∀ a s', act.runOn s = (.ok a, s') → out = .ok a

section Comes

variable {α β : Type}

theorem comes_pure {a : α} {out : Except Lack α} (h : out = .ok a) : Comes c.toSources (pure a) out := by
  refine fun s hs => ⟨hs, fun b s' hb => ?_⟩
  cases hb
  exact h

theorem comes_failHere {e : Lack} {out : Except Lack α} : Comes c.toSources (Tracking.failHere e) out :=
  fun _ hs => ⟨hs, fun _ _ => nofun⟩

theorem comes_bind {act : Step α} {f : α → Step β} {first : Except Lack α} {out : Except Lack β}
    (h : Comes c.toSources act first) (hf : ∀ a, first = .ok a → Comes c.toSources (f a) out) :
    Comes c.toSources (act >>= f) out := by
  intro s hs
  obtain ⟨hrecalls, hok⟩ := h s hs
  rw [runOn_bind]
  rcases hrun : act.runOn s with ⟨_ | a, s₁⟩ <;> rw [hrun] at hrecalls
  · exact ⟨hrecalls, fun _ _ => nofun⟩
  · exact hf a (hok a s₁ hrun) s₁ hrecalls

/-- Of a step that maintains that the sources are recalled nothing else has to be known. -/
theorem comes_after {act : Step α} {f : α → Step β} {out : Except Lack β} (h : Maintains (Recalls c.toSources) act)
    (hf : ∀ a, (∃ s s', act.runOn s = (.ok a, s')) → Comes c.toSources (f a) out) : Comes c.toSources (act >>= f) out := by
  intro s hs
  have hrecalls := h s hs
  rw [runOn_bind]
  rcases hrun : act.runOn s with ⟨_ | a, s₁⟩ <;> rw [hrun] at hrecalls
  · exact ⟨hrecalls, fun _ _ => nofun⟩
  · exact hf a ⟨s, s₁, hrun⟩ s₁ hrecalls

end Comes

/-- The plan of selections comes to the same, whether their shape was kept before or not. -/
theorem comes_memoized {t : TypeDef} {sels : List Selection} {compute : Step Shape} {out : Except Lack Shape}
    (ht : c.schema.type? t.name = some t) (hout : (selection c.toConfig t sels).outcome c.toSources = out)
    (h : Comes c.toSources compute out) :
    Comes c.toSources (Memo.memoized State.shapesPart c.cached (t.name, sels) compute) out := by
  have hI := frugal_recalls c.toSources
  have hcount : ∀ f : Memo (String × List Selection) Shape → Memo (String × List Selection) Shape,
      (∀ m, (f m).entries = m.entries) → Maintains (Recalls c.toSources) (State.shapesPart.modify f) :=
    fun f hf s => hI s _ rfl (hf s.shapes)
  have hkeep : ∀ shape origin, out = .ok shape → Maintains (Recalls c.toSources) (State.shapesPart.modify fun m =>
      { m with entries := Assoc.insert m.entries (t.name, sels) (shape, origin) }) := by
    intro shape origin hshape s hs typeName' sels' shape' origin' hget t' ht'
    change Assoc.get? (Assoc.insert s.shapes.entries _ _) _ = _ at hget
    rw [Assoc.get?_insert] at hget
    split at hget
    · rename_i hkey
      cases hkey
      cases hget
      cases ht.symm.trans ht'
      exact hout.trans hshape
    · exact hs typeName' sels' shape' origin' hget t' ht'
  unfold Memo.memoized
  split
  · exact h
  · intro s hs
    rw [runOn_bind, runOn_read]
    dsimp only
    split
    · rename_i shape origin hget
      have hshape : out = .ok shape := hout ▸ hs t.name sels shape origin hget t ht
      refine (show Comes c.toSources _ out from ?_) s hs
      refine comes_after (hcount _ fun _ => rfl) fun _ _ => ?_
      exact comes_after (maintains_merge hI _ _) fun _ _ => comes_pure hshape
    · refine (show Comes c.toSources _ out from ?_) s hs
      refine comes_after (hcount _ fun _ => rfl) fun _ _ => ?_
      refine comes_after (maintains_start hI none) fun _ _ => comes_after maintains_currentFile fun file _ => ?_
      refine comes_bind h fun shape hshape => comes_after (maintains_finish hI) fun keys _ => ?_
      exact comes_after (hkeep shape ⟨file, keys⟩ hshape) fun _ _ => comes_pure hshape

/-- Carrying out the plan of selections gives what the plan comes to. -/
theorem comes_perform {host : Host} (hhost : host.Maintains c.toSources (Recalls c.toSources)) {α : Type} {p : Plan α}
    (hp : p.Keeps c.toSources) : Comes c.toSources (p.perform c.cached host) (p.outcome c.toSources) := by
  induction p with
  | done a => exact comes_pure rfl
  | lack e => exact comes_failHere
  | declare d next ih => exact comes_after (hhost.declare d) fun _ _ => ih hp.2
  | code type next ih => exact hp.elim
  | spread name next ih =>
    refine comes_after (hhost.spread name) fun f hf => ?_
    obtain ⟨s, s', hrun⟩ := hf
    have hname := hhost.answers name s f s' hrun
    simp only [Plan.outcome, hname]
    exact ih f (hp f hname)
  | keep typeName sels body next ihb ih =>
    obtain ⟨⟨t, rfl, ht, hsel⟩, hbody, hnext⟩ := hp
    have hout : (selection c.toConfig t sels).outcome c.toSources = body.outcome c.toSources := by
      rw [hsel, Plan.outcome]
      cases body.outcome c.toSources <;> rfl
    refine comes_bind (comes_memoized ht hout (ihb hbody)) fun shape hshape => ?_
    simp only [Plan.outcome, hshape]
    exact ih shape (hnext shape hshape)
  | count thing next ih => exact comes_after (maintains_count (frugal_recalls c.toSources) thing) fun _ _ => ih hp

/-- Carrying out plans maintains that the sources are recalled: those of input values keep no shapes. -/
theorem carries_recalls : Carries c (Recalls c.toSources) := by
  intro α host p hhost hp
  rcases hp with hp | hp
  · exact fun s hs => (comes_perform hhost hp s hs).1
  · induction p with
    | done a => exact maintains_pure a
    | lack e => exact maintains_failHere e
    | declare d next ih => exact maintains_bind (hhost.declare d) fun _ => ih hp
    | code type next ih => exact maintains_bind (hhost.code type) fun text => ih text (hp text)
    | spread name next ih => exact hp.elim
    | keep typeName sels body next _ ih => exact hp.elim
    | count thing next ih => exact maintains_bind (maintains_count (frugal_recalls c.toSources) thing) fun _ => ih hp

/-- What was sound when it was reached recalls the sources. -/
theorem Sound.recalls {late : TypeRef → Prop} {jobOf : String → Option Job} {stack : Stack} {s : State}
    (h : Sound c.toSources late jobOf stack s) : Recalls c.toSources s :=
  fun typeName sels shape origin hget t ht => (h.shapes typeName sels shape origin hget t ht).1

/-- Compiling selections gives what their plan comes to, in every state that recalls the sources and whatever fragments are
being generated meanwhile. -/
theorem outcome_of_select {t : TypeDef} (ht : Known c.toConfig t) {sels : List Selection} {building : List String}
    {s s' : State} {shape : Shape} (hs : Recalls c.toSources s)
    (h : (select c (useFragment c fun name => discard (generateFragment c building name)) t sels).runOn s =
      (.ok shape, s')) :
    (selection c.toConfig t sels).outcome c.toSources = .ok shape := by
  have hI := frugal_recalls c.toSources
  have hnone : ∀ node : Node, node ∉ ([] : List Node) := fun _ => List.not_mem_nil
  have hhost := maintains_fragmentHost hI carries_recalls fun name => maintains_discard
    ((rules_maintains hI carries_recalls).generateFragment building name (fun d => hnone d.node) fun n hn => absurd hn (hnone _))
  exact (comes_perform hhost (selection_keeps t sels ht) s hs).2 shape s' h

/-- Generating the types of an operation maintains that the sources are recalled. -/
theorem recalls_generateJob {j : Job} (hj : Known c.toConfig j.root) {s : State} (hs : Recalls c.toSources s) :
    Recalls c.toSources ((generateJob c j).runOn s).2 :=
  (rules_maintains (frugal_recalls c.toSources) carries_recalls).generateJob hj s hs

end ResponseTypes.Compile
