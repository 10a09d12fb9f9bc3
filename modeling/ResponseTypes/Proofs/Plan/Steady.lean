import ResponseTypes.Proofs.Plan.Maintain

/-!
# Whether dependencies are tracked

No step of a build changes whether dependencies are tracked, whether it fails or not (`steady_generateAll`).
-/

namespace ResponseTypes.Compile

set_option autoImplicit false

open GraphQL (Document)

/-- A step leaves it as it is whether dependencies are tracked. -/
def Steady {α : Type} (act : Step α) : Prop :=
  ∀ s, (act.runOn s).2.tracker.enabled = s.tracker.enabled

variable {c : Setup}

/-- It is tracked or not. -/
def TracksIf (enabled : Bool) (s : State) : Prop :=
  s.tracker.enabled = enabled

theorem steady_of_maintains {α : Type} {act : Step α} (h : ∀ enabled, Maintains (TracksIf enabled) act) : Steady act :=
  fun s => h s.tracker.enabled s rfl

theorem frugal_tracksIf (enabled : Bool) : Frugal (TracksIf enabled) :=
  fun _ _ h _ hs => h.trans hs

theorem carries_tracksIf (enabled : Bool) : Carries c (TracksIf enabled) := by
  intro α host p hhost hp
  clear hp
  have hkept : ∀ f, Maintains (TracksIf enabled) (State.shapesPart.modify f) := fun _ _ h => h
  induction p with
  | done a => exact maintains_pure a
  | lack e => exact maintains_failHere e
  | declare d next ih => exact maintains_bind (hhost.declare d) fun _ => ih
  | code type next ih => exact maintains_bind (hhost.code type) ih
  | spread name next ih => exact maintains_bind (hhost.spread name) ih
  | keep typeName sels body next ihb ih =>
    exact maintains_bind (maintains_memoized (frugal_tracksIf enabled) hkept c.cached _ ihb) ih
  | count thing next ih => exact maintains_bind (maintains_count (frugal_tracksIf enabled) thing) fun _ => ih

/-- No build changes whether dependencies are tracked. -/
theorem steady_generateAll (skipUnused : Bool) (documents : Assoc String Document)
    (operations : Assoc String CollectedOperation) :
    Steady (Workspace.generateAll c skipUnused documents operations) :=
  steady_of_maintains fun enabled =>
    (rules_maintains (frugal_tracksIf enabled) (carries_tracksIf enabled)).builds.generateAll skipUnused documents operations

end ResponseTypes.Compile
