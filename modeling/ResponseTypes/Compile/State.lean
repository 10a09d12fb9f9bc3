import ResponseTypes.Artifact.Store
import ResponseTypes.Memo
import ResponseTypes.Options.Basic
import ResponseTypes.Schema.Basic
import ResponseTypes.Shape.Compose

/-!
# The state of compilation

A `Setup` is what compilation works from.  Its `Sources` determine all types: the schema and the options on generated
code, their `Config`, and the fragments of all documents.  A `State` is what compilation has done so far: artifacts,
memoized results, the fields of compiled fragments, the tracker and counts.
-/

namespace ResponseTypes.Compile

set_option autoImplicit false

open GraphQL (Fragment Selection TypeDef TypeRef)

/-- A fragment, with the file that defines it. -/
structure FragmentDef where
  fragment : Fragment
  file : String
deriving DecidableEq, Repr

/-- What types are generated from, apart from fragments. -/
structure Config where
  schema : Schema
  output : OutputOptions
  naming : Naming.Conventions
  scalars : ScalarTypes
  templates : Script.Templates := .standard

/-- What types are generated from. -/
structure Sources extends Config where
  fragments : Assoc String FragmentDef

/-- What compilation works from. -/
structure Setup extends Sources where
  /-- results are memoized -/
  cached : Bool

/-- The fields that a fragment selects, those of all its branches together. -/
structure FieldMap where
  fields : Fields
  /-- how many objects stand inside each other at most, with all fragments in their places -/
  height : Nat
  origin : Origin
deriving Repr

/-- What compilation has done so far. -/
structure State where
  tracker : Tracker
  /-- shapes of selections, by the type they are on -/
  shapes : Memo (String × List Selection) Shape
  /-- type expressions of input types -/
  inputs : Memo TypeRef String
  store : Store ArtifactKind
  fieldMaps : Assoc String FieldMap
  /-- the fragments that are being generated -/
  fragmentMarks : List String
  /-- the input types that are being generated -/
  inputMarks : List String
  counters : Assoc String Nat
  journal : List Message

namespace State

/-- Nothing has been done. -/
def initial (tracking : Bool) : State where
  tracker := .initial tracking
  shapes := .empty
  inputs := .empty
  store := []
  fieldMaps := []
  fragmentMarks := []
  inputMarks := []
  counters := []
  journal := []

/-- The number of memoized results. -/
def memoized (s : State) : Nat :=
  s.shapes.size + s.inputs.size

/-- How often a memoized result was used. -/
def hits (s : State) : Nat :=
  s.shapes.hits + s.inputs.hits

/-- How often a result had to be computed. -/
def misses (s : State) : Nat :=
  s.shapes.misses + s.inputs.misses

/-- Forgets all that was done, but not the journal. -/
def reset (s : State) : State :=
  { initial s.tracker.enabled with journal := s.journal }

instance : Tracks State where
  tracker := ⟨State.tracker, fun t s => { s with tracker := t }⟩

instance : Journals State where
  journal := ⟨State.journal, fun j s => { s with journal := j }⟩

/-- The memoized shapes. -/
def shapesPart : Part State (Memo (String × List Selection) Shape) :=
  ⟨State.shapes, fun m s => { s with shapes := m }⟩

/-- The memoized input types. -/
def inputsPart : Part State (Memo TypeRef String) :=
  ⟨State.inputs, fun m s => { s with inputs := m }⟩

/-- The artifacts. -/
def storePart : Part State (Store ArtifactKind) :=
  ⟨State.store, fun a s => { s with store := a }⟩

/-- The fields of compiled fragments. -/
def fieldMapsPart : Part State (Assoc String FieldMap) :=
  ⟨State.fieldMaps, fun m s => { s with fieldMaps := m }⟩

/-- The fragments that are being generated. -/
def fragmentMarksPart : Part State (List String) :=
  ⟨State.fragmentMarks, fun m s => { s with fragmentMarks := m }⟩

/-- The input types that are being generated. -/
def inputMarksPart : Part State (List String) :=
  ⟨State.inputMarks, fun m s => { s with inputMarks := m }⟩

/-- The counts. -/
def countersPart : Part State (Assoc String Nat) :=
  ⟨State.counters, fun m s => { s with counters := m }⟩

end State

/-- A step of compilation. -/
abbrev Step (α : Type) := Action State α

/-- Counts a thing that was done. -/
def count (thing : String) : Step Unit :=
  State.countersPart.modify (fun m => Assoc.insert m thing ((Assoc.get? m thing).getD 0 + 1))

/-- Runs a step while a name is marked.  The mark is taken off at its end, also when it fails. -/
def marking {α : Type} (marks : Part State (List String)) (name : String) (act : Step α) : Step α := fun s =>
  let (result, after) := act (marks.set ((marks.get s).insert name) s)
  (result, marks.set ((marks.get after).erase name) after)

/-- The definition of a type; fails in the current file if there is none. -/
def getType (c : Setup) (name : String) : Step TypeDef :=
  match c.schema.type? name with
  | some t => pure t
  | none => Tracking.failHere (.typeNotFound name)

/-- The name of an artifact, which is built on first request, in the current file unless one is given. -/
def artifact (kind : ArtifactKind) (key : String) (file : Option String) (build : Step Draft) : Step String :=
  Store.generateOnce State.storePart kind key file build

end ResponseTypes.Compile
