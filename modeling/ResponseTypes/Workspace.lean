import ResponseTypes.Output

/-!
# The workspace

A `Workspace` holds documents and all that was generated from them.  When a document is added, updated or removed, the
next `build` generates again what depends on it; a build that fails discards all that was generated.
-/

namespace ResponseTypes

set_option autoImplicit false

open Compile (CollectedOperation FragmentDef Setup State Step)
open GraphQL (Document)

structure Workspace where
  options : Options
  schema : Schema
  /-- the documents by file -/
  documents : Assoc String Document
  /-- the fragments of all documents at the last build -/
  fragments : Assoc String FragmentDef
  operations : Assoc String CollectedOperation
  state : State

namespace Workspace

/-- A workspace without documents. -/
def new (schema : Schema) (options : Options) : Workspace where
  options := options
  schema := schema
  documents := []
  fragments := []
  operations := []
  state := .initial options.trackDependencies

/-- What compilation works from. -/
def setup (w : Workspace) : Setup where
  schema := w.schema
  output := w.options.output
  naming := w.options.naming
  scalars := w.options.scalars
  templates := w.options.templates
  fragments := w.fragments
  cached := w.options.useCache

/-- Runs a step of compilation. -/
def run {α : Type} (w : Workspace) (step : Step α) : Except Failure α × Workspace :=
  let (result, state) := step.runOn w.state
  (result, { w with state })

/-- Writes a message in the journal. -/
def log (w : Workspace) (level : Level) (text : String) : Workspace :=
  (w.run (note level text)).2

/-! ## Discarding -/

/-- Discards all that was generated, keeping the documents. -/
def resetCaches (w : Workspace) : Workspace :=
  { w with state := w.state.reset, operations := [] }

/-- Discards all that was generated, and the documents. -/
def reset (w : Workspace) : Workspace :=
  { w.resetCaches with documents := [] }

/-- Switches to another schema, discarding all that was generated. -/
def updateSchema (w : Workspace) (schema : Schema) : Workspace :=
  { w with schema }.resetCaches

/-- Discards what came from a file or depends on it.  Without tracked dependencies that is everything. -/
def purge (w : Workspace) (file : String) : Workspace :=
  if !w.options.trackDependencies then
    w.resetCaches.log .debug ("Dependency tracking is off, discarded everything for " ++ file)
  else
    let old := w.state
    let state := { old with
      store := Store.purge old.store file
      shapes := old.shapes.purge file
      inputs := old.inputs.purge file
      fieldMaps := old.fieldMaps.filter (fun e => !e.2.origin.dependsOn file) }
    let operations := w.operations.filter (fun e => !e.2.origin.dependsOn file)
    let purged := { w with state, operations }
    let dropped := old.memoized - state.memoized
    let purged :=
      if dropped = 0 then purged
      else purged.log .debug ("Purged " ++ toString dropped ++ " cache entries for " ++ file)
    let gone := old.store.length - state.store.length
    purged.log .debug ("Purged " ++ toString gone ++ " artifacts for " ++ file)

/-! ## Documents -/

/-- Adds documents by file.  One whose file is registered makes it fail; those before it stay. -/
def add (w : Workspace) : List (String × Document) → Except Failure Unit × Workspace
  | [] => (.ok (), w)
  | (file, d) :: rest =>
    if Assoc.has w.documents file then (.error (.duplicateDocument file), w)
    else add { w with documents := Assoc.insert w.documents file d } rest

/-- Replaces documents by file, discarding what was generated from the old ones.  One whose file is not registered makes
it fail; those before it stay replaced. -/
def update (w : Workspace) : List (String × Document) → Except Failure Unit × Workspace
  | [] => (.ok (), w)
  | (file, d) :: rest =>
    if Assoc.has w.documents file then
      let purged := w.purge file
      update { purged with documents := Assoc.insert purged.documents file d } rest
    else (.error (.breach .updateUnknown (some file)), w)

/-- Removes a document and what was generated from it. -/
def remove (w : Workspace) (file : String) : Workspace :=
  { w with documents := Assoc.erase w.documents file }.purge file

/-! ## Building -/

/-- The fragments of all documents; of several with one name the last counts. -/
def collectFragments (documents : Assoc String Document) : Assoc String FragmentDef :=
  Assoc.ofList (documents.flatMap (fun e => e.2.fragments.map (fun f => (f.name, ⟨f, e.1⟩))))

/-- Generates the fragments of all documents. -/
def generateFragments (c : Setup) (documents : Assoc String Document) : Step Unit :=
  documents.forM (fun e => do
    Tracking.start (some e.1)
    e.2.fragments.forM (fun f => Compile.generator c f.name)
    discard Tracking.finish)

/-- Generates the types of an operation of a file, adding it to those there are. -/
def collectOperation (c : Setup) (file : String) (operations : Assoc String CollectedOperation)
    (op : GraphQL.Operation) : Step (Assoc String CollectedOperation) := do
  match ← Compile.generateOperation c op file with
  | some collected => return Assoc.insert operations collected.name collected
  | none => return operations

/-- Generates the operations of all documents, adding them to those there are. -/
def generateOperations (c : Setup) (documents : Assoc String Document)
    (operations : Assoc String CollectedOperation) : Step (Assoc String CollectedOperation) :=
  documents.foldlM (fun operations e => do
    Tracking.start (some e.1)
    let operations ← e.2.operations.foldlM (collectOperation c e.1) operations
    discard Tracking.finish
    return operations) operations

/-- Generates all that is not generated yet. -/
def generateAll (c : Setup) (skipUnused : Bool) (documents : Assoc String Document)
    (operations : Assoc String CollectedOperation) : Step (Assoc String CollectedOperation) := do
  if !skipUnused then generateFragments c documents
  let operations ← generateOperations c documents operations
  let tracker ← Tracks.tracker.read
  if tracker.hasOpenScope then Action.fail (.scopesLeftOpen (some tracker.currentFile))
  else return operations

/-- Counts as they are written in the journal. -/
def printCounters (counters : Assoc String Nat) : String :=
  "\x7b" ++ Text.joinWith ", " (counters.map (fun e => Text.quoted e.1 ++ ": " ++ toString e.2)) ++ "\x7d"

/-- The message that sums up a build. -/
def summary (s : State) : String :=
  "Built " ++ toString s.store.length ++ " artifacts (cache: " ++ toString s.hits ++ " hits, " ++
    toString s.misses ++ " misses, compiled: " ++ printCounters s.counters ++ ")"

/-- Generates the types of all documents.  A failure discards all that was generated, so that the next build starts
over. -/
def build (w : Workspace) : Except Failure Output × Workspace :=
  let w := { w with fragments := collectFragments w.documents }
  match w.run (generateAll w.setup w.options.skipUnusedFragments w.documents w.operations) with
  | (.error e, failed) => (.error e, failed.resetCaches)
  | (.ok operations, built) =>
    let built := { built with operations }
    let built := if w.options.debugMode then built.log .info (summary built.state) else built
    (.ok (.ofParts (Assoc.values built.state.store) (Assoc.values operations) w.options.templates
      w.options.hooks), built)

/-- All types of some documents, generated in one go. -/
def generateOnce (schema : Schema) (options : Options) (documents : List (String × Document)) :
    Except Failure String :=
  match (new schema options).add documents with
  | (.error e, _) => .error e
  | (.ok (), w) =>
    match w.build.1 with
    | .error e => .error e
    | .ok out => out.everything

end Workspace

end ResponseTypes
