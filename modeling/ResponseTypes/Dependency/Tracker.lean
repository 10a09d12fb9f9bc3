import ResponseTypes.Action
import ResponseTypes.Dependency.Basic

/-!
# The dependency tracker

A `Tracker` collects keys in a stack of nested scopes.  `add` reaches the innermost scope, `merge` every open one, and
`finish` closes the innermost and merges its keys into the others.  The tracker also holds the current file, which a
scope that is opened with a file changes and the end of a nested scope restores.  A disabled tracker keeps scopes and
files in the same way and records nothing but fragment uses.
-/

namespace ResponseTypes

set_option autoImplicit false

/-- A scope that is open. -/
structure Scope where
  file : String
  /-- the keys recorded so far, each once, in order of first recording -/
  keys : List String
deriving DecidableEq, Repr

/-- Records a key. -/
def Scope.record (s : Scope) (key : String) : Scope :=
  if key ∈ s.keys then s else { s with keys := s.keys ++ [key] }

/-- Records keys one after the other. -/
def Scope.recordAll (s : Scope) (keys : List String) : Scope :=
  keys.foldl Scope.record s

structure Tracker where
  enabled : Bool
  /-- the open scopes, the innermost first -/
  scopes : List Scope
  currentFile : String
deriving DecidableEq, Repr

namespace Tracker

/-- No scope is open. -/
def initial (enabled : Bool) : Tracker :=
  ⟨enabled, [], noFile⟩

/-- A scope is open. -/
def hasOpenScope (t : Tracker) : Bool :=
  !t.scopes.isEmpty

/-- The key is recorded: all are when the tracker is enabled, and fragment uses always. -/
def records (t : Tracker) (key : String) : Bool :=
  t.enabled || Dependency.isFragmentUse key

/-- Closes all scopes and forgets the current file. -/
def reset (t : Tracker) : Tracker :=
  initial t.enabled

/-- Opens a scope.  Without a file, or with an empty one, it inherits the current file; with one, the file becomes
current and its key is recorded. -/
def start (t : Tracker) (file : Option String) : Tracker :=
  match file with
  | none | some "" => { t with scopes := ⟨t.currentFile, []⟩ :: t.scopes }
  | some file =>
    { t with
      scopes := ⟨file, if t.enabled then [Dependency.fileKey file] else []⟩ :: t.scopes
      currentFile := file }

/-- Records a dependency in the innermost scope. -/
def add (t : Tracker) (d : Dependency) : Except Failure Tracker :=
  match t.scopes with
  | [] => .error (.breach (.addWithoutScope d.kind d.name) t.currentFile)
  | s :: rest => .ok (if t.records d.key then { t with scopes := s.record d.key :: rest } else t)

/-- The keys that a merge of recorded keys and a file brings. -/
def mergedKeys (t : Tracker) (keys : List String) (file : Option String) : List String :=
  (match file with
    | none | some "" => keys
    | some file => keys ++ [Dependency.fileKey file]).filter t.records

/-- Records keys, and the key of a file unless its name is empty, in every open scope. -/
def merge (t : Tracker) (keys : List String) (file : Option String) : Except Failure Tracker :=
  if t.scopes.isEmpty then .error (.breach .mergeWithoutScope t.currentFile)
  else .ok { t with scopes := t.scopes.map (·.recordAll (t.mergedKeys keys file)) }

/-- The keys of a scope at its end: the key of its file is among them. -/
def closingKeys (t : Tracker) (s : Scope) : List String :=
  if t.enabled then (s.record (Dependency.fileKey s.file)).keys else s.keys

/-- Closes the innermost scope and gives its keys, which the scopes around it record too.  The scope around it gives
the current file. -/
def finish (t : Tracker) : Except Failure (List String × Tracker) :=
  match t.scopes with
  | [] => .error (.breach .endWithoutScope t.currentFile)
  | s :: rest =>
    let keys := t.closingKeys s
    match rest with
    | [] => .ok (keys, { t with scopes := [] })
    | outer :: _ =>
      .ok (keys, { t with
        scopes := rest.map (·.recordAll (keys.filter t.records))
        currentFile := outer.file })

end Tracker

/-! ## Tracking as actions -/

/-- States that hold a tracker. -/
class Tracks (σ : Type) where
  tracker : Part σ Tracker

namespace Tracking

variable {σ : Type} [Tracks σ]

/-- The file that is being processed. -/
def currentFile : Action σ String := do
  return (← Tracks.tracker.read).currentFile

/-- Fails in the file that is being processed. -/
def failHere {α : Type} (e : Option String → Failure) : Action σ α := do
  Action.fail (e (some (← currentFile)))

/-- Opens a scope. -/
def start (file : Option String) : Action σ Unit :=
  Tracks.tracker.modify (·.start file)

/-- Records a dependency. -/
def add (d : Dependency) : Action σ Unit :=
  Tracks.tracker.step (fun t => (t.add d).map ((), ·))

/-- Records the use of a fragment. -/
def addFragmentUse (fragment : String) : Action σ Unit :=
  add ⟨Dependency.fragmentUseKind, fragment⟩

/-- Records keys and a file in every open scope. -/
def merge (keys : List String) (file : Option String) : Action σ Unit :=
  Tracks.tracker.step (fun t => (t.merge keys file).map ((), ·))

/-- Closes the innermost scope. -/
def finish : Action σ (List String) :=
  Tracks.tracker.step Tracker.finish

/-- Runs an action in a scope of its own.  Its innermost scope is closed when it fails too; a failure to close one
hides the failure before it. -/
def inScope {α : Type} (file : Option String) (act : Action σ α) : Action σ (α × List String) := fun s =>
  match start file s with
  | (.error e, s) => (.error e, s)
  | (.ok (), s) =>
    match act s with
    | (.ok a, s) => (do return (a, ← finish) : Action σ (α × List String)) s
    | (.error e, s) => (do let _ ← finish; Action.fail e : Action σ (α × List String)) s

end Tracking

end ResponseTypes
