import ResponseTypes.Artifact.Basic
import ResponseTypes.Assoc
import ResponseTypes.Dependency.Tracker
import ResponseTypes.Journal

/-!
# The artifact store

A `Store κ` holds artifacts by kind and key, in the order of their completion.  `Store.generateOnce` builds an artifact
on first request; on later ones it merges the recorded keys into the tracker, as building it again would record them.
-/

namespace ResponseTypes

set_option autoImplicit false

/-- Artifacts by kind and key. -/
abbrev Store (κ : Type) := Assoc (κ × String) (Artifact κ)

namespace Store

variable {κ : Type}

/-- Drops the artifacts that came from a file or depend on it. -/
def purge (s : Store κ) (file : String) : Store κ :=
  s.filter (fun e => !e.2.origin.dependsOn file)

variable [DecidableEq κ] [KindName κ] {σ : Type} [Tracks σ] [Journals σ]

/-- Records an artifact that exists, giving its name. -/
def reuse (a : Artifact κ) : Action σ String := do
  Tracking.merge a.origin.keys (some a.origin.file)
  return a.name

/-- Builds an artifact in a scope of its own and stores it, giving its name.  When building fails the scope stays
open. -/
def generate (store : Part σ (Store κ)) (kind : κ) (key : String) (file : Option String)
    (build : Action σ Draft) : Action σ String := do
  Tracking.start file
  let source ← Tracking.currentFile
  let draft ← build
  Tracking.add ⟨KindName.name kind, draft.name⟩
  let keys ← Tracking.finish
  store.modify (fun s => Assoc.insert s (kind, key) { toDraft := draft, kind, origin := ⟨source, keys⟩ })
  note .debug ("Generated " ++ KindName.name kind ++ " " ++ draft.name)
  return draft.name

/-- The name of an artifact, which is built on first request. -/
def generateOnce (store : Part σ (Store κ)) (kind : κ) (key : String) (file : Option String)
    (build : Action σ Draft) : Action σ String := do
  match Assoc.get? (← store.read) (kind, key) with
  | some a => reuse a
  | none => generate store kind key file build

end Store

end ResponseTypes
