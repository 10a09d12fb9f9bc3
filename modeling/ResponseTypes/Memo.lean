import ResponseTypes.Assoc
import ResponseTypes.Dependency.Tracker

/-!
# Memoized results

`Memo κ α` : results by key, each with its origin, and counts of hits and misses.  `memoized` answers from the memo or
computes; a hit merges the recorded keys into the tracker, as computing again would record them.
-/

namespace ResponseTypes

set_option autoImplicit false

structure Memo (κ α : Type) where
  entries : Assoc κ (α × Origin)
  hits : Nat
  misses : Nat

namespace Memo

variable {κ α : Type}

def empty : Memo κ α :=
  ⟨[], 0, 0⟩

/-- The number of results. -/
def size (m : Memo κ α) : Nat :=
  m.entries.length

/-- Drops the results that came from a file or depend on it. -/
def purge (m : Memo κ α) (file : String) : Memo κ α :=
  { m with entries := m.entries.filter (fun e => !e.2.2.dependsOn file) }

/-- The result for a key, from the memo or computed in a scope of its own and then kept.  When computing fails the
scope stays open. -/
def memoized {σ : Type} [Tracks σ] [DecidableEq κ] (memo : Part σ (Memo κ α)) (enabled : Bool) (key : κ)
    (compute : Action σ α) : Action σ α := do
  if !enabled then
    compute
  else
    match Assoc.get? (← memo.read).entries key with
    | some (a, origin) =>
      memo.modify (fun m => { m with hits := m.hits + 1 })
      Tracking.merge origin.keys (some origin.file)
      return a
    | none =>
      memo.modify (fun m => { m with misses := m.misses + 1 })
      Tracking.start none
      let file ← Tracking.currentFile
      let a ← compute
      let keys ← Tracking.finish
      memo.modify (fun m => { m with entries := Assoc.insert m.entries key (a, ⟨file, keys⟩) })
      return a

end Memo

end ResponseTypes
