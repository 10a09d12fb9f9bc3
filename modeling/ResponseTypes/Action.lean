import ResponseTypes.Failure

/-!
# Actions

`Action σ α` : a computation on a state that may fail, and whose effects up to the failure remain.  A `Part σ α` is one
component of a state, to read and to write; what works on a component alone works in every state that has it.
-/

namespace ResponseTypes

set_option autoImplicit false

/-- A computation on states `σ`.  A failure keeps the state that it was met in. -/
abbrev Action (σ α : Type) := ExceptT Failure (StateM σ) α

namespace Action

variable {σ α : Type}

/-- The outcome and the final state. -/
def runOn (act : Action σ α) (s : σ) : Except Failure α × σ :=
  act s

/-- A computation given by what it does to a state. -/
def ofRun (run : σ → Except Failure α × σ) : Action σ α :=
  run

/-- Fails. -/
def fail (e : Failure) : Action σ α :=
  fun s => (.error e, s)

@[simp] theorem runOn_pure (a : α) (s : σ) : (pure a : Action σ α).runOn s = (.ok a, s) := rfl

@[simp] theorem runOn_fail (e : Failure) (s : σ) : (fail e : Action σ α).runOn s = (.error e, s) := rfl

end Action

/-- A component of a state. -/
structure Part (σ α : Type) where
  get : σ → α
  set : α → σ → σ

namespace Part

variable {σ α : Type}

/-- The component in the current state. -/
def read (p : Part σ α) : Action σ α :=
  fun s => (.ok (p.get s), s)

/-- Changes the component. -/
def modify (p : Part σ α) (f : α → α) : Action σ Unit :=
  fun s => (.ok (), p.set (f (p.get s)) s)

/-- Runs a step on the component that may fail; then the component stays as it is. -/
def step {β : Type} (p : Part σ α) (f : α → Except Failure (β × α)) : Action σ β :=
  fun s => match f (p.get s) with
    | .ok (b, a) => (.ok b, p.set a s)
    | .error e => (.error e, s)

/-- The component of a component. -/
def comp {β : Type} (p : Part σ α) (q : Part α β) : Part σ β where
  get s := q.get (p.get s)
  set b s := p.set (q.set b (p.get s)) s

end Part

end ResponseTypes
