import ResponseTypes.Action

/-!
# The journal

Messages about what the generator does, in order.
-/

namespace ResponseTypes

set_option autoImplicit false

inductive Level where
  | debug
  | info
deriving DecidableEq, Repr

structure Message where
  level : Level
  text : String
deriving DecidableEq, Repr

/-- The name of a level as it is printed. -/
def Level.label : Level → String
  | debug => "DEBUG"
  | info => "INFO"

/-- States that keep a journal. -/
class Journals (σ : Type) where
  journal : Part σ (List Message)

/-- Writes a message. -/
def note {σ : Type} [Journals σ] (level : Level) (text : String) : Action σ Unit :=
  Journals.journal.modify (· ++ [⟨level, text⟩])

end ResponseTypes
