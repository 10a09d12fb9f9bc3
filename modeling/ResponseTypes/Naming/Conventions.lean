import ResponseTypes.Naming.Case

/-!
# Naming conventions

`Conventions` names generated types after operations, fragments, inputs and enums: in pascal case, with an ending that
tells the kind, and with the conventions' own text in front.
-/

namespace ResponseTypes.Naming

set_option autoImplicit false

/-- What stands in front of the names of each kind. -/
structure Conventions where
  operationLead : String := ""
  fragmentLead : String := ""
  inputLead : String := ""
  enumLead : String := ""
deriving DecidableEq, Repr

namespace Conventions

/-- The type of an operation's response. -/
def operation (c : Conventions) (name rootType : String) : String :=
  c.operationLead ++ (pascal name ++ rootType)

/-- The type of an operation's variables. -/
def operationVariables (c : Conventions) (name rootType : String) : String :=
  c.operation name rootType ++ "Variables"

/-- The type of a fragment. -/
def fragment (c : Conventions) (name : String) : String :=
  c.fragmentLead ++ (pascal name ++ "Fragment")

/-- The type of an input; its name ends in `Input` once. -/
def input (c : Conventions) (typeName : String) : String :=
  let name := pascal typeName
  c.inputLead ++ (if "Input".toList.isSuffixOf name.toList then name else name ++ "Input")

/-- The type of an enum. -/
def enum (c : Conventions) (typeName : String) : String :=
  c.enumLead ++ pascal typeName

end Conventions

end ResponseTypes.Naming
