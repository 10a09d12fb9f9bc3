import ResponseTypes.Dependency.Basic
import ResponseTypes.GraphQL.Document

/-!
# Collected operations

A `CollectedOperation` tells of an operation whose types were generated.
-/

namespace ResponseTypes.Compile

set_option autoImplicit false

/-- An operation with the names of its types. -/
structure CollectedOperation where
  name : String
  kind : GraphQL.OperationKind
  typeName : String
  variablesTypeName : String
  hasVariables : Bool
  /-- some variable must be given -/
  needsVariables : Bool
  origin : Origin
  source : Option String
deriving DecidableEq, Repr

end ResponseTypes.Compile
