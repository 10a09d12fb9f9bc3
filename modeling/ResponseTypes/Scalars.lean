import ResponseTypes.Assoc

/-!
# Scalar types

`ScalarTypes` gives the type expression of each scalar.  A scalar that is not registered has the type `any`.
-/

namespace ResponseTypes

set_option autoImplicit false

/-- Type expressions by scalar. -/
abbrev ScalarTypes := Assoc String String

namespace ScalarTypes

/-- The types of the standard scalars. -/
def standard : ScalarTypes :=
  [("ID", "string | number"), ("String", "string"), ("Boolean", "boolean"), ("Int", "number"), ("Float", "number")]

/-- The type of scalars that are not registered. -/
def fallback : String := "any"

/-- The type expression of a scalar. -/
def typeFor (t : ScalarTypes) (scalar : String) : String :=
  (Assoc.get? t scalar).getD fallback

end ScalarTypes

end ResponseTypes
