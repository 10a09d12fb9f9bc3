/-!
# Options on generated code

`OutputOptions` say how types are written.
-/

namespace ResponseTypes

set_option autoImplicit false

/-- How a field that may be missing is declared. -/
inductive NullableStyle where
  /-- `key?: T` -/
  | optional
  /-- `key: T | null` -/
  | null
  /-- `key: Maybe<T>` -/
  | maybe
deriving DecidableEq, Repr

namespace NullableStyle

def name : NullableStyle → String
  | optional => "optional"
  | null => "null"
  | maybe => "maybe"

def ofName? (s : String) : Option NullableStyle :=
  [optional, null, maybe].find? (fun n => n.name == s)

end NullableStyle

/-- Where the element type stands in an array template. -/
def arrayPlaceholder : String := "$T$"

/-- The template of an array shape: two shapes have names, any other is its own template. -/
def arrayTemplate (shape : String) : String :=
  if shape = "Array" then "Array<$T$>" else if shape = "[]" then "$T$[]" else shape

structure OutputOptions where
  nullableField : NullableStyle := .optional
  arrayShape : String := "Array"
  /-- the type of an object without fields -/
  emptyObject : String := "object"
  /-- every selection on a composite type selects its type tag -/
  alwaysTag : Bool := false
  /-- types that no fragment targets share one type tag -/
  mergeTags : Bool := true
  /-- generated types carry a comment -/
  typeComment : Bool := true
  /-- fields carry their descriptions -/
  fieldDescription : Bool := true
  sortProperties : Bool := false
deriving DecidableEq, Repr

end ResponseTypes
