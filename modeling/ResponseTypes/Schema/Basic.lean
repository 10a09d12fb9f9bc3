import ResponseTypes.Assoc
import ResponseTypes.GraphQL.Document

/-!
# Schemas

A `Schema` holds type definitions by name and the root type of each kind of operation.  The possible types of a union
are its members, those of an interface the object types that list it, in the order of their definitions.  What is listed
twice counts twice.
-/

namespace ResponseTypes

set_option autoImplicit false

open GraphQL (EnumValueDef FieldDef InputDef OperationKind TypeBody TypeDef)

structure Schema where
  types : Assoc String TypeDef
  roots : Assoc OperationKind String
  /-- each definition stands under its name -/
  keyed : ∀ e ∈ types, e.2.name = e.1
deriving DecidableEq, Repr

namespace GraphQL.TypeBody

/-- An object type. -/
def isObject : TypeBody → Bool
  | object _ _ => true
  | _ => false

/-- An interface or a union. -/
def isAbstract : TypeBody → Bool
  | interface _ _ | union _ => true
  | _ => false

/-- The fields of an object or an interface. -/
def fields : TypeBody → List FieldDef
  | object _ fields | interface _ fields => fields
  | _ => []

/-- The values of an enum. -/
def values : TypeBody → List EnumValueDef
  | enum values => values
  | _ => []

/-- What a type is called for its body. -/
def kindName : TypeBody → String
  | scalar => "Scalar"
  | object _ _ => "Object"
  | interface _ _ => "Interface"
  | union _ => "Union"
  | enum _ => "Enum"
  | input _ => "InputObject"

end GraphQL.TypeBody

namespace GraphQL.TypeDef

/-- The field of a name, if the type is an object or an interface that has it. -/
def field? (t : TypeDef) (name : String) : Option FieldDef :=
  t.body.fields.find? (fun f => f.name == name)

end GraphQL.TypeDef

namespace Schema

/-- The definition of a type. -/
def type? (s : Schema) (name : String) : Option TypeDef :=
  Assoc.get? s.types name

/-- The definition of a name has that name. -/
theorem name_of_type? {s : Schema} {name : String} {t : TypeDef} (h : s.type? name = some t) : t.name = name :=
  s.keyed (name, t) (Assoc.mem_of_get? h)

/-- The root type of a kind of operation. -/
def root? (s : Schema) (kind : OperationKind) : Option TypeDef :=
  (Assoc.get? s.roots kind).bind s.type?

/-- The name of a type, as often as the type is an object type that lists an interface. -/
def listings (interface : String) (t : TypeDef) : List String :=
  match t.body with
  | .object interfaces _ => (interfaces.filter (· == interface)).map (fun _ => t.name)
  | _ => []

/-- The concrete types that a value of an interface or a union can have. -/
def possible (s : Schema) (name : String) : List String :=
  match s.type? name with
  | some ⟨_, .union members, _⟩ => members
  | some ⟨_, .interface _ _, _⟩ => (Assoc.values s.types).flatMap (listings name)
  | _ => []

/-- The concrete type is a possible type of the abstract one. -/
def implements (s : Schema) (concrete abstract : String) : Bool :=
  (s.possible abstract).contains concrete

/-- The names of the input types. -/
def inputNames (s : Schema) : List String :=
  (Assoc.values s.types).filterMap (fun
    | ⟨name, .input _, _⟩ => some name
    | _ => none)

end Schema

end ResponseTypes
