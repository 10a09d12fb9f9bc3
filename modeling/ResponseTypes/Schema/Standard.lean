import ResponseTypes.GraphQL.Document

/-!
# Standard types

The types that a schema has without defining them: five scalars, and the types that describe a schema itself.
-/

namespace ResponseTypes.Schema.Standard

set_option autoImplicit false

open GraphQL

/-- The scalars that every schema has. -/
def alwaysPresent : List String :=
  ["String", "Boolean"]

/-- The scalars that a schema has if it refers to them. -/
def onReference : List String :=
  ["Int", "Float", "ID"]

def scalarNames : List String :=
  alwaysPresent ++ onReference

/-- A link to an article of an encyclopedia, as descriptions write it. -/
private def article (title page : String) : String :=
  "[" ++ title ++ "](https:" ++ "//en.wikipedia.org/wiki/" ++ page ++ ")"

/-- What the description of a scalar says that it represents, and what is to be known besides. -/
private def represented : String → String
  | "String" => "textual data, represented as UTF-8 character sequences. The String type is most often used by " ++
    "GraphQL to represent free-form human-readable text."
  | "Boolean" => "`true` or `false`."
  | "Int" => "non-fractional signed whole numeric values. Int can represent values between -(2^31) and 2^31 - 1."
  | "Float" => "signed double-precision fractional values as specified by " ++
    article "IEEE 754" "IEEE_floating_point" ++ "."
  | _ => "a unique identifier, often used to refetch an object or as key for a cache. The ID type appears in a JSON " ++
    "response as a String; however, it is not intended to be human-readable. When expected as an input type, any " ++
    "string (such as `\"4\"`) or integer (such as `4`) input value will be accepted as an ID."

/-- The definition of a standard scalar. -/
def scalar (name : String) : TypeDef :=
  ⟨name, .scalar, some ("The `" ++ name ++ "` scalar type represents " ++ represented name)⟩

/-! ## Writing the definitions below -/

private def required (name : String) : TypeRef :=
  .nonNull (.named name)

private def requiredList (name : String) : TypeRef :=
  .nonNull (.list (required name))

private def plain (name : String) (type : TypeRef) : FieldDef :=
  ⟨name, type, [], none⟩

private def described (name : String) (type : TypeRef) (description : String) : FieldDef :=
  ⟨name, type, [], some description⟩

private def filtered (name : String) (type : TypeRef) : FieldDef :=
  ⟨name, type, [⟨"includeDeprecated", .named "Boolean", none⟩], none⟩

private def value (name description : String) : EnumValueDef :=
  ⟨name, some description⟩

private def place (name thing : String) : EnumValueDef :=
  value name ("Location adjacent to " ++ thing ++ ".")

/-! ## Types that describe a schema -/

private def schemaType : TypeDef :=
  ⟨"__Schema",
    .object [] [
      plain "description" (.named "String"),
      described "types" (requiredList "__Type") "A list of all types supported by this server.",
      described "queryType" (required "__Type") "The type that query operations will be rooted at.",
      described "mutationType" (.named "__Type")
        "If this server supports mutation, the type that mutation operations will be rooted at.",
      described "subscriptionType" (.named "__Type")
        "If this server support subscription, the type that subscription operations will be rooted at.",
      described "directives" (requiredList "__Directive") "A list of all directives supported by this server."],
    some ("A GraphQL Schema defines the capabilities of a GraphQL server. It exposes all available types and " ++
      "directives on the server, as well as the entry points for query, mutation, and subscription operations.")⟩

private def typeType : TypeDef :=
  ⟨"__Type",
    .object [] [
      plain "kind" (required "__TypeKind"),
      plain "name" (.named "String"),
      plain "description" (.named "String"),
      plain "specifiedByURL" (.named "String"),
      filtered "fields" (.list (required "__Field")),
      plain "interfaces" (.list (required "__Type")),
      plain "possibleTypes" (.list (required "__Type")),
      filtered "enumValues" (.list (required "__EnumValue")),
      filtered "inputFields" (.list (required "__InputValue")),
      plain "ofType" (.named "__Type"),
      plain "isOneOf" (.named "Boolean")],
    some ("The fundamental unit of any GraphQL Schema is the type. There are many kinds of types in GraphQL as " ++
      "represented by the `__TypeKind` enum.\n\nDepending on the kind of a type, certain fields describe " ++
      "information about that type. Scalar types provide no information beyond a name, description and optional " ++
      "`specifiedByURL`, while Enum types provide their values. Object and Interface types provide the fields " ++
      "they describe. Abstract types, Union and Interface, provide the Object types possible at runtime. List and " ++
      "NonNull types compose other types.")⟩

private def typeKindType : TypeDef :=
  ⟨"__TypeKind",
    .enum [
      value "SCALAR" "Indicates this type is a scalar.",
      value "OBJECT" "Indicates this type is an object. `fields` and `interfaces` are valid fields.",
      value "INTERFACE"
        "Indicates this type is an interface. `fields`, `interfaces`, and `possibleTypes` are valid fields.",
      value "UNION" "Indicates this type is a union. `possibleTypes` is a valid field.",
      value "ENUM" "Indicates this type is an enum. `enumValues` is a valid field.",
      value "INPUT_OBJECT" "Indicates this type is an input object. `inputFields` is a valid field.",
      value "LIST" "Indicates this type is a list. `ofType` is a valid field.",
      value "NON_NULL" "Indicates this type is a non-null. `ofType` is a valid field."],
    some "An enum describing what kind of type a given `__Type` is."⟩

private def fieldType : TypeDef :=
  ⟨"__Field",
    .object [] [
      plain "name" (required "String"),
      plain "description" (.named "String"),
      filtered "args" (requiredList "__InputValue"),
      plain "type" (required "__Type"),
      plain "isDeprecated" (required "Boolean"),
      plain "deprecationReason" (.named "String")],
    some ("Object and Interface types are described by a list of Fields, each of which has a name, potentially a " ++
      "list of arguments, and a return type.")⟩

private def inputValueType : TypeDef :=
  ⟨"__InputValue",
    .object [] [
      plain "name" (required "String"),
      plain "description" (.named "String"),
      plain "type" (required "__Type"),
      described "defaultValue" (.named "String")
        "A GraphQL-formatted string representing the default value for this input value.",
      plain "isDeprecated" (required "Boolean"),
      plain "deprecationReason" (.named "String")],
    some ("Arguments provided to Fields or Directives and the input fields of an InputObject are represented as " ++
      "Input Values which describe their type and optionally a default value.")⟩

private def enumValueType : TypeDef :=
  ⟨"__EnumValue",
    .object [] [
      plain "name" (required "String"),
      plain "description" (.named "String"),
      plain "isDeprecated" (required "Boolean"),
      plain "deprecationReason" (.named "String")],
    some ("One possible value for a given Enum. Enum values are unique values, not a placeholder for a string or " ++
      "numeric value. However an Enum value is returned in a JSON response as a string.")⟩

private def directiveType : TypeDef :=
  ⟨"__Directive",
    .object [] [
      plain "name" (required "String"),
      plain "description" (.named "String"),
      plain "isRepeatable" (required "Boolean"),
      plain "locations" (requiredList "__DirectiveLocation"),
      filtered "args" (requiredList "__InputValue")],
    some ("A Directive provides a way to describe alternate runtime execution and type validation behavior in a " ++
      "GraphQL document.\n\nIn some cases, you need to provide options to alter GraphQL's execution behavior in " ++
      "ways field arguments will not suffice, such as conditionally including or skipping a field. Directives " ++
      "provide this by describing additional information to the executor.")⟩

private def directiveLocationType : TypeDef :=
  ⟨"__DirectiveLocation",
    .enum [
      place "QUERY" "a query operation",
      place "MUTATION" "a mutation operation",
      place "SUBSCRIPTION" "a subscription operation",
      place "FIELD" "a field",
      place "FRAGMENT_DEFINITION" "a fragment definition",
      place "FRAGMENT_SPREAD" "a fragment spread",
      place "INLINE_FRAGMENT" "an inline fragment",
      place "VARIABLE_DEFINITION" "a variable definition",
      place "SCHEMA" "a schema definition",
      place "SCALAR" "a scalar definition",
      place "OBJECT" "an object type definition",
      place "FIELD_DEFINITION" "a field definition",
      place "ARGUMENT_DEFINITION" "an argument definition",
      place "INTERFACE" "an interface definition",
      place "UNION" "a union definition",
      place "ENUM" "an enum definition",
      place "ENUM_VALUE" "an enum value definition",
      place "INPUT_OBJECT" "an input object type definition",
      place "INPUT_FIELD_DEFINITION" "an input object field definition"],
    some ("A Directive can be adjacent to many parts of the GraphQL language, a __DirectiveLocation describes one " ++
      "such possible adjacencies.")⟩

/-- The types that describe a schema. -/
def describing : List TypeDef :=
  [schemaType, typeType, typeKindType, fieldType, inputValueType, enumValueType, directiveType,
    directiveLocationType]

/-- The standard type of a name. -/
def type? (name : String) : Option TypeDef :=
  if scalarNames.contains name then some (scalar name) else describing.find? (fun t => t.name == name)

end ResponseTypes.Schema.Standard
