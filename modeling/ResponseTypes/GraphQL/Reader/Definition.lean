import ResponseTypes.GraphQL.Reader.Selection

/-!
# Reading definitions

`Document.read` reads a document from its text: operations, fragments and the definitions of a schema.
-/

namespace ResponseTypes.GraphQL

set_option autoImplicit false

/-! ## Executable definitions -/

/-- Reads an operation after its kind; its text is added later. -/
def readOperation (kind : OperationKind) (ts : List Tree) : Read Operation :=
  let (name, ts) := match ts with
    | .leaf (.name n) _ :: rest => (some n, rest)
    | ts => (none, ts)
  Option.bind (readBracketed .paren readVariable ts) fun (defs, ts) =>
  Option.bind (readDirectives false ts) fun (directives, ts) =>
  Option.map (fun (selections, ts) => (⟨kind, name, defs, directives, selections, none⟩, ts))
    (readSelections ts)

/-- Reads a fragment after its keyword; its text is added later. -/
def readFragment (ts : List Tree) : Read Fragment :=
  match ts with
  | .leaf (.name n) _ :: .leaf (.name "on") _ :: .leaf (.name condition) _ :: ts =>
    if n = "on" then none
    else
      Option.bind (readDirectives false ts) fun (directives, ts) =>
      Option.map (fun (selections, ts) => (⟨n, condition, directives, selections, none⟩, ts)) (readSelections ts)
  | _ => none

/-! ## Schema definitions -/

/-- Reads a description, if there is one. -/
def readDescription : List Tree → Option String × List Tree
  | .leaf (.string d) _ :: rest => (some d, rest)
  | .leaf (.block d) _ :: rest => (some d, rest)
  | ts => (none, ts)

/-- Reads an argument, or a field of an input type. -/
def readInput (ts : List Tree) : Read InputDef :=
  let (description, ts) := readDescription ts
  match ts with
  | .leaf (.name n) _ :: .leaf (.mark ':') _ :: ts => Option.bind (readType ts) fun (type, ts) =>
    Option.bind (readDefault ts) fun (_, ts) =>
    Option.map (fun (_, ts) => (⟨n, type, description⟩, ts)) (readDirectives true ts)
  | _ => none

/-- Reads a field. -/
def readField (ts : List Tree) : Read FieldDef :=
  let (description, ts) := readDescription ts
  Option.bind (readName ts) fun (n, ts) =>
  Option.bind (readBracketed .paren readInput ts) fun (arguments, ts) =>
  Option.bind (readMark ':' ts) fun (_, ts) =>
  Option.bind (readType ts) fun (type, ts) =>
  Option.map (fun (_, ts) => (⟨n, type, arguments, description⟩, ts)) (readDirectives true ts)

/-- Reads a value of an enum. -/
def readEnumValue (ts : List Tree) : Read EnumValueDef :=
  let (description, ts) := readDescription ts
  Option.bind (readName ts) fun (n, ts) =>
  if n = "true" || n = "false" || n = "null" then none
  else Option.map (fun (_, ts) => (⟨n, description⟩, ts)) (readDirectives true ts)

/-- Reads names with a separator between each two. -/
def readNamesFrom (separator : Char) : List Tree → Read (List String)
  | .leaf (.name n) _ :: .leaf (.mark c) s :: rest =>
    if c = separator then (readNamesFrom separator rest).map (fun (ns, rest) => (n :: ns, rest))
    else some ([n], .leaf (.mark c) s :: rest)
  | .leaf (.name n) _ :: rest => some ([n], rest)
  | _ => none

/-- Reads names with a separator between each two, and perhaps one before the first. -/
def readNames (separator : Char) (ts : List Tree) : Read (List String) :=
  readNamesFrom separator (skipMark separator ts)

/-- Reads the interfaces of a type, if it lists any. -/
def readInterfaces : List Tree → Read (List String)
  | .leaf (.name "implements") _ :: rest => readNames '&' rest
  | ts => some ([], ts)

/-- Reads the members of a union, if it lists any. -/
def readMembers : List Tree → Read (List String)
  | .leaf (.mark '=') _ :: rest => readNames '|' rest
  | ts => some ([], ts)

/-- Reads a root type. -/
def readRoot : List Tree → Read (OperationKind × String)
  | .leaf (.name k) _ :: .leaf (.mark ':') _ :: .leaf (.name t) _ :: rest =>
    (OperationKind.ofName? k).map (fun kind => ((kind, t), rest))
  | _ => none

/-- Reads the body of a type after its name. -/
def readTypeBody (keyword : String) (ts : List Tree) : Read TypeBody :=
  match keyword with
  | "scalar" => (readDirectives true ts).map (fun (_, ts) => (.scalar, ts))
  | "type" =>
    Option.bind (readInterfaces ts) fun (interfaces, ts) =>
    Option.bind (readDirectives true ts) fun (_, ts) =>
    (readBracketed .brace readField ts).map (fun (fields, ts) => (.object interfaces fields, ts))
  | "interface" =>
    Option.bind (readInterfaces ts) fun (interfaces, ts) =>
    Option.bind (readDirectives true ts) fun (_, ts) =>
    (readBracketed .brace readField ts).map (fun (fields, ts) => (.interface interfaces fields, ts))
  | "union" =>
    Option.bind (readDirectives true ts) fun (_, ts) =>
    (readMembers ts).map (fun (members, ts) => (.union members, ts))
  | "enum" =>
    Option.bind (readDirectives true ts) fun (_, ts) =>
    (readBracketed .brace readEnumValue ts).map (fun (values, ts) => (.enum values, ts))
  | "input" =>
    Option.bind (readDirectives true ts) fun (_, ts) =>
    (readBracketed .brace readInput ts).map (fun (fields, ts) => (.input fields, ts))
  | _ => none

/-- The places that a directive can be defined for. -/
def directiveLocations : List String :=
  ["QUERY", "MUTATION", "SUBSCRIPTION", "FIELD", "FRAGMENT_DEFINITION", "FRAGMENT_SPREAD", "INLINE_FRAGMENT",
    "VARIABLE_DEFINITION", "SCHEMA", "SCALAR", "OBJECT", "FIELD_DEFINITION", "ARGUMENT_DEFINITION", "INTERFACE",
    "UNION", "ENUM", "ENUM_VALUE", "INPUT_OBJECT", "INPUT_FIELD_DEFINITION"]

/-- Reads the definition of a directive after its keyword. -/
def readDirectiveDef : List Tree → Read Definition
  | .leaf (.mark '@') _ :: .leaf (.name n) _ :: ts =>
    Option.bind (readBracketed .paren readInput ts) fun (arguments, ts) =>
    let ts := match ts with
      | .leaf (.name "repeatable") _ :: rest => rest
      | ts => ts
    match ts with
    | .leaf (.name "on") _ :: ts =>
      Option.bind (readNames '|' ts) fun (places, ts) =>
      if places.all directiveLocations.contains then some (.directive n arguments, ts) else none
    | _ => none
  | _ => none

/-- Reads the definition of a schema or a type from its keyword on. -/
def readSchemaDef (description : Option String) : List Tree → Read Definition
  | .leaf (.name "schema") _ :: ts =>
    Option.bind (readDirectives true ts) fun (_, ts) =>
    match ts with
    | .group .brace items _ :: rest => (readSome readRoot items).map (.schema ·, rest)
    | _ => none
  | .leaf (.name "directive") _ :: ts => readDirectiveDef ts
  | .leaf (.name keyword) _ :: .leaf (.name n) _ :: ts =>
    (readTypeBody keyword ts).map (fun (body, rest) => (.type ⟨n, body, description⟩, rest))
  | _ => none

/-- Reads an extension after its keyword; it has to extend something. -/
def readExtension : List Tree → Read Definition
  | .leaf (.name "schema") _ :: ts =>
    Option.bind (readDirectives true ts) fun (_, rest) =>
    Option.bind (readBracketed .brace readRoot rest) fun (roots, rest) =>
    if rest.length < ts.length then some (.extendSchema roots, rest) else none
  | .leaf (.name keyword) _ :: .leaf (.name n) _ :: ts =>
    Option.bind (readTypeBody keyword ts) fun (body, rest) =>
    if rest.length < ts.length then some (.extendType ⟨n, body, none⟩, rest) else none
  | _ => none

/-! ## Documents -/

/-- Reads a definition; its text is added later. -/
def readDefinition : List Tree → Read Definition
  | .group .brace items s :: rest =>
    (readOperation .query (.group .brace items s :: rest)).map (fun (op, ts) => (.operation op, ts))
  | .leaf (.name n) s :: rest =>
    if n = "fragment" then (readFragment rest).map (fun (f, ts) => (.fragment f, ts))
    else if n = "extend" then readExtension rest
    else match OperationKind.ofName? n with
      | some kind => (readOperation kind rest).map (fun (op, ts) => (.operation op, ts))
      | none => readSchemaDef none (.leaf (.name n) s :: rest)
  | ts =>
    match readDescription ts with
    | (none, _) => none
    | (description, ts) => readSchemaDef description ts

/-- The definition with its text. -/
def Definition.withSource (source : String) : Definition → Definition
  | .operation op => .operation { op with source := some source }
  | .fragment f => .fragment { f with source := some source }
  | other => other

/-- Reads a definition with its text, which goes from its first tree to its last. -/
def readDefinitionOf (text : List Char) (ts : List Tree) : Read Definition :=
  (readDefinition ts).map (fun (definition, rest) =>
    match ts.head?, (ts.take (ts.length - rest.length)).getLast? with
    | some first, some last =>
      let source := (text.drop first.span.start).take (last.span.stop - first.span.start)
      (definition.withSource (String.ofList source), rest)
    | _, _ => (definition, rest))

/-- Reads a document, which has at least one definition. -/
def Document.read (text : String) : Option Document :=
  Option.bind (tokens text) fun ts =>
  Option.bind (group ts) fun trees =>
  (readSome (readDefinitionOf text.toList) trees).map Document.mk

end ResponseTypes.GraphQL
