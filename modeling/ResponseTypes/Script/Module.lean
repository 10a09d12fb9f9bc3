import ResponseTypes.Script.Declaration

/-!
# Generated files

The layout of the three files that are generated: the types in sections, the sources of the operations, and the types
of the operations by name.
-/

namespace ResponseTypes.Script

set_option autoImplicit false

/-- The rule above and below the heading of a section. -/
def rule : String :=
  String.ofList (List.replicate 77 '-')

/-- A section of the types file: its heading and its declarations. -/
def typesSection (label code : String) : String :=
  "// " ++ rule ++ "\n// " ++ label ++ "\n// " ++ rule ++ "\n\n" ++ code ++ "\n"

/-- The types file. -/
def typesFile (sections : List (String × String)) : String :=
  Text.joinWith "\n\n" (sections.map (fun s => typesSection s.1 s.2))

/-- One character of a template literal. -/
def escapeChar (c : Char) (next : Option Char) : List Char :=
  if c = '\\' then ['\\', '\\']
  else if c = '\x60' then ['\\', '\x60']
  else if c = '$' && next == some '\x7b' then ['\\', '$']
  else [c]

/-- A text as it stands between the backquotes of a template literal. -/
def escapeTemplate : List Char → List Char
  | [] => []
  | c :: rest => escapeChar c rest.head? ++ escapeTemplate rest

/-- A constant whose value is a text. -/
def sourceConstant (name source : String) (more : List String) : String :=
  "const " ++ name ++ " = `" ++ String.ofList (escapeTemplate source.toList) ++ "`" ++
    String.join (more.map (" + " ++ ·)) ++ ";\n"

/-- An operation of the operations file: its kind, its name, its text and the constants of its fragments. -/
structure OperationSource where
  kind : String
  name : String
  source : String
  fragments : List String
deriving DecidableEq, Repr

/-- The constant of an operation. -/
def OperationSource.constant (op : OperationSource) : String :=
  op.kind ++ "_" ++ op.name

/-- A kind of operations in the object that the operations file exports. -/
def operationGroup (kind : String) (ops : List OperationSource) : String :=
  "  " ++ kind ++ ": \x7b\n" ++
    String.join (ops.map (fun op => "    " ++ op.name ++ ": " ++ kind ++ "_" ++ op.name ++ ",\n")) ++ "  \x7d,\n"

/-- The operations file: constants for fragments and operations, and an object with the operations by kind. -/
def operationsFile (fragments : List (String × String)) (ops : List OperationSource) (kinds : List String) : String :=
  String.join (fragments.map (fun f => sourceConstant f.1 f.2 [])) ++ (if fragments.isEmpty then "" else "\n") ++
    String.join (ops.map (fun op => sourceConstant op.constant op.source op.fragments)) ++
    (if ops.isEmpty then "" else "\n") ++
    "export const operations = \x7b\n" ++
    String.join (kinds.map (fun k => operationGroup k (ops.filter (·.kind == k)))) ++ "\x7d;"

/-- The types of an operation. -/
structure OperationTypes where
  name : String
  responseType : String
  variablesType : String
  needsVariables : Bool
deriving DecidableEq, Repr

/-- The types of an operation in the file of operation types. -/
def operationTypes (op : OperationTypes) : String :=
  "  " ++ op.name ++ ": \x7b\n    response: " ++ op.responseType ++ ";\n    variables: " ++ op.variablesType ++
    ";\n    needsVariables: " ++ (if op.needsVariables then "true" else "false") ++ ";\n  \x7d;\n"

/-- The import of types from another file. -/
def typeImport (names : List String) (file : String) : String :=
  "import type \x7b\n" ++ String.join (names.map (fun n => "  " ++ n ++ ",\n")) ++ "\x7d from '" ++ file ++ "';\n\n"

/-- The file of operation types, with the operations of each kind under the name of its type. -/
def operationTypesFile (importFrom : Option String) (imports : List String)
    (kinds : List (String × List OperationTypes)) : String :=
  (match nonempty? importFrom with
    | some file => typeImport imports file
    | none => "") ++
    Text.joinWith "\n" (kinds.map (fun k =>
      "export type " ++ k.1 ++ " = \x7b\n" ++ String.join (k.2.map operationTypes) ++ "\x7d;\n"))

end ResponseTypes.Script
