import ResponseTypes.Compile.Operation
import ResponseTypes.GraphQL.Token
import ResponseTypes.Naming.Short
import ResponseTypes.Script.Templates

/-!
# Output

The `Output` of a build: its artifacts, sorted by kind and name, and its operations, sorted by kind and name.  From them
come the generated files, laid out by templates and changed by hooks.
-/

namespace ResponseTypes

set_option autoImplicit false

open Compile (CollectedOperation)
open GraphQL (OperationKind)

structure Output where
  artifacts : List (Artifact ArtifactKind)
  operations : List CollectedOperation
  templates : Script.Templates
  hooks : List Hook

namespace Output

/-- The order of artifacts: by kind, then by name. -/
def artifactLe (a b : Artifact ArtifactKind) : Bool :=
  decide (a.kind.rank < b.kind.rank) || (a.kind.rank == b.kind.rank && decide (a.name ≤ b.name))

/-- The order of operations: by kind, then by name. -/
def operationLe (a b : CollectedOperation) : Bool :=
  decide (a.kind.name < b.kind.name) || (a.kind == b.kind && decide (a.name ≤ b.name))

/-- Sorts artifacts and operations. -/
def ofParts (artifacts : List (Artifact ArtifactKind)) (operations : List CollectedOperation)
    (templates : Script.Templates) (hooks : List Hook) : Output :=
  ⟨Text.sortBy artifactLe artifacts, Text.sortBy operationLe operations, templates, hooks⟩

/-- The artifacts of a kind. -/
def ofKind (out : Output) (kind : ArtifactKind) : List (Artifact ArtifactKind) :=
  out.artifacts.filter (fun a => a.kind = kind)

/-- The artifact of a kind and a name. -/
def artifact? (out : Output) (kind : ArtifactKind) (name : String) : Option (Artifact ArtifactKind) :=
  out.artifacts.find? (fun a => a.kind = kind && a.name == name)

/-- The section of a kind, unless it has no artifacts. -/
def section? (out : Output) (kind : ArtifactKind) : Option (String × String) :=
  let artifacts := out.ofKind kind
  if artifacts.isEmpty then none
  else some (kind.label, Text.joinWith (if kind.isCompact then "\n" else "\n\n") (artifacts.map (·.code)))

/-- The code of the artifacts of some kinds, one section per kind. -/
def code (out : Output) (kinds : List ArtifactKind) : String :=
  out.templates.types (kinds.filterMap out.section?)

/-! ## Files -/

def typesFileName : String := "types.ts"

def operationsFileName : String := "operations.js"

def operationTypesFileName : String := "operation-types.ts"

/-- All generated code in one file. -/
def everything (out : Output) : Except Failure String :=
  Hook.applyAll out.hooks typesFileName (out.code ArtifactKind.all)

/-- All generated types, without the enums, which are values too. -/
def types (out : Output) : Except Failure String :=
  Hook.applyAll out.hooks typesFileName (out.code (ArtifactKind.all.filter (· ≠ .enum)))

/-- The constants that fragments get in the operations file: by their own names, or by short ones. -/
def constants (minify : Bool) (given : Naming.Abbreviations) (fragments : List String) :
    List String × Naming.Abbreviations :=
  let names := fragments.map ("fragment_" ++ ·)
  if minify then given.getAll names else (names, given)

/-- The fragments that an operation uses, in order. -/
def fragmentsOf (op : CollectedOperation) : List String :=
  Text.sorted (Text.distinct (Dependency.fragmentsUsed op.origin.keys))

/-- Operations with their texts, and the constants of their fragments. -/
def operationSources (minify : Bool) (given : Naming.Abbreviations) :
    List (CollectedOperation × String) → List Script.OperationSource
  | [] => []
  | (op, source) :: rest =>
    let (fragments, given) := constants minify given (fragmentsOf op)
    ⟨op.kind.name, op.name, source, fragments⟩ :: operationSources minify given rest

/-- The text a thing was generated from, with as little as possible between its tokens. -/
def compactSource (name file : String) : Option String → Except Failure String
  | none => .error (.locationMissing name (some file))
  | some source => .ok (GraphQL.compact source)

/-- The file with the text of every operation and of the fragments they use.  Fails if one came without its text. -/
def operationsFile (out : Output) (minify : Bool) : Except Failure String := do
  let fragments := (out.ofKind .fragment).map (fun a => (a.graphqlName.getD "", a))
  let sources ← fragments.mapM (fun f => compactSource f.1 f.2.origin.file f.2.source)
  let (names, given) := constants minify .empty (fragments.map Prod.fst)
  let ops ← out.operations.mapM (fun op => do
    return (op, ← compactSource op.name op.origin.file op.source))
  Hook.applyAll out.hooks operationsFileName
    (out.templates.operations (names.zip sources) (operationSources minify given ops) (OperationKind.all.map (·.name)))

/-- The name of the type that holds the operations of a kind. -/
def kindTypeName (kind : OperationKind) : String :=
  kind.defaultRoot

/-- The file with the types of the operations by name, which imports them from a file if one is given. -/
def operationTypes (out : Output) (importFrom : Option String) : Except Failure String :=
  let imports := Text.sorted (Text.distinct
    (out.operations.map (·.typeName) ++ out.operations.map (·.variablesTypeName)))
  let kinds := OperationKind.all.map (fun k => (kindTypeName k, out.operations.filter (fun op => op.kind = k)))
  Hook.applyAll out.hooks operationTypesFileName (out.templates.operationTypes importFrom imports kinds)

end Output

end ResponseTypes
