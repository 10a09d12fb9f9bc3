import ResponseTypes.Artifact.Operation
import ResponseTypes.Script.Module

/-!
# Templates

`Templates` lay generated code out.  A user may give some of them (`Overrides`); the others are `Templates.standard`.
-/

namespace ResponseTypes.Script

set_option autoImplicit false

open Compile (CollectedOperation)

/-- The text of each kind of code, made from what goes into it. -/
structure Templates where
  /-- a type, with its name, its code and its comment, which may be exported -/
  typeAlias : String → String → Option String → Bool → String
  /-- an enum, with its name, its values and its comment -/
  enum : String → List EnumMember → Option String → String
  /-- the types file, with the headings and the declarations of its sections -/
  types : List (String × String) → String
  /-- the operations file, with constants for fragments, the operations, and the names of their kinds -/
  operations : List (String × String) → List OperationSource → List String → String
  /-- the file of operation types, with the file and the types that it imports, and the operations of each kind -/
  operationTypes : Option String → List String → List (String × List CollectedOperation) → String

/-- The types of an operation. -/
def OperationTypes.ofOperation (op : CollectedOperation) : OperationTypes :=
  ⟨op.name, op.typeName, op.variablesTypeName, op.needsVariables⟩

/-- The templates that are used unless there are others. -/
def Templates.standard : Templates where
  typeAlias := Script.typeAlias
  enum := enumDeclaration
  types := typesFile
  operations := operationsFile
  operationTypes importFrom imports kinds :=
    operationTypesFile importFrom imports (kinds.map (fun k => (k.1, k.2.map .ofOperation)))

/-- Templates that a user gives. -/
structure Overrides where
  typeAlias : Option (String → String → Option String → Bool → String) := none
  enum : Option (String → List EnumMember → Option String → String) := none
  types : Option (List (String × String) → String) := none
  operations : Option (List (String × String) → List OperationSource → List String → String) := none
  operationTypes : Option (Option String → List String → List (String × List CollectedOperation) → String) := none

/-- The user's templates, and the standard ones where there are none. -/
def Overrides.complete (o : Overrides) : Templates where
  typeAlias := o.typeAlias.getD Templates.standard.typeAlias
  enum := o.enum.getD Templates.standard.enum
  types := o.types.getD Templates.standard.types
  operations := o.operations.getD Templates.standard.operations
  operationTypes := o.operationTypes.getD Templates.standard.operationTypes

end ResponseTypes.Script
