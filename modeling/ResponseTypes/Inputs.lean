import ResponseTypes.GraphQL.Reader.Definition
import ResponseTypes.Workspace

/-!
# Input documents

What is given to a workspace may still have to be read.  All of it is read before the first document is registered
(`Workspace.addInputs`, `Workspace.updateInputs`), so one that cannot be read leaves the workspace as it is.
-/

namespace ResponseTypes

set_option autoImplicit false

open GraphQL (Document)

/-- What is given as a document. -/
inductive InputDocument where
  /-- a text that is still to be read, of no file -/
  | text (source : String)
  /-- a document of no file -/
  | document (d : Document)
  /-- a document that was read from a file -/
  | file (path : String) (d : Document)

/-- The document with its file. -/
def InputDocument.read : InputDocument → Except Failure (String × Document)
  | text source =>
    match Document.read source with
    | some d => .ok (noFile, d)
    | none => .error .documentSyntax
  | document d => .ok (noFile, d)
  | file path d => .ok (path, d)

namespace Workspace

/-- Adds documents once all of them are read. -/
def addInputs (w : Workspace) (inputs : List InputDocument) : Except Failure Unit × Workspace :=
  match inputs.mapM InputDocument.read with
  | .ok documents => w.add documents
  | .error e => (.error e, w)

/-- Replaces documents once all of them are read. -/
def updateInputs (w : Workspace) (inputs : List InputDocument) : Except Failure Unit × Workspace :=
  match inputs.mapM InputDocument.read with
  | .ok documents => w.update documents
  | .error e => (.error e, w)

end Workspace

end ResponseTypes
