import ResponseTypes.Failure
import ResponseTypes.Files.Path
import ResponseTypes.Schema.Build
import ResponseTypes.Text.Blank

/-!
# Files that are read

A `Listing` is what a path leads to: a file, or a directory with all files below it.  Schemas and documents are read from
the files of a listing whose names have the right endings, in the order of their paths.
-/

namespace ResponseTypes.Files

set_option autoImplicit false

open GraphQL (Document)

/-- What a path leads to.  The files of a directory are given with the paths that lead to them from it. -/
inductive Listing where
  | missing
  /-- there can be no such path: it holds a zero byte -/
  | impossible
  | file (content : String)
  | directory (files : List (String × String))
deriving DecidableEq, Repr

/-- The endings of files with parts of a schema. -/
def schemaEndings : List String :=
  [".graphql", ".graphqls"]

/-- The endings of files with documents. -/
def documentEndings : List String :=
  [".graphql", ".gql"]

def hasEnding (endings : List String) (path : String) : Bool :=
  endings.any (fun e => e.toList.isSuffixOf path.toList)

/-- The content of a file as text, with line feeds as line ends. -/
def textOf (content : String) : String :=
  String.ofList (Text.unifyLineFeeds content.toList)

/-- Reads the content of the file that a path leads to. -/
def read (path content : String) : Except Failure String :=
  if isPathTooLong path then .error .pathTooLong else .ok (textOf content)

namespace Listing

/-- The files of a listing, in the order of their paths: a file as it is, of a directory those with given endings.
Directories with too long a path are not looked into. -/
def files (l : Listing) (path : String) (endings : List String) : List (String × String) :=
  match l with
  | missing | impossible => []
  | file content => if isPathTooLong path then [] else [(path, content)]
  | directory files =>
    let found := (files.filter (fun f => hasEnding endings f.1)).map (fun f => (join path f.1, f.2))
    Text.sortBy (fun a b => decide (a.1 ≤ b.1)) (found.filter (fun f => !isPathTooLong (upToSlash f.1)))

/-- The schema that the files of a listing define together. -/
def schema (l : Listing) (path : String) : Except Failure Schema :=
  if l = impossible then .error .pathImpossible
  else do
    let texts ← (l.files path schemaEndings).mapM (fun f => read f.1 f.2)
    Schema.read (Text.joinWith "\n" texts)

/-- The documents of a listing by file. -/
def documents (l : Listing) (path : String) : Except Failure (List (String × Document)) :=
  if l = impossible then .error .pathImpossible
  else (l.files path documentEndings).mapM (fun f => do
    match Document.read (← read f.1 f.2) with
    | some d => .ok (f.1, d)
    | none => .error .documentSyntax)

end Listing

end ResponseTypes.Files
