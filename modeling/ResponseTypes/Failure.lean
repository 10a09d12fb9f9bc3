/-!
# Failures

`Failure` : what can go wrong while types are generated, by cause.  `Failure.message` words it, `Failure.file?` is the
file that was being processed, and `Failure.text` the message with that file.
-/

namespace ResponseTypes

set_option autoImplicit false

/-- Breaches of the generator's own rules. -/
inductive Breach where
  /-- a fragment spreads itself, directly or through others -/
  | circularFragment (name : String)
  /-- a fragment was generated, but its fields are not known -/
  | fieldsMissing (fragment : String)
  /-- fields are selected on a type without fields -/
  | notSelectable (typeName : String)
  /-- an input has a type that only outputs have -/
  | notAnInput (typeText : String)
  | addWithoutScope (kind name : String)
  | mergeWithoutScope
  | endWithoutScope
  /-- a document that is not registered was updated -/
  | updateUnknown
  /-- any other breach, in its own words -/
  | other (message : String)
deriving DecidableEq, Repr

/-- What keeps a file from being written. -/
inductive Obstacle where
  /-- a directory stands in its place -/
  | directory
  /-- a file stands in the place of the directory that it goes into -/
  | file
  /-- a file stands further up -/
  | fileAbove
  /-- a name or the whole path is too long -/
  | tooLong
  /-- too many directories would have to be made for it -/
  | tooDeep
  /-- there is no room for it -/
  | noRoom
deriving DecidableEq, Repr

/-- What keeps a program from being started. -/
inductive StartFault where
  /-- no program is named -/
  | unnamed
  /-- its name leads to something that is no program -/
  | notProgram
  /-- its name leads on from something that is no directory -/
  | belowFile
  /-- its name or an argument is too long -/
  | tooLong
  /-- an argument holds a zero byte -/
  | zeroByte
deriving DecidableEq, Repr

/-- A cause, with the file that was being processed.  An empty file name counts as none in the text. -/
inductive Failure where
  | typeNotFound (name : String) (file : Option String)
  | fragmentNotFound (name : String) (file : Option String)
  | fieldNotFound (field typeName : String) (file : Option String)
  | rootTypeMissing (operation kind : String) (file : Option String)
  | duplicateDocument (file : String)
  | breach (cause : Breach) (file : Option String)
  | scopesLeftOpen (file : Option String)
  | locationMissing (name : String) (file : Option String)
  | invalidOption (path reason : String)
  /-- a failure of no special kind -/
  | general (message : String) (file : Option String)
  /-- a document cannot be read -/
  | documentSyntax
  /-- a schema cannot be read -/
  | schemaSyntax
  /-- a schema can be read, but its types do not fit together -/
  | schemaInvalid
  /-- fragments are composed without the field map of one of them -/
  | fieldMapMissing (fragment : String)
  /-- a shape is used as one of another kind, which has something that it lacks -/
  | partMissing (part : String)
  /-- fragments are put in each other's places without end -/
  | endless
  /-- a hook's program ended with an error -/
  | hookFailed
  /-- a hook's program does not exist -/
  | hookMissing
  /-- a hook's program cannot be started -/
  | hookNotStarted (fault : StartFault)
  /-- a hook's program did not end in time -/
  | hookTooSlow
  /-- what a hook's program writes is no text -/
  | hookUnreadable
  /-- a path holds a zero byte -/
  | pathImpossible
  /-- a file's path has too many bytes for the file to be read -/
  | pathTooLong
  /-- a file cannot be written -/
  | notWritten (obstacle : Obstacle)
deriving DecidableEq, Repr

/-- A breach in words. -/
def Breach.message : Breach → String
  | circularFragment name => "Circular fragment reference: \"" ++ name ++ "\""
  | fieldsMissing fragment => "Fragment \"" ++ fragment ++ "\" has no compiled fields"
  | notSelectable typeName => "Cannot select fields on type \"" ++ typeName ++ "\""
  | notAnInput typeText => "Unsupported input type: " ++ typeText
  | addWithoutScope kind name => "Cannot add dependency " ++ kind ++ ":" ++ name ++ " without an open scope"
  | mergeWithoutScope => "Cannot merge dependencies without an open scope"
  | endWithoutScope => "Cannot end a scope that was never started"
  | updateUnknown => "Cannot update a document that was never added"
  | other message => message

namespace Failure

/-- The file that was being processed. -/
def file? : Failure → Option String
  | typeNotFound _ file | fragmentNotFound _ file | fieldNotFound _ _ file | rootTypeMissing _ _ file => file
  | duplicateDocument file => some file
  | breach _ file | scopesLeftOpen file | locationMissing _ file | general _ file => file
  | _ => none

/-- The cause in words. -/
def message : Failure → String
  | typeNotFound name _ => "Type not found: " ++ name
  | fragmentNotFound name _ => "Fragment not found: " ++ name
  | fieldNotFound field typeName _ => "Field \"" ++ field ++ "\" not found on type \"" ++ typeName ++ "\""
  | rootTypeMissing operation kind _ => "Missing root type \"" ++ kind ++ "\" for operation \"" ++ operation ++ "\""
  | duplicateDocument file => "Input document already exists. Use update() to replace it: " ++ file
  | breach cause _ => cause.message
  | scopesLeftOpen _ => "Dependency tracker has unfinished scopes after build"
  | locationMissing name _ => "Missing source location for \"" ++ name ++ "\""
  | invalidOption path reason => "Invalid option \"" ++ path ++ "\": " ++ reason
  | general message _ => message
  | documentSyntax => "A document cannot be read"
  | schemaSyntax => "The schema cannot be read"
  | schemaInvalid => "The schema is not valid"
  | fieldMapMissing fragment => "No field map for fragment \"" ++ fragment ++ "\""
  | partMissing part => "A shape has no " ++ part
  | endless => "Fragments are nested without end"
  | hookFailed => "A hook failed"
  | hookMissing => "A hook's program was not found"
  | hookNotStarted .unnamed => "A hook names no program"
  | hookNotStarted .notProgram => "A hook names something that is no program"
  | hookNotStarted .belowFile => "A hook names a program below a file"
  | hookNotStarted .tooLong => "A hook's program or an argument of it is too long"
  | hookNotStarted .zeroByte => "An argument of a hook's program holds a zero byte"
  | hookTooSlow => "A hook's program did not end in time"
  | hookUnreadable => "What a hook writes is no text"
  | pathImpossible => "A path holds a zero byte"
  | pathTooLong => "A file's path is too long"
  | notWritten .directory => "A file cannot be written in the place of a directory"
  | notWritten .file => "A directory cannot be made in the place of a file"
  | notWritten .fileAbove => "A directory cannot be made below a file"
  | notWritten .tooLong => "A file's name or path is too long"
  | notWritten .tooDeep => "A file is below too many directories"
  | notWritten .noRoom => "There is no room for a file"

/-- The cause in words, and the file if it has a name. -/
def text (e : Failure) : String :=
  match e.file? with
  | some "" | none => e.message
  | some file => e.message ++ " (in " ++ file ++ ")"

/-- The failure is the generator's own: it concerns the documents, the schema's types or the options, not the
reading or writing of a file or a hook. -/
def isGenerator : Failure → Bool
  | documentSyntax | schemaSyntax | schemaInvalid | fieldMapMissing _ | partMissing _ | endless | hookFailed |
    hookMissing | hookNotStarted _ | hookTooSlow | hookUnreadable | pathImpossible | pathTooLong | notWritten _ => false
  | _ => true

end Failure

end ResponseTypes
