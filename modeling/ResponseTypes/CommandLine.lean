import ResponseTypes.Files.Tree
import ResponseTypes.Workspace

/-!
# The command line

`Arguments.read` reads the arguments of the command, `Request.ofArguments` checks them, and `Request.run` answers a
request: it reads a schema and documents, generates types and says what is to be printed and written, as a list of
effects.  `Outcome.carryOut` has the effects on a tree of files.
-/

namespace ResponseTypes.CommandLine

set_option autoImplicit false

open Files (Listing Tree)

/-- What the command is asked to do. -/
structure Request where
  schema : String
  documents : List String
  output : String
  operationsFile : Option String
  minify : Bool
  noCache : Bool
  verbose : Bool
deriving DecidableEq, Repr

/-! ## Arguments -/

/-- The options of the command. -/
inductive Flag where
  | schema
  | documents
  | output
  | operationsFile
  | minify
  | noCache
  | verbose
deriving DecidableEq, Repr

namespace Flag

def ofLong? : String → Option Flag
  | "--schema" => some schema
  | "--documents" => some documents
  | "--output" => some output
  | "--operations-file" => some operationsFile
  | "--minify" => some minify
  | "--no-cache" => some noCache
  | "--verbose" => some verbose
  | _ => none

def ofShort? : Char → Option Flag
  | 's' => some schema
  | 'd' => some documents
  | 'o' => some output
  | 'v' => some verbose
  | _ => none

def takesValue : Flag → Bool
  | schema | documents | output | operationsFile => true
  | minify | noCache | verbose => false

end Flag

/-- Options with their values; those without one have the empty text. -/
abbrev Given := List (Flag × String)

/-- Reads a cluster of short options, giving what it says and an option that still needs its value. -/
def readCluster : List Char → Option (Given × Option Flag)
  | [] => some ([], none)
  | c :: rest =>
    match Flag.ofShort? c with
    | none => none
    | some flag =>
      if flag.takesValue then
        if rest.isEmpty then some ([], some flag) else some ([(flag, String.ofList rest)], none)
      else (readCluster rest).map (fun (given, open?) => ((flag, "") :: given, open?))

/-- Reads one argument, giving what it says and an option that still needs its value. -/
def readArgument (argument : String) : Option (Given × Option Flag) :=
  match argument.toList with
  | '-' :: '-' :: rest =>
    let name := rest.takeWhile (· != '=')
    match Flag.ofLong? (String.ofList ('-' :: '-' :: name)) with
    | none => none
    | some flag =>
      if name.length < rest.length then
        if flag.takesValue then some ([(flag, String.ofList (rest.drop (name.length + 1)))], none) else none
      else if flag.takesValue then some ([], some flag)
      else some ([(flag, "")], none)
  | '-' :: c :: rest => readCluster (c :: rest)
  | _ => none

/-- What the arguments of the command say. -/
structure Arguments where
  /-- the options in order -/
  given : Given
  /-- something that is no option is among them -/
  hasOthers : Bool := false
deriving DecidableEq, Repr

/-- Reads all options.  After two dashes there are none. -/
def readArguments : List String → Option Arguments
  | [] => some { given := [] }
  | argument :: rest =>
    if argument = "--" then some { given := [], hasOthers := !rest.isEmpty }
    else if argument = "-" || argument.toList.head? != some '-' then
      (readArguments rest).map (fun more => { more with hasOthers := true })
    else match readArgument argument with
      | none => none
      | some (given, none) => (readArguments rest).map (fun more => { more with given := given ++ more.given })
      | some (given, some flag) =>
        match rest with
        | [] => none
        | value :: rest =>
          (readArguments rest).map (fun more => { more with given := given ++ (flag, value) :: more.given })

/-- Reads which command is asked for, and its arguments. -/
def Arguments.ofCommand : List String → Option Arguments
  | "generate" :: arguments => readArguments arguments
  | _ => none

/-- Reads all arguments.  Two dashes may stand in front. -/
def Arguments.read : List String → Option Arguments
  | "--" :: arguments => ofCommand arguments
  | arguments => ofCommand arguments

namespace Arguments

/-- The values of an option, in order. -/
def valuesOf (a : Arguments) (flag : Flag) : List String :=
  (a.given.filter (fun g => g.1 = flag)).map Prod.snd

/-- The values of an option that count: of documents all, otherwise the last. -/
def lastOf (a : Arguments) (flag : Flag) : List String :=
  let values := a.valuesOf flag
  if flag = .documents then values else values.getLast?.toList

/-- The paths that are read. -/
def sources (a : Arguments) : List String :=
  a.lastOf .schema ++ a.lastOf .documents

end Arguments

/-- Why arguments are refused. -/
inductive Refusal where
  /-- they say nothing sensible -/
  | usage
  /-- a path holds a zero byte -/
  | impossiblePath
deriving DecidableEq, Repr

/-- What is wrong with the value of an option, given what paths lead to. -/
def Flag.refuses? (look : String → Listing) (flag : Flag) (value : String) : Option Refusal :=
  if flag.takesValue && look value == .impossible then some .impossiblePath
  else if (flag = .schema || flag = .documents) && look value == .missing then some .usage
  else none

/-- What is wrong with the values of options, taking the options in the order in which they first stand. -/
def Arguments.refusal? (a : Arguments) (look : String → Listing) : Option Refusal :=
  (a.given.map Prod.fst).findSome? (fun flag => (a.lastOf flag).findSome? (flag.refuses? look))

/-- The request of some arguments. -/
def Request.ofArguments (a : Arguments) (look : String → Listing) : Except Refusal Request :=
  match a.refusal? look with
  | some r => .error r
  | none =>
    match a.lastOf .schema, a.lastOf .documents, a.lastOf .output, a.hasOthers with
    | [schema], document :: more, [output], false =>
      .ok {
        schema
        documents := document :: more
        output
        operationsFile := (a.lastOf .operationsFile).head?
        minify := !(a.valuesOf .minify).isEmpty
        noCache := !(a.valuesOf .noCache).isEmpty
        verbose := !(a.valuesOf .verbose).isEmpty }
    | _, _, _, _ => .error .usage

/-! ## Answers -/

/-- Something that the command does. -/
inductive Effect where
  /-- prints a line -/
  | say (line : String)
  /-- makes the directories that a file goes into -/
  | prepare (path : String)
  /-- writes a file into its directory -/
  | write (path content : String)
deriving DecidableEq, Repr

/-- What the command does, and how it ends. -/
structure Outcome where
  exit : Nat
  effects : List Effect := []
  /-- messages about failures -/
  errors : List String := []
  /-- a failure that no message tells of -/
  uncaught : Option Failure := none
deriving DecidableEq, Repr

/-- The outcome of arguments that are refused. -/
def Refusal.outcome : Refusal → Outcome
  | usage => { exit := 2 }
  | impossiblePath => { exit := 1, uncaught := some .pathImpossible }

namespace Outcome

/-- The outcome with one more effect. -/
def add (o : Outcome) (e : Effect) : Outcome :=
  { o with effects := o.effects ++ [e] }

/-- The outcome with a line printed. -/
def say (o : Outcome) (line : String) : Outcome :=
  o.add (.say line)

/-- Ends with a failure.  Those of generation get a message. -/
def fail (o : Outcome) (e : Failure) : Outcome :=
  if e.isGenerator then { o with exit := 1, errors := o.errors ++ ["Error: " ++ e.text] }
  else { o with exit := 1, uncaught := some e }

end Outcome

namespace Request

/-- The options of the build: no document changes, so nothing has to be tracked. -/
def options (r : Request) : Options :=
  { useCache := !r.noCache, debugMode := r.verbose, trackDependencies := false }

/-- Adds a line if the request asks for details. -/
def detail (r : Request) (o : Outcome) (line : String) : Outcome :=
  if r.verbose then o.say line else o

/-- Writes the files of a build. -/
def finish (r : Request) (absolute : String → String) (out : Output) (o : Outcome) : Outcome :=
  let o := r.detail o ("  Artifacts: " ++ toString out.artifacts.length)
  let o := r.detail o ("  Operations: " ++ toString out.operations.length)
  let o := (o.add (.prepare r.output)).say ("Writing to " ++ absolute r.output ++ "...")
  let done := fun (o : Outcome) => o.say ("Done! Generated " ++ toString out.artifacts.length ++ " types.")
  match out.everything with
  | .error e => o.fail e
  | .ok types =>
    let o := o.add (.write r.output types)
    match r.operationsFile with
    | none | some "" => done o
    | some path =>
      match out.operationsFile r.minify with
      | .error e => o.fail e
      | .ok operations =>
        done (((o.add (.prepare path)).add (.write path operations)).say ("Operations: " ++ absolute path))

/-- Answers a request, given what paths lead to and how they are written in full. -/
def run (r : Request) (look : String → Listing) (absolute : String → String) : Outcome :=
  let o := Outcome.say { exit := 0 } "Parsing schema..."
  match (look r.schema).schema (absolute r.schema) with
  | .error e => o.fail e
  | .ok schema =>
    match r.documents.mapM (fun p => (look p).documents p) with
    | .error e => o.fail e
    | .ok documents =>
      let documents := documents.flatten
      let o := r.detail o ("  Documents: " ++ toString documents.length)
      let o := o.say "Generating types..."
      match (Workspace.new schema r.options).add documents with
      | (.error e, _) => o.fail e
      | (.ok (), w) =>
        match w.build.1 with
        | .error e => o.fail e
        | .ok out => r.finish absolute out o

end Request

/-! ## Effects on a tree of files -/

/-- What there is to see after a command. -/
structure Report where
  exit : Nat
  printed : List String
  errors : List String
  uncaught : Option Failure
  files : Tree
deriving DecidableEq, Repr

/-- Has effects one after the other, up to the first that is blocked, given how paths are written in full; gives the
lines that are printed, the files afterwards and the obstacle. -/
def perform (absolute : String → String) (t : Tree) : List Effect → List String × Tree × Option Obstacle
  | [] => ([], t, none)
  | .say line :: rest =>
    let (printed, after) := perform absolute t rest
    (line :: printed, after)
  | .prepare path :: rest =>
    match t.blocksDirectory absolute path with
    | some obstacle => ([], t, some obstacle)
    | none => perform absolute t rest
  | .write path content :: rest =>
    match t.blocksFile absolute path content with
    | some obstacle => ([], t, some obstacle)
    | none => perform absolute (t.write path content) rest

/-- Has all effects of an outcome, given how paths are written in full.  One that is blocked ends the command. -/
def Outcome.carryOut (o : Outcome) (absolute : String → String) (t : Tree) : Report :=
  match perform absolute t o.effects with
  | (printed, files, none) => ⟨o.exit, printed, o.errors, o.uncaught, files⟩
  | (printed, files, some obstacle) => ⟨1, printed, [], some (.notWritten obstacle), files⟩

/-- Answers some arguments. -/
def Arguments.run (a : Arguments) (look : String → Listing) (absolute : String → String) : Outcome :=
  match Request.ofArguments a look with
  | .error r => r.outcome
  | .ok r => r.run look absolute

/-- Answers the arguments of the command. -/
def run (arguments : List String) (look : String → Listing) (absolute : String → String) : Outcome :=
  match Arguments.read arguments with
  | none => Refusal.usage.outcome
  | some a => a.run look absolute

end ResponseTypes.CommandLine
