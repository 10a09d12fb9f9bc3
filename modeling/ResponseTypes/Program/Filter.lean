import ResponseTypes.Files.Path
import ResponseTypes.Hook
import ResponseTypes.Program.Cat
import ResponseTypes.Program.Echo
import ResponseTypes.Program.Exchange
import ResponseTypes.Text.Blank

/-!
# Filters

A small system to try hooks on, with four programs that a text can be piped through.  `run` gives what a program writes,
read as a text with line feeds as line ends.
-/

namespace ResponseTypes.Program

set_option autoImplicit false

/-- Names of programs. -/
def programs : List String :=
  ["cat", "echo", "false", "tr"]

/-- The program in a place. -/
def programAt? : Files.Place → Option String
  | .outside ["bin", name] | .outside ["usr", "bin", name] => if programs.contains name then some name else none
  | _ => none

/-- The program that a name without slashes stands for. -/
def programNamed (name : String) : Except Failure String :=
  if programs.contains name then .ok name
  else if ["", ".", ".."].contains name then .error (.hookNotStarted .notProgram)
  else if Files.isNameTooLong name then .error (.hookNotStarted .tooLong)
  else .error .hookMissing

/-- The program that a path leads to. -/
def programOn (path : String) : Except Failure String :=
  let place := Files.Place.ofPath path
  let isThere := fun (p : Files.Place) => (programAt? p).isSome || p.isDevice
  let absent := fun (p : Files.Place) =>
    if (p.names.getLast?.elim false Files.isNameTooLong) then Except.error (Failure.hookNotStarted .tooLong)
    else .error .hookMissing
  if Files.isPathTooLong path then .error (.hookNotStarted .tooLong)
  else match (Files.Place.wayOf path).find? (!·.isUsual) with
    | some p => if isThere p then .error (.hookNotStarted .belowFile) else absent p
    | none =>
      match programAt? place with
      | some program => .ok program
      | none => if place.isUsual || place.isDevice then .error (.hookNotStarted .notProgram) else absent place

/-- What a program writes, as bytes. -/
def runBytes (arguments : List String) (input : List Byte) : Except Failure (List Byte) := do
  let written := fun (output : Option (List Byte)) => output.elim (Except.error Failure.hookFailed) .ok
  match arguments with
  | [] => throw (.hookNotStarted .unnamed)
  | name :: rest =>
    if arguments.any (fun a => a.toList.contains (byte 0)) then throw (.hookNotStarted .zeroByte)
    let program ← if name.toList.contains '/' then programOn name else programNamed name
    if arguments.any (fun a => 131072 ≤ a.utf8ByteSize) then throw (.hookNotStarted .tooLong)
    match program with
    | "cat" => written (Cat.run rest input)
    | "echo" => .ok (Echo.run rest)
    | "tr" =>
      match Exchange.run rest input with
      | some none => .error .hookTooSlow
      | output => written output.join
    | _ => .error .hookFailed

/-- What the programs write. -/
def run : Programs := fun arguments input => do
  match toText? (← runBytes arguments (ofText input)) with
  | some output => return String.ofList (Text.unifyLineFeeds output.toList)
  | none => throw .hookUnreadable

end ResponseTypes.Program
