import ResponseTypes.CommandLine
import ResponseTypes.Files.Tree

/-!
# The program

The command line on real files.
-/

namespace ResponseTypes

set_option autoImplicit false

open CommandLine Files

/-- All files below a directory, with the paths that lead to them from it. -/
partial def filesBelow (directory : String) : IO (List (String × String)) := do
  let mut found := []
  for entry in ← (System.mkFilePath [directory]).readDir do
    let path := join directory entry.fileName
    if ← (System.mkFilePath [path]).isDir then
      found := found ++ (← filesBelow path).map (fun f => (join entry.fileName f.1, f.2))
    else if hasEnding (schemaEndings ++ documentEndings) path then
      found := found ++ [(entry.fileName, ← IO.FS.readFile path)]
  return found

/-- What a path leads to. -/
def listingOf (path : String) : IO Listing := do
  let place := System.mkFilePath [path]
  if ← place.isDir then return .directory (← filesBelow path)
  else if ← place.pathExists then return .file (← IO.FS.readFile path)
  else return .missing

/-- Has an effect. -/
def effect : Effect → IO Unit
  | .say line => IO.println line
  | .prepare path => do
    if let some directory := (System.mkFilePath [path]).parent then
      unless directory.toString.isEmpty do IO.FS.createDirAll directory
  | .write path content => IO.FS.writeFile path content

/-- Carries out what the command line says. -/
def carryOut (o : Outcome) : IO UInt32 := do
  for e in o.effects do effect e
  for line in o.errors do IO.eprintln line
  if let some e := o.uncaught then IO.eprintln e.text
  if o.exit = 2 then IO.eprintln "Usage: generate -s SCHEMA -d DOCUMENTS -o OUTPUT"
  return o.exit.toUInt32

end ResponseTypes

open ResponseTypes in
/-- Generates types from the files that the arguments name. -/
def main (arguments : List String) : IO UInt32 := do
  match CommandLine.Arguments.read arguments with
  | none => carryOut CommandLine.Refusal.usage.outcome
  | some a =>
    let directory := (← IO.currentDir).toString
    let listings ← a.sources.mapM (fun p => do return (p, ← listingOf p))
    let look := fun p => (listings.lookup p).getD .missing
    let absolute := fun (p : String) =>
      (Files.Place.ofPath (if p.startsWith "/" then p else directory ++ "/" ++ p)).absolute directory
    carryOut (a.run look absolute)
