import ResponseTypes.Assoc
import ResponseTypes.Files.Listing
import ResponseTypes.Files.Path

/-!
# A tree of files

A `Tree` is a directory given by the contents of the files below it.  `Tree.look` finds what a path leads to,
`Tree.write` puts a file in.
-/

namespace ResponseTypes.Files

set_option autoImplicit false

/-- Contents by path below the directory, with slashes between the names of a path. -/
abbrev Tree := Assoc String String

namespace Tree

/-- The files below a place, with the paths that lead to them from it. -/
def below (t : Tree) (place : List String) : List (String × String) :=
  t.filterMap (fun f =>
    let ns := names f.1
    if place.isPrefixOf ns && place.length < ns.length then some (pathOf (ns.drop place.length), f.2) else none)

/-- The content of the file in a place. -/
def fileAt? (t : Tree) : Place → Option String
  | .inside ns => Assoc.get? t (pathOf ns)
  | .outside _ => none

/-- Something stands in a place that is no directory. -/
def isTaken (t : Tree) (p : Place) : Bool :=
  (t.fileAt? p).isSome || p.isDevice

/-- A directory stands in a place.  Directories of the tree hold files. -/
def isDirectory (t : Tree) (p : Place) : Bool :=
  p.isUsual || match p with
    | .inside ns => !(t.below ns).isEmpty
    | .outside _ => false

/-- What a path leads to.  Directories outside of the tree have no files that are looked for, and devices are like
them in that. -/
def look (t : Tree) (path : String) : Listing :=
  if path.toList.contains '\x00' then .impossible
  else match Place.reach? t.isDirectory path with
    | none => .missing
    | some p =>
      match t.fileAt? p with
      | some content => .file content
      | none =>
        let files := match p with
          | .inside ns => t.below ns
          | .outside _ => []
        if t.isDirectory p || p.isDevice then .directory files else .missing

/-- How many directories can be made one in the other for a file. -/
def mostMade : Nat := 985

/-- What keeps the directory of a file from being made, given how paths are written in full. -/
def blocksDirectory (t : Tree) (absolute : String → String) (path : String) : Option Obstacle :=
  let directory := (Place.ofPath path).parent
  if isPathTooLong (upToSlash (absolute path)) then some .tooLong
  else if t.isTaken directory then some .file
  else if directory.ancestors.any t.isTaken then some .fileAbove
  else if mostMade < ((directory :: directory.ancestors).filter (!t.isDirectory ·)).length then some .tooDeep
  else if directory.names.any isNameTooLong then some .tooLong
  else none

/-- What keeps a content from being written to a file in its directory, given how paths are written in full. -/
def blocksFile (t : Tree) (absolute : String → String) (path content : String) : Option Obstacle :=
  let place := Place.ofPath path
  if isPathTooLong (absolute path) then some .tooLong
  else if t.isDirectory place then some .directory
  else if place.names.any isNameTooLong then some .tooLong
  else if place.isFull && !content.isEmpty then some .noRoom
  else none

/-- The tree with a file put in.  What is written elsewhere does not change it. -/
def write (t : Tree) (path content : String) : Tree :=
  match Place.ofPath path with
  | .inside ns => Assoc.insert t (pathOf ns) content
  | .outside _ => t

/-- The files of a tree that are new or changed since `before`. -/
def since (t before : Tree) : Tree :=
  Assoc.keep t (fun path content => Assoc.get? before path != some content)

end Tree

end ResponseTypes.Files
