import ResponseTypes.Text.Replace

/-!
# Paths

Paths start from a directory, the working directory, or from the root.  A `Place` is where a path leads to: the names
that lead there, from the working directory or, outside of it, from the root.  Of what lies outside little is known: some
directories (`Place.isUsual`) and some devices (`Place.isDevice`).
-/

namespace ResponseTypes.Files

set_option autoImplicit false

/-- The names of a path. -/
def names (path : String) : List String :=
  (path.splitOn "/").filter (· != "")

/-- The path of some names. -/
def pathOf (names : List String) : String :=
  Text.joinWith "/" names

/-- A path with another one added that goes on from it. -/
def join (path more : String) : String :=
  if path.endsWith "/" then path ++ more else path ++ "/" ++ more

/-- A path up to its last slash. -/
def upToSlash (path : String) : String :=
  String.ofList ((path.toList.reverse.dropWhile (· != '/')).drop 1).reverse

/-- Where a path leads to. -/
inductive Place where
  /-- in the working directory, by the names that lead there -/
  | inside (names : List String)
  /-- elsewhere, by the names from the root -/
  | outside (names : List String)
deriving DecidableEq, Repr

/-- The names that lead from the root to the directory that holds the working directory: the one for temporary
files. -/
def above : List String := ["tmp"]

/-- A name has more bytes than a name can have. -/
def isNameTooLong (name : String) : Bool :=
  255 < name.utf8ByteSize

/-- A path has more bytes than a path can have to lead anywhere, however short the way is that it describes. -/
def isPathTooLong (path : String) : Bool :=
  4095 < path.utf8ByteSize

namespace Place

/-- The place that a name leads to from a place. -/
def step : Place → String → Place
  | p, "." => p
  | inside [], ".." => outside above
  | inside ns, ".." => inside ns.dropLast
  | outside ns, ".." => outside ns.dropLast
  | inside ns, name => inside (ns ++ [name])
  | outside ns, name => outside (ns ++ [name])

/-- The place that a path starts from. -/
def startOf (path : String) : Place :=
  if path.startsWith "/" then outside [] else inside []

/-- The place of a path.  No name on the way has to stand for anything. -/
def ofPath (path : String) : Place :=
  (names path).foldl step (startOf path)

/-- The places that names lead to one after the other, from the place they start from on. -/
def trail (p : Place) : List String → List Place
  | [] => [p]
  | name :: rest => p :: trail (p.step name) rest

/-- The places on a path that one has to go on from.  A slash at the end asks for a directory there too. -/
def wayOf (path : String) : List Place :=
  let places := (startOf path).trail (names path)
  if path.endsWith "/" then places else places.dropLast

/-- The place of a path, if one can go there, given the places that one can go on from. -/
def reach? (isDirectory : Place → Bool) (path : String) : Option Place :=
  if path = "" || isPathTooLong path || !(wayOf path).all isDirectory then none else some (ofPath path)

/-- The directory that holds a place. -/
def parent : Place → Place
  | inside ns => inside ns.dropLast
  | outside ns => outside ns.dropLast

/-- The directories above a place. -/
def ancestors : Place → List Place
  | inside ns => (List.range ns.length).map (fun n => inside (ns.take n))
  | outside ns => (List.range ns.length).map (fun n => outside (ns.take n))

/-- The names that lead to a place. -/
def names : Place → List String
  | inside ns | outside ns => ns

/-- The directories that are known to be there, whatever the working directory holds. -/
def isUsual : Place → Bool
  | inside ns => ns.isEmpty
  | outside ns =>
    ["", "bin", "dev", "dev/fd", "etc", "home", "lib", "opt", "proc", "proc/self", "proc/self/fd", "root", "sbin", "sys",
      "tmp", "usr", "usr/bin", "usr/lib", "usr/local", "usr/local/bin", "usr/sbin", "usr/share", "var",
      "var/tmp"].contains (pathOf ns)

/-- The device that holds nothing and forgets what is written to it. -/
def isNull (p : Place) : Bool :=
  p = outside ["dev", "null"]

/-- The device that has no room for anything. -/
def isFull (p : Place) : Bool :=
  p = outside ["dev", "full"]

/-- What stands in the place is neither a file nor a directory. -/
def isDevice (p : Place) : Bool :=
  p.isNull || p.isFull || ["zero", "random", "urandom"].any (fun name => p = outside ["dev", name])

/-- What a program reads when its input is piped to it. -/
def isInput (p : Place) : Bool :=
  p = outside ["dev", "stdin"] || p = outside ["dev", "fd", "0"] || p = outside ["proc", "self", "fd", "0"]

/-- The whole path of a place, given that of the working directory. -/
def absolute (directory : String) : Place → String
  | inside [] => directory
  | inside ns => directory ++ "/" ++ pathOf ns
  | outside ns => "/" ++ pathOf ns

end Place

end ResponseTypes.Files
