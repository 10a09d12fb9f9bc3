import ResponseTypes.Options.Output
import ResponseTypes.Text.Replace
import ResponseTypes.Text.Blank

/-!
# Comments

A doc comment stands on one line if its text does, and else on one line per line of text.  What would close a comment
early is escaped (`safeText`).
-/

namespace ResponseTypes.Script

set_option autoImplicit false

/-- A text without blanks at its ends, in which nothing closes a comment. -/
def safeText (cs : List Char) : List Char :=
  Text.trim (Text.replace ['*', '/'] ['*', '\\', '/'] cs)

/-- The same on strings. -/
def safeComment (text : String) : String :=
  String.ofList (safeText text.toList)

/-- A line of a comment that has several. -/
def commentLine (line : List Char) : List Char :=
  Text.trimEnd ([' ', '*', ' '] ++ line)

/-- The lines of a comment, with a line feed between each two. -/
def commentBody : List (List Char) → List Char
  | [] => []
  | [line] => commentLine line
  | line :: rest => commentLine line ++ '\n' :: commentBody rest

/-- A doc comment around lines. -/
def commentOf : List (List Char) → List Char
  | [line] => "/** ".toList ++ line ++ " */".toList
  | lines => "/**\n".toList ++ commentBody lines ++ "\n */".toList

/-- A text as a doc comment. -/
def docComment (text : String) : String :=
  String.ofList (commentOf (Text.lines (safeText text.toList)))

/-- The text, if there is one and it says something. -/
def nonempty? (text : Option String) : Option String :=
  text.filter (fun s => s != "")

/-- The comment above a generated type: its description, the file it comes from and the text it was generated from. -/
def typeDoc (o : OutputOptions) (description file source : Option String) : Option String :=
  let sections :=
    ((nonempty? description).map safeComment).toList ++
      ((nonempty? file).map (fun f => "@see \x7b@link " ++ f ++ "\x7d")).toList ++
      ((nonempty? source).map (fun s => "@example\n```graphql\n" ++ safeComment s ++ "\n```")).toList
  if o.typeComment && !sections.isEmpty then some (docComment (Text.joinWith "\n\n" sections)) else none

end ResponseTypes.Script
