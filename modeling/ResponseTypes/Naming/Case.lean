import ResponseTypes.Text.Case
import ResponseTypes.Text.Word

/-!
# Words of a name

`words` splits a name at changes of case, between letters and digits, and at characters that belong to no word.
`snake` joins the words by underscores, in small letters; `pascal` writes each with a capital.
-/

namespace ResponseTypes.Naming

set_option autoImplicit false

/-- A capital letter of ASCII. -/
def isCapital (c : Char) : Bool :=
  c.isUpper

/-- A small letter of ASCII. -/
def isSmall (c : Char) : Bool :=
  c.isLower

/-- Puts an underscore before each capital that starts a run of small letters, unless it stands at the start of a line
or right after such a run. -/
def splitCapitalized : List Char → List Char
  | [] => []
  | [c] => [c]
  | c :: d :: rest =>
    let small := rest.takeWhile isSmall
    if c != '\n' && isCapital d && !small.isEmpty then
      c :: '_' :: d :: small ++ splitCapitalized (rest.drop small.length)
    else c :: splitCapitalized (d :: rest)
termination_by cs => cs.length
decreasing_by all_goals simp_all; try omega

/-- Puts an underscore between characters in a row that satisfy `p` and `q`. -/
def splitBetween (p q : Char → Bool) : List Char → List Char
  | [] => []
  | [c] => [c]
  | c :: d :: rest =>
    if p c && q d then c :: '_' :: splitBetween p q (d :: rest) else c :: splitBetween p q (d :: rest)

/-- A letter of ASCII. -/
def isLetter (c : Char) : Bool :=
  isCapital c || isSmall c

/-- A digit of ASCII. -/
def isDigit (c : Char) : Bool :=
  c.isDigit

/-- The name with underscores at changes of case, then before digits and after them. -/
def separate (name : List Char) : List Char :=
  splitBetween isDigit isLetter
    (splitBetween isLetter isDigit
      (splitBetween (fun c => isSmall c || isDigit c) isCapital (splitCapitalized name)))

/-- The character stands between words. -/
def isGap (c : Char) : Bool :=
  c == '_' || !Text.isWord c

/-- The parts between gaps that are not empty, given the part that is being read. -/
def partsFrom (current : List Char) : List Char → List (List Char)
  | [] => if current.isEmpty then [] else [current.reverse]
  | c :: rest =>
    if isGap c then
      if current.isEmpty then partsFrom [] rest else current.reverse :: partsFrom [] rest
    else partsFrom (c :: current) rest

/-- The words of a name, in small letters. -/
def words (name : List Char) : List (List Char) :=
  (partsFrom [] (separate name)).map Text.lower

/-- The words of a name joined by underscores. -/
def snake (name : String) : String :=
  String.ofList (['_'].intercalate (words name.toList))

/-- The words of a name, each with a capital. -/
def pascal (name : String) : String :=
  String.ofList ((words name.toList).flatMap Text.capitalize)

end ResponseTypes.Naming
