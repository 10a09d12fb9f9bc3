/-!
# Blanks and line ends

`isBlank` : the characters that trimming removes; `isLineEnd` : the characters that end a line.  `trim` cuts
blanks off both ends of a text, `lines` splits it into lines, without an empty line after a final line end; `splitLines`
splits it at line feeds alone.
-/

namespace ResponseTypes.Text

set_option autoImplicit false

/-- White space in the sense of the Unicode property, together with the four information separators. -/
def isBlank (c : Char) : Bool :=
  let n := c.toNat
  (9 ≤ n && n ≤ 13) || (28 ≤ n && n ≤ 32) || n == 0x85 || n == 0xA0 || n == 0x1680 ||
    (0x2000 ≤ n && n ≤ 0x200A) || n == 0x2028 || n == 0x2029 || n == 0x202F || n == 0x205F || n == 0x3000

/-- Line feed, vertical tab, form feed, carriage return, the file, group and record separators, next line,
and the Unicode line and paragraph separators. -/
def isLineEnd (c : Char) : Bool :=
  let n := c.toNat
  (10 ≤ n && n ≤ 13) || (28 ≤ n && n ≤ 30) || n == 0x85 || n == 0x2028 || n == 0x2029

/-- The characters without the longest run of `p` at their end. -/
def dropEndWhile (p : Char → Bool) (cs : List Char) : List Char :=
  (cs.reverse.dropWhile p).reverse

/-- The text without the blanks at its two ends. -/
def trim (cs : List Char) : List Char :=
  dropEndWhile isBlank (cs.dropWhile isBlank)

/-- The text without the blanks at its end. -/
def trimEnd (cs : List Char) : List Char :=
  dropEndWhile isBlank cs

/-- The lines of a text.  A carriage return and a line feed in a row end one line, and nothing follows a line
end that stands last. -/
def lines : List Char → List (List Char)
  | [] => []
  | '\r' :: '\n' :: rest => [] :: lines rest
  | c :: rest =>
    if isLineEnd c then [] :: lines rest
    else match lines rest with
      | [] => [[c]]
      | line :: more => (c :: line) :: more

/-- The lines between line feeds. -/
def splitLines : List Char → List (List Char)
  | [] => [[]]
  | '\n' :: rest => [] :: splitLines rest
  | c :: rest =>
    match splitLines rest with
    | [] => [[c]]
    | line :: more => (c :: line) :: more

/-- Line ends of every operating system become line feeds. -/
def unifyLineFeeds : List Char → List Char
  | [] => []
  | '\r' :: '\n' :: rest => '\n' :: unifyLineFeeds rest
  | c :: rest => (if c = '\r' then '\n' else c) :: unifyLineFeeds rest

end ResponseTypes.Text
