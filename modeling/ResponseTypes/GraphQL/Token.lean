import ResponseTypes.GraphQL.BlockString

/-!
# Tokens

`tokens` splits a text of the query language into its tokens.  Between tokens it skips white space, line ends, commas,
byte order marks and comments; any other text that is no token makes it fail.
-/

namespace ResponseTypes.GraphQL

set_option autoImplicit false

/-- What a token says.  Strings are given by their values. -/
inductive Lexeme where
  /-- a punctuation character -/
  | mark (c : Char)
  /-- three dots -/
  | spread
  | name (text : String)
  | int (text : String)
  | float (text : String)
  | string (value : String)
  | block (value : String)
deriving DecidableEq, Repr

structure Token where
  lexeme : Lexeme
  /-- the characters it is written with -/
  raw : String
  /-- how many characters stand before it -/
  start : Nat
  /-- how many characters stand before what follows it -/
  stop : Nat
deriving DecidableEq, Repr

/-- White space, line ends, commas and byte order marks. -/
def isIgnored (c : Char) : Bool :=
  c == ' ' || c == '\t' || c == '\n' || c == '\r' || c == ',' || c == '\uFEFF'

def isMark (c : Char) : Bool :=
  "!$&():=@[]\x7b|\x7d".toList.contains c

def isNameStart (c : Char) : Bool :=
  c.isAlpha || c == '_'

def isNameChar (c : Char) : Bool :=
  c.isAlphanum || c == '_'

/-! ## Numbers -/

/-- The length of a fraction: a point and digits. -/
def fractionLength? : List Char → Option Nat
  | '.' :: rest =>
    let digits := (rest.takeWhile Char.isDigit).length
    if digits = 0 then none else some (digits + 1)
  | _ => some 0

/-- The length of an exponent: its letter, a sign perhaps, and digits. -/
def exponentLength? : List Char → Option Nat
  | c :: rest =>
    if c == 'e' || c == 'E' then
      let sign := if rest.head?.any (fun d => d == '+' || d == '-') then 1 else 0
      let digits := ((rest.drop sign).takeWhile Char.isDigit).length
      if digits = 0 then none else some (1 + sign + digits)
    else some 0
  | [] => some 0

/-- The length of the digits before a fraction, which do not start with a zero unless it is alone. -/
def wholeLength? : List Char → Option Nat
  | '0' :: rest => if rest.head?.any Char.isDigit then none else some 1
  | cs =>
    let digits := (cs.takeWhile Char.isDigit).length
    if digits = 0 then none else some digits

/-- The length of a number, and whether it has a fraction or an exponent.  Neither a point nor a letter may
follow it. -/
def numberLength? (cs : List Char) : Option (Nat × Bool) := do
  let sign := if cs.head? == some '-' then 1 else 0
  let whole ← wholeLength? (cs.drop sign)
  let fraction ← fractionLength? (cs.drop (sign + whole))
  let exponent ← exponentLength? (cs.drop (sign + whole + fraction))
  let length := sign + whole + fraction + exponent
  if (cs.drop length).head?.any (fun c => c == '.' || isNameStart c) then none
  else some (length, fraction + exponent != 0)

/-! ## Strings -/

def hexDigit? (c : Char) : Option Nat :=
  if c.isDigit then some (c.toNat - 48)
  else if 'a' ≤ c && c ≤ 'f' then some (c.toNat - 87)
  else if 'A' ≤ c && c ≤ 'F' then some (c.toNat - 55)
  else none

/-- The number that hexadecimal digits write. -/
def hexValue? (digits : List Char) : Option Nat :=
  digits.foldlM (fun n c => (hexDigit? c).map (16 * n + ·)) 0

/-- A code point that is no surrogate. -/
def scalar? (n : Nat) : Option Char :=
  if n.isValidChar then some (Char.ofNat n) else none

/-- The number of four hexadecimal digits. -/
def hexFour? : List Char → Option Nat
  | a :: b :: c :: d :: _ => hexValue? [a, b, c, d]
  | _ => none

/-- The character of a braced code point, given what follows the opening brace, and the number of characters up to
the closing one. -/
def braced? (cs : List Char) : Option (Char × Nat) := do
  let digits := cs.takeWhile (· != '\x7d')
  if digits.isEmpty || 8 < digits.length || digits.length == cs.length then none
  else
    let c ← scalar? (← hexValue? digits)
    some (c, digits.length + 1)

/-- The character that an escape stands for, given what follows the backslash, and the length of the escape after
it.  Two escapes may write a character together, as a surrogate pair. -/
def escape? : List Char → Option (Char × Nat)
  | '"' :: _ => some ('"', 1)
  | '\\' :: _ => some ('\\', 1)
  | '/' :: _ => some ('/', 1)
  | 'b' :: _ => some ('\x08', 1)
  | 'f' :: _ => some ('\x0C', 1)
  | 'n' :: _ => some ('\n', 1)
  | 'r' :: _ => some ('\r', 1)
  | 't' :: _ => some ('\t', 1)
  | 'u' :: '\x7b' :: rest => (braced? rest).map (fun (c, n) => (c, n + 2))
  | 'u' :: rest => do
    let high ← hexFour? rest
    match scalar? high with
    | some c => some (c, 5)
    | none =>
      match rest.drop 4 with
      | '\\' :: 'u' :: more => do
        let low ← hexFour? more
        if 0xD800 ≤ high && high < 0xDC00 && 0xDC00 ≤ low && low < 0xE000 then
          (scalar? (0x10000 + (high - 0xD800) * 0x400 + (low - 0xDC00))).map (·, 11)
        else none
      | _ => none
  | _ => none

/-- The value of a string after its opening quote, and its length up to and with the closing one. -/
def stringBody? : List Char → Option (List Char × Nat)
  | [] => none
  | c :: rest =>
    if c == '"' then some ([], 1)
    else if c == '\n' || c == '\r' then none
    else if c == '\\' then
      match escape? rest with
      | none => none
      | some (d, n) => (stringBody? (rest.drop n)).map (fun (ds, k) => (d :: ds, k + n + 1))
    else (stringBody? rest).map (fun (ds, k) => (c :: ds, k + 1))
termination_by cs => cs.length
decreasing_by all_goals simp_all; try omega

/-- The text of a block string after its opening quotes, with line feeds as line ends, and its length up to and with
the closing quotes. -/
def blockBody? : List Char → Option (List Char × Nat)
  | [] => none
  | '"' :: '"' :: '"' :: _ => some ([], 3)
  | '\\' :: '"' :: '"' :: '"' :: rest =>
    (blockBody? rest).map (fun (ds, k) => ('"' :: '"' :: '"' :: ds, k + 4))
  | '\r' :: '\n' :: rest => (blockBody? rest).map (fun (ds, k) => ('\n' :: ds, k + 2))
  | c :: rest => (blockBody? rest).map (fun (ds, k) => ((if c == '\r' then '\n' else c) :: ds, k + 1))

/-! ## Splitting -/

/-- The lexeme at the start of a text, with its length less one. -/
def lexeme? (c : Char) (rest : List Char) : Option (Lexeme × Nat) :=
  if isMark c then some (.mark c, 0)
  else if isNameStart c then
    let more := rest.takeWhile isNameChar
    some (.name (String.ofList (c :: more)), more.length)
  else if c == '.' then
    if ['.', '.'].isPrefixOf rest then some (.spread, 2) else none
  else if c == '"' then
    if ['"', '"'].isPrefixOf rest then
      (blockBody? (rest.drop 2)).map (fun (text, n) => (.block (String.ofList (BlockString.dedent text)), n + 2))
    else (stringBody? rest).map (fun (value, n) => (.string (String.ofList value), n))
  else if c.isDigit || c == '-' then
    (numberLength? (c :: rest)).map (fun (n, fractional) =>
      let text := String.ofList ((c :: rest).take n)
      (if fractional then .float text else .int text, n - 1))
  else none

/-- The tokens of a text that follows `offset` characters. -/
def tokensFrom (offset : Nat) : List Char → Option (List Token)
  | [] => some []
  | c :: rest =>
    if isIgnored c then tokensFrom (offset + 1) rest
    else if c == '#' then
      let comment := rest.takeWhile (fun d => d != '\n' && d != '\r')
      tokensFrom (offset + 1 + comment.length) (rest.drop comment.length)
    else
      match lexeme? c rest with
      | none => none
      | some (lexeme, n) =>
        let token := ⟨lexeme, String.ofList (c :: rest.take n), offset, offset + 1 + n⟩
        (tokensFrom (offset + 1 + n) (rest.drop n)).map (token :: ·)
termination_by cs => cs.length
decreasing_by all_goals simp_all; try omega

/-- The tokens of a text. -/
def tokens (text : String) : Option (List Token) :=
  tokensFrom 0 text.toList

/-! ## Compact text -/

/-- Two tokens in a row need a space between them. -/
def needsSpace (before after : Lexeme) : Bool :=
  match before, after with
  | .mark _, _ | .spread, _ => false
  | _, .mark _ => false
  | _, _ => true

/-- A token as it is written in compact text. -/
def compactToken (t : Token) : String :=
  match t.lexeme with
  | .block value => String.ofList (BlockString.compact value.toList)
  | _ => t.raw

/-- Tokens with as little between them as reading them back allows. -/
def compactTokens : List Token → String
  | [] => ""
  | [t] => compactToken t
  | t :: u :: rest =>
    compactToken t ++ (if needsSpace t.lexeme u.lexeme then " " else "") ++ compactTokens (u :: rest)

/-- A text without what is skipped between its tokens.  Text that cannot be split stays as it is. -/
def compact (text : String) : String :=
  match tokens text with
  | some ts => compactTokens ts
  | none => text

end ResponseTypes.GraphQL
