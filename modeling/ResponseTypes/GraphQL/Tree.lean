import ResponseTypes.GraphQL.Token

/-!
# Token trees

Parentheses, brackets and braces of a document come in pairs.  `group` turns a list of tokens into a list of trees in
which what stands between a pair is one tree; it fails if the pairs do not match.
-/

namespace ResponseTypes.GraphQL

set_option autoImplicit false

inductive Bracket where
  | paren
  | square
  | brace
deriving DecidableEq, Repr

namespace Bracket

/-- The bracket that a character opens. -/
def ofOpening? (c : Char) : Option Bracket :=
  if c == '(' then some paren else if c == '[' then some square else if c == '\x7b' then some brace else none

/-- The bracket that a character closes. -/
def ofClosing? (c : Char) : Option Bracket :=
  if c == ')' then some paren else if c == ']' then some square else if c == '\x7d' then some brace else none

end Bracket

/-- Where a piece of text starts and ends. -/
structure Span where
  start : Nat
  stop : Nat
deriving DecidableEq, Repr

inductive Tree where
  | leaf (lexeme : Lexeme) (span : Span)
  | group (bracket : Bracket) (items : List Tree) (span : Span)
deriving Repr

def Tree.span : Tree → Span
  | leaf _ s | group _ _ s => s

/-- A group that is open: its bracket, where it starts, and the trees before it, the last first. -/
structure OpenGroup where
  bracket : Bracket
  start : Nat
  before : List Tree

/-- Groups tokens, given the open groups, the innermost first, and the trees read so far in the innermost, the last
first. -/
def groupFrom (opened : List OpenGroup) (done : List Tree) : List Token → Option (List Tree)
  | [] => if opened.isEmpty then some done.reverse else none
  | t :: rest =>
    let leaf := Tree.leaf t.lexeme ⟨t.start, t.stop⟩
    match t.lexeme with
    | .mark c =>
      match Bracket.ofOpening? c, Bracket.ofClosing? c with
      | some b, _ => groupFrom (⟨b, t.start, done⟩ :: opened) [] rest
      | none, some b =>
        match opened with
        | [] => none
        | g :: outer =>
          if g.bracket = b then groupFrom outer (.group b done.reverse ⟨g.start, t.stop⟩ :: g.before) rest
          else none
      | none, none => groupFrom opened (leaf :: done) rest
    | _ => groupFrom opened (leaf :: done) rest

/-- The trees of some tokens. -/
def group (ts : List Token) : Option (List Tree) :=
  groupFrom [] [] ts

end ResponseTypes.GraphQL
