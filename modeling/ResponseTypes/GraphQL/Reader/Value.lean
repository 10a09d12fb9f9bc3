import ResponseTypes.GraphQL.Document
import ResponseTypes.GraphQL.Tree

/-!
# Reading values

Each function that reads takes the trees at the start of a list and gives what it read together with the trees that
follow; what stands between brackets is read to its end.  `readAll` repeats a reader, `readDirectives` and `readType`
read what other parts of a document share.
-/

namespace ResponseTypes.GraphQL

set_option autoImplicit false

/-- What was read, and the trees that follow. -/
abbrev Read (α : Type) := Option (α × List Tree)

/-- Reads items to the end of a list; each takes a tree at least. -/
def readAll {α : Type} (item : List Tree → Read α) : List Tree → Option (List α)
  | [] => some []
  | t :: ts =>
    match item (t :: ts) with
    | none => none
    | some (a, rest) =>
      if rest.length < (t :: ts).length then (readAll item rest).map (a :: ·) else none
termination_by ts => ts.length
decreasing_by assumption

/-- Reads one item or more to the end of a list. -/
def readSome {α : Type} (item : List Tree → Read α) (ts : List Tree) : Option (List α) :=
  if ts.isEmpty then none else readAll item ts

/-- Reads what stands between brackets, one item or more, if the brackets are there. -/
def readBracketed {α : Type} (bracket : Bracket) (item : List Tree → Read α) (ts : List Tree) : Read (List α) :=
  match ts with
  | .group b items _ :: rest =>
    if b = bracket then (readSome item items).map (·, rest) else some ([], ts)
  | _ => some ([], ts)

def readName : List Tree → Read String
  | .leaf (.name n) _ :: rest => some (n, rest)
  | _ => none

/-- Skips a punctuation character if it is there. -/
def skipMark (c : Char) : List Tree → List Tree
  | .leaf (.mark d) s :: rest => if d = c then rest else .leaf (.mark d) s :: rest
  | ts => ts

/-- Reads a punctuation character. -/
def readMark (c : Char) : List Tree → Read Unit
  | .leaf (.mark d) _ :: rest => if d = c then some ((), rest) else none
  | _ => none

/-- The first tree is a given punctuation character. -/
def startsWithMark (c : Char) : List Tree → Bool
  | .leaf (.mark d) _ :: _ => d == c
  | _ => false

/-! ## Values and directives -/

/-- The literal that a name writes. -/
def literalOfName (n : String) : Value :=
  if n == "true" || n == "false" then .literal .boolean n
  else if n == "null" then .literal .null n
  else .literal .enum n

mutual

/-- The value that one tree writes; variables may occur in it unless it is constant. -/
def valueOfTree (constant : Bool) : Tree → Option Value
  | .leaf (.name n) _ => some (literalOfName n)
  | .leaf (.int t) _ => some (.literal .int t)
  | .leaf (.float t) _ => some (.literal .float t)
  | .leaf (.string v) _ => some (.literal .string v)
  | .leaf (.block v) _ => some (.literal .block v)
  | .group .square items _ => (valuesOfTrees constant items).map .list
  | .group .brace items _ => (fieldsOfTrees constant items).map .object
  | _ => none

/-- The values of a list. -/
def valuesOfTrees (constant : Bool) : List Tree → Option (List Value)
  | [] => some []
  | .leaf (.mark '$') _ :: .leaf (.name n) _ :: rest =>
    if constant then none else (valuesOfTrees constant rest).map (.literal .variable n :: ·)
  | t :: rest => do
    let v ← valueOfTree constant t
    let vs ← valuesOfTrees constant rest
    return v :: vs

/-- Values with their names: the fields of an object, or arguments. -/
def fieldsOfTrees (constant : Bool) : List Tree → Option (List (String × Value))
  | [] => some []
  | .leaf (.name k) _ :: .leaf (.mark ':') _ :: .leaf (.mark '$') _ :: .leaf (.name n) _ :: rest =>
    if constant then none else (fieldsOfTrees constant rest).map ((k, .literal .variable n) :: ·)
  | .leaf (.name k) _ :: .leaf (.mark ':') _ :: t :: rest => do
    let v ← valueOfTree constant t
    let vs ← fieldsOfTrees constant rest
    return (k, v) :: vs
  | _ => none

end

/-- Reads arguments in parentheses, if there are any. -/
def readArguments (constant : Bool) : List Tree → Read (List (String × Value))
  | .group .paren items _ :: rest =>
    if items.isEmpty then none else (fieldsOfTrees constant items).map (·, rest)
  | ts => some ([], ts)

/-- Reads directives up to the first tree that belongs to none. -/
def readDirectives (constant : Bool) : List Tree → Read (List Directive)
  | .leaf (.mark '@') _ :: .leaf (.name n) _ :: .group .paren items _ :: rest =>
    if items.isEmpty then none
    else match fieldsOfTrees constant items, readDirectives constant rest with
      | some arguments, some (ds, rest) => some (⟨n, arguments⟩ :: ds, rest)
      | _, _ => none
  | .leaf (.mark '@') _ :: .leaf (.name n) _ :: rest =>
    (readDirectives constant rest).map (fun (ds, rest) => (⟨n, []⟩ :: ds, rest))
  | .leaf (.mark '@') _ :: _ => none
  | ts => some ([], ts)

/-- What follows directives is no larger than what they were read from. -/
theorem readDirectives_le (constant : Bool) (ts : List Tree) {ds : List Directive} {rest : List Tree}
    (h : readDirectives constant ts = some (ds, rest)) : sizeOf rest ≤ sizeOf ts := by
  fun_induction readDirectives constant ts generalizing ds rest with
  | case1 => simp at h
  | case2 s n s' items s'' more _ arguments ds' rest' hr _ ih =>
    simp only [Option.some.injEq, Prod.mk.injEq] at h
    have := ih hr
    simp only [List.cons.sizeOf_spec, ← h.2]
    omega
  | case3 => simp at h
  | case4 s n s' more _ ih =>
    obtain ⟨⟨ds', rest'⟩, hr, h⟩ := Option.map_eq_some_iff.1 h
    simp only [Prod.mk.injEq] at h
    have := ih hr
    simp only [List.cons.sizeOf_spec, ← h.2]
    omega
  | case5 => simp at h
  | case6 =>
    simp only [Option.some.injEq, Prod.mk.injEq] at h
    exact Nat.le_of_eq (by rw [← h.2])

/-! ## Types and variables -/

mutual

/-- The type that one tree writes. -/
def typeOfTree : Tree → Option TypeRef
  | .leaf (.name n) _ => some (.named n)
  | .group .square items _ => (typeOfTrees items).map .list
  | _ => none

/-- The type that a list of trees writes. -/
def typeOfTrees : List Tree → Option TypeRef
  | [t] => typeOfTree t
  | [t, .leaf (.mark '!') _] => (typeOfTree t).map .nonNull
  | _ => none

end

/-- Reads a type. -/
def readType : List Tree → Read TypeRef
  | t :: .leaf (.mark '!') _ :: rest => (typeOfTree t).map (.nonNull ·, rest)
  | t :: rest => (typeOfTree t).map (·, rest)
  | [] => none

/-- Reads a default value, if there is one, telling whether there is. -/
def readDefault : List Tree → Read Bool
  | .leaf (.mark '=') _ :: t :: rest => (valueOfTree true t).map (fun _ => (true, rest))
  | .leaf (.mark '=') _ :: [] => none
  | ts => some (false, ts)

/-- Reads the definition of a variable. -/
def readVariable (ts : List Tree) : Read VariableDef :=
  match ts with
  | .leaf (.mark '$') _ :: .leaf (.name n) _ :: .leaf (.mark ':') _ :: ts => Option.bind (readType ts) fun (type, ts) =>
    Option.bind (readDefault ts) fun (hasDefault, ts) =>
    Option.map (fun (_, ts) => (⟨n, type, hasDefault⟩, ts)) (readDirectives true ts)
  | _ => none

end ResponseTypes.GraphQL
