import ResponseTypes.Script.Comment
import ResponseTypes.Shape.Key

/-!
# Type expressions

`render` writes a shape as a type expression of TypeScript.  Objects take a line per field and are indented by their
depth; the members of unions are sorted, and members that read alike appear once.
-/

namespace ResponseTypes.Script

set_option autoImplicit false

/-- The type of a value that may be null. -/
def maybeName : String := "Maybe"

/-- The type that allows no fields but its own. -/
def exactName : String := "Exact"

/-- The declarations of helper types that generated code refers to. -/
def helpers : List (String × String) := [
  (exactName, "type Exact<T extends \x7b [key: string]: unknown \x7d> = \x7b [K in keyof T]: T[K] \x7d;"),
  (maybeName, "type Maybe<T> = T | null;")]

/-- The variables of an operation that has none. -/
def noVariables : String := "\x7b [key: string]: never \x7d"

/-- The indentation of a depth. -/
def indent (depth : Nat) : String :=
  String.ofList (List.replicate (2 * depth) ' ')

/-- Members of a union or an intersection, in parentheses unless there is one. -/
def joinMembers (separator : String) : List String → String
  | [code] => code
  | codes => "(" ++ Text.joinWith separator codes ++ ")"

/-- A type tag: the names it lists, or an abstract type with the names it leaves out.  Without any text to list there is
no value. -/
def renderTag (t : TypeTag) : String :=
  match t.within with
  | none | some "" => (nonempty? (Text.joinWith " | " t.names)).getD "never"
  | some abstractName =>
    if t.names.isEmpty then abstractName
    else "Exclude<" ++ abstractName ++ ", " ++ Text.joinWith " | " t.names ++ ">"

/-- A fragment's type, without the fields that are left out. -/
def renderRef (r : FragmentRef) : String :=
  if r.omitted.isEmpty then r.artifact
  else "Omit<" ++ r.artifact ++ ", " ++ Text.joinWith " | " (r.omitted.map (fun n => "\"" ++ n ++ "\"")) ++ ">"

/-- A type whose values may be null. -/
def nullableType (o : OutputOptions) (code : String) : String :=
  match o.nullableField with
  | .maybe => maybeName ++ "<" ++ code ++ ">"
  | _ => code ++ " | null"

/-- An array of elements.  Elements with several members take parentheses where the template starts with them. -/
def arrayOf (o : OutputOptions) (element : String) : String :=
  let template := arrayTemplate o.arrayShape
  let several := element.toList.contains '|' || element.toList.contains '&'
  let element :=
    if arrayPlaceholder.toList.isPrefixOf template.toList && several then "(" ++ element ++ ")" else element
  Text.replaceIn template arrayPlaceholder element

/-- A field that has been rendered. -/
structure Entry where
  key : String
  note : Note
  code : String
deriving DecidableEq, Repr

/-- The declaration of a field. -/
def fieldCode (o : OutputOptions) (e : Entry) : String :=
  if !e.note.nullable then e.key ++ ": " ++ e.code ++ ";"
  else match o.nullableField with
    | .optional => e.key ++ "?: " ++ e.code ++ ";"
    | .null => e.key ++ ": " ++ e.code ++ " | null;"
    | .maybe => e.key ++ ": " ++ maybeName ++ "<" ++ e.code ++ ">;"

/-- The declaration of a field of an input type: one that may be null may be left out too. -/
def inputFieldCode (o : OutputOptions) (e : Entry) : String :=
  if e.note.nullable then e.key ++ "?: " ++ nullableType o e.code ++ ";" else e.key ++ ": " ++ e.code ++ ";"

/-- An object type whose fields are declared by `declare`. -/
def objectType (o : OutputOptions) (depth : Nat) (declaration : Entry → String) (entries : List Entry) : String :=
  if entries.isEmpty then o.emptyObject
  else
    let entries :=
      if o.sortProperties then Text.sortBy (fun a b => decide (a.key ≤ b.key)) entries else entries
    let lines := entries.flatMap (fun e =>
      (match nonempty? e.note.description with
        | some d => if o.fieldDescription then [indent (depth + 1) ++ docComment d] else []
        | none => []) ++ [indent (depth + 1) ++ declaration e])
    Text.joinWith "\n" (["\x7b"] ++ lines ++ [indent depth ++ "\x7d"])

/-- An object whose fragment references are not composed: the intersection of its fields and the references. -/
def objectCode (o : OutputOptions) (depth : Nat) (entries : List Entry) : String :=
  let refs := entries.filter (fun e => isFragmentKey e.key)
  let direct := entries.filter (fun e => !isFragmentKey e.key)
  if refs.isEmpty then objectType o depth (fieldCode o) entries
  else
    let own := if direct.isEmpty then [] else [objectType o depth (fieldCode o) direct]
    joinMembers " & " (Text.distinct (own ++ refs.map (·.code)))

mutual

/-- A shape as a type expression at a depth. -/
def render (o : OutputOptions) (depth : Nat) : Shape → String
  | .scalar code _ => code
  | .tag t _ => renderTag t
  | .object _ fields _ => objectCode o depth (renderEntries o depth (depth + 1) fields)
  | .array element elementNullable _ =>
    let code := render o depth element
    arrayOf o (if elementNullable then code ++ " | null" else code)
  | .union branches _ => joinMembers " | " (Text.sorted (Text.distinct (renderList o depth branches)))
  | .inter parts _ => joinMembers " & " (Text.distinct (renderList o depth parts))
  | .ref r _ => renderRef r

/-- Some shapes at a depth. -/
def renderList (o : OutputOptions) (depth : Nat) : List Shape → List String
  | [] => []
  | s :: rest => render o depth s :: renderList o depth rest

/-- Some fields at a depth, and fragment references among them at a depth of their own. -/
def renderEntries (o : OutputOptions) (refDepth depth : Nat) : List (String × Shape) → List Entry
  | [] => []
  | (key, s) :: rest =>
    ⟨key, s.note, render o (if isFragmentKey key then refDepth else depth) s⟩ :: renderEntries o refDepth depth rest

end

/-- Fields as an object type. -/
def renderFields (o : OutputOptions) (depth : Nat) (fields : Fields) : String :=
  objectType o depth (fieldCode o) (renderEntries o (depth + 1) (depth + 1) fields)

/-- The fields of an input type, or variables. -/
def renderInputFields (o : OutputOptions) (entries : List Entry) : String :=
  objectType o 0 (inputFieldCode o) entries

end ResponseTypes.Script
