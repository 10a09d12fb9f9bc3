import ResponseTypes.Script.TypeExpr

/-!
# Declarations

Type aliases, and enums as a constant object with a matching type.
-/

namespace ResponseTypes.Script

set_option autoImplicit false

/-- The comment above a declaration, on lines of its own. -/
def leadingDoc (doc : Option String) : String :=
  match nonempty? doc with
  | some d => d ++ "\n"
  | none => ""

/-- The declaration of a type. -/
def typeAlias (name code : String) (doc : Option String) (exported : Bool) : String :=
  leadingDoc doc ++ (if exported then "export " else "") ++ "type " ++ name ++ " = " ++ code ++ ";"

/-- A value of an enum. -/
structure EnumMember where
  name : String
  value : String
  description : Option String
deriving DecidableEq, Repr

/-- The line of an enum's value, after its description. -/
def enumMember (m : EnumMember) : String :=
  (match nonempty? m.description with
    | some d => "  " ++ docComment d ++ "\n"
    | none => "") ++ "  " ++ m.name ++ ": '" ++ m.value ++ "',\n"

/-- The declaration of an enum. -/
def enumDeclaration (name : String) (members : List EnumMember) (doc : Option String) : String :=
  leadingDoc doc ++ "export const " ++ name ++ " = \x7b\n" ++ String.join (members.map enumMember) ++
    "\x7d as const;\nexport type " ++ name ++ " = (typeof " ++ name ++ ")[keyof typeof " ++ name ++ "];"

end ResponseTypes.Script
