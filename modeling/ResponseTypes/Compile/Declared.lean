import ResponseTypes.Compile.Plan
import ResponseTypes.Script.Declaration

/-!
# Declared types

The artifacts that shapes refer to by name and that are derived from the schema alone: type tags of concrete types,
their unions for interfaces and unions, enums, input types and helper types.  Input types may refer to themselves and to
each other: one that is reached again while it is being built is referred to by its name.
-/

namespace ResponseTypes.Compile

set_option autoImplicit false

open GraphQL (EnumValueDef TypeDef TypeRef)

/-- The comment above a type of the schema. -/
def schemaDoc (c : Config) (description : Option String) : Option String :=
  Script.typeDoc c.output description none none

/-- A draft for a type of the schema. -/
def schemaDraft (c : Config) (name code graphqlName : String) (description : Option String) : Draft :=
  { name, code := c.templates.typeAlias name code (schemaDoc c description) true, graphqlName := some graphqlName }

/-! ## Referring to declared types -/

/-- The tag of a concrete type. -/
def typeTag (name : String) : Plan TypeTag :=
  .declare (.tag name) (.done (.single name))

/-- The tag that covers all of an abstract type. -/
def abstractTag (name : String) : Plan TypeTag :=
  .declare (.tagUnion name) (.done (.allOf name))

/-- The name of an enum. -/
def enumType (c : Config) (name : String) : Plan String :=
  .declare (.enum name) (.done (c.naming.enum name))

/-- The name of an input type. -/
def inputType (c : Config) (name : String) : Plan String :=
  .declare (.input name) (.done (c.naming.input name))

/-- The type expression of an input value. -/
def inputCode (type : TypeRef) : Plan String :=
  .code type .done

/-- Declares the helper types that fields need. -/
def ensureHelpers (c : Config) : Plan Unit :=
  if c.output.nullableField = .maybe then .declare (.helper Script.maybeName) (.done ()) else .done ()

/-! ## Drafts -/

def helperDraft (name : String) : Plan Draft :=
  .done { name, code := (Script.helpers.lookup name).getD "" }

def tagDraft (c : Config) (name : String) : Plan Draft := do
  let t ← Plan.typeOf c name
  return schemaDraft c name ("'" ++ name ++ "'") name t.description

/-- Unions of tags that are longer than this are written one member per line. -/
def maxInlineUnion : Nat := 80

/-- The code of a union of tags. -/
def tagUnionCode (names : List String) : String :=
  if names.isEmpty then "never"
  else
    let code := Text.joinWith " | " names
    if code.length > maxInlineUnion then String.join (names.map ("\n  | " ++ ·)) else code

/-- The union of the tags of an abstract type, with its members. -/
def tagUnionDraft (c : Config) (name : String) : Plan Draft := do
  let names := Text.sorted (c.schema.possible name)
  names.forM (fun n => .declare (.tag n) (.done ()))
  let t ← Plan.typeOf c name
  return schemaDraft c name (tagUnionCode names) name t.description

def enumDraft (c : Config) (name : String) : Plan Draft := do
  let t ← Plan.typeOf c name
  let declared := c.naming.enum name
  let members := t.body.values.map (fun v => (⟨v.name, v.name, v.description⟩ : Script.EnumMember))
  return {
    name := declared
    code := c.templates.enum declared members (schemaDoc c t.description)
    graphqlName := some name }

def inputDraft (c : Config) (name : String) : Plan Draft :=
  match c.schema.type? name with
  | some ⟨_, .input fields, description⟩ => do
    ensureHelpers c
    let entries ← fields.mapM (fun f => do
      let code ← inputCode f.type
      return (⟨f.name, ⟨!f.type.isNonNull, f.description⟩, code⟩ : Script.Entry))
    return schemaDraft c (c.naming.input name) (Script.renderInputFields c.output entries) name description
  | _ => .lack (.breach (.notAnInput name))

/-- What declaring a type does. -/
def draft (c : Config) : Declared → Plan Draft
  | .helper name => helperDraft name
  | .tag name => tagDraft c name
  | .tagUnion name => tagUnionDraft c name
  | .enum name => enumDraft c name
  | .input name => inputDraft c name

/-- The type expression of a base type. -/
def baseText (c : Config) (name : String) : String :=
  match c.schema.type? name with
  | some ⟨_, .input _, _⟩ => c.naming.input name
  | some ⟨_, .enum _, _⟩ => c.naming.enum name
  | _ => c.scalars.typeFor name

/-- The type expression of an input value, apart from whether it may be null. -/
def codeText (c : Config) : TypeRef → String
  | .nonNull t => codeText c t
  | .list t =>
    Script.arrayOf c.output
      (if t.isNonNull then codeText c t else Script.nullableType c.output (codeText c t))
  | .named n => baseText c n

/-- What writing the type expression of an input value does. -/
def codePlan (c : Config) (type : TypeRef) : Plan String :=
  match c.schema.type? type.base with
  | some ⟨_, .input _, _⟩ => .declare (.input type.base) (.done (codeText c type))
  | some ⟨_, .enum _, _⟩ => .declare (.enum type.base) (.done (codeText c type))
  | some ⟨_, .scalar, _⟩ => .done (codeText c type)
  | _ => .lack (.breach (.notAnInput type.base))

end ResponseTypes.Compile
