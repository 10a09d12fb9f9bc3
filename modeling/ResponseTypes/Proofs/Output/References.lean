import ResponseTypes.Output
import ResponseTypes.Proofs.Plan.Refs

/-!
# What generated code refers to

Generated code is written from shapes, from fields of input types and from the names of type tags; these say by which names
it refers to other types.  An output is `Closed` if all of them are declared in it.
-/

namespace ResponseTypes.Output

set_option autoImplicit false

open Compile (Config Known)
open GraphQL (TypeRef)
open Shape (Leaves)

/-- An artifact of the output declares the type of a kind and a name. -/
def Declares (out : Output) (kind : ArtifactKind) (name : String) : Prop :=
  ∃ a ∈ out.artifacts, a.kind = kind ∧ a.name = name

/-- The names that shapes may refer to: type expressions of the schema's scalars, and what the output declares. -/
def leaves (out : Output) (c : Config) : Leaves where
  scalar code := (∃ t, Known c t ∧ t.body = .scalar ∧ code = c.scalars.typeFor t.name) ∨
    out.Declares .enum code ∨ out.Declares .inputType code
  tag := out.Declares .typeTag
  tagUnion := out.Declares .typeTagUnion
  ref _ artifact := out.Declares .fragment artifact

/-- The output declares the type that type expressions of values that may be null refer to. -/
def HasHelpers (out : Output) (c : Config) : Prop :=
  c.output.nullableField = .maybe → out.Declares .typeHelper Script.maybeName

/-- The output declares the enum or the input type that the type expression of an input value refers to. -/
structure HasInput (out : Output) (c : Config) (type : TypeRef) : Prop where
  input : ∀ name fields description, c.schema.type? type.base = some ⟨name, .input fields, description⟩ →
    out.Declares .inputType (c.naming.input type.base)
  enum : ∀ name values description, c.schema.type? type.base = some ⟨name, .enum values, description⟩ →
    out.Declares .enum (c.naming.enum type.base)

/-- Fields of input values refer to what the output declares. -/
def HasInputs (out : Output) (c : Config) (entries : List Script.Entry) : Prop :=
  ∀ e ∈ entries, ∃ type, e.code = Compile.codeText c type ∧ out.HasInput c type

/-- The code of an artifact, which its template lays out, refers to nothing but what the output declares. -/
inductive Written (out : Output) (c : Config) (a : Artifact ArtifactKind) : Prop
  | helper : a.kind = .typeHelper → a.code = (Script.helpers.lookup a.name).getD "" → Written out c a
  | tag (doc : Option String) :
      a.kind = .typeTag → a.code = c.templates.typeAlias a.name ("'" ++ a.name ++ "'") doc true → Written out c a
  | tagUnion (names : List String) (doc : Option String) :
      a.kind = .typeTagUnion → a.code = c.templates.typeAlias a.name (Compile.tagUnionCode names) doc true →
      (∀ name ∈ names, out.Declares .typeTag name) → Written out c a
  | enum (members : List Script.EnumMember) (doc : Option String) :
      a.kind = .enum → a.code = c.templates.enum a.name members doc → Written out c a
  | input (entries : List Script.Entry) (doc : Option String) :
      a.kind = .inputType →
      a.code = c.templates.typeAlias a.name (Script.renderInputFields c.output entries) doc true →
      out.HasInputs c entries → out.HasHelpers c → Written out c a
  | shape (s : Shape) (doc : Option String) :
      a.kind = .fragment ∨ a.kind = .operation →
      a.code = c.templates.typeAlias a.name (Script.render c.output 0 s) doc true →
      s.RefsIn (out.leaves c) → out.HasHelpers c → Written out c a
  | variables (entries : List Script.Entry) :
      a.kind = .operationVariables →
      a.code = c.templates.typeAlias a.name (Script.exactName ++ "<" ++
        (if entries.isEmpty then Script.noVariables else Script.renderInputFields c.output entries) ++ ">") none true →
      out.HasInputs c entries → out.Declares .typeHelper Script.exactName → out.HasHelpers c → Written out c a

/-- The code of every artifact refers to nothing but what the output declares. -/
def Closed (out : Output) (c : Config) : Prop :=
  ∀ a ∈ out.artifacts, out.Written c a

end ResponseTypes.Output
