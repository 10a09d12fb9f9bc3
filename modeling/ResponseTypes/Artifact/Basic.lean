import ResponseTypes.Dependency.Basic

/-!
# Artifacts

An `Artifact` is a generated piece of code, with its kind, its name and its origin.  What builds one returns a `Draft`.
`ArtifactKind` lists the kinds of the generated types, in the order of their sections.
-/

namespace ResponseTypes

set_option autoImplicit false

/-- Kinds of artifacts, by name. -/
class KindName (κ : Type) where
  name : κ → String

instance : KindName String := ⟨id⟩

/-- The kinds of generated types. -/
inductive ArtifactKind where
  | typeHelper
  | enum
  | typeTag
  | typeTagUnion
  | fragment
  | operation
  | operationVariables
  | inputType
deriving DecidableEq, Repr

namespace ArtifactKind

/-- All kinds, in the order of their sections. -/
def all : List ArtifactKind :=
  [typeHelper, enum, typeTag, typeTagUnion, fragment, operation, operationVariables, inputType]

/-- The name of a kind in keys. -/
def name : ArtifactKind → String
  | typeHelper => "type-helper"
  | enum => "enum"
  | typeTag => "discriminant-literal"
  | typeTagUnion => "discriminant-union"
  | fragment => "fragment"
  | operation => "operation"
  | operationVariables => "operation-variables"
  | inputType => "input-type"

/-- The heading of a kind's section. -/
def label : ArtifactKind → String
  | typeHelper => "Type Helpers"
  | enum => "Enums"
  | typeTag => "Object Types"
  | typeTagUnion => "Interfaces & Unions"
  | fragment => "Fragments"
  | operation => "Operations"
  | operationVariables => "Operation Variables"
  | inputType => "Input Types"

/-- Artifacts of the kind take one line each and stand without blank lines between them. -/
def isCompact : ArtifactKind → Bool
  | typeHelper | typeTag => true
  | _ => false

/-- The kind of a name. -/
def ofName? (s : String) : Option ArtifactKind :=
  all.find? (fun k => k.name == s)

/-- The place of a kind in the order of the sections. -/
def rank (k : ArtifactKind) : Nat :=
  all.idxOf k

instance : KindName ArtifactKind := ⟨name⟩

end ArtifactKind

/-- What building an artifact yields; its store adds the rest. -/
structure Draft where
  name : String
  code : String
  /-- the name in the schema or in a document -/
  graphqlName : Option String := none
  /-- the text it was generated from -/
  source : Option String := none
  /-- the name of the definition it was generated for -/
  identifier : Option String := none
deriving DecidableEq, Repr

structure Artifact (κ : Type) extends Draft where
  kind : κ
  origin : Origin
deriving DecidableEq, Repr

namespace Artifact

variable {κ : Type} [KindName κ]

/-- Kind and name as a dependency. -/
def asDependency (a : Artifact κ) : Dependency :=
  ⟨KindName.name a.kind, a.name⟩

/-- The key that others record when they depend on the artifact. -/
def id (a : Artifact κ) : String :=
  a.asDependency.key

omit [KindName κ]

/-- What the artifact depends on, of one kind if one is given. -/
def dependencies (a : Artifact κ) (kind : Option String) : List Dependency :=
  let all := a.origin.keys.map Dependency.ofKey
  match kind with
  | none => all
  | some kind => all.filter (·.kind == kind)

/-- The fragments the artifact uses, directly or through others. -/
def fragmentsUsed (a : Artifact κ) : List String :=
  Dependency.fragmentsUsed a.origin.keys

end Artifact

end ResponseTypes
