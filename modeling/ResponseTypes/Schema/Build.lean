import ResponseTypes.Failure
import ResponseTypes.GraphQL.Reader.Definition
import ResponseTypes.Schema.Basic
import ResponseTypes.Schema.Standard
import ResponseTypes.Text.Replace

/-!
# Building schemas

`Schema.read` builds a schema from its text.  Extensions are added to the types they name, wherever they stand.  Every
type that is referred to must be defined, and none twice.  Unless the schema lists its root types, they are the types
with the default names.
-/

namespace ResponseTypes.Schema

set_option autoImplicit false

open GraphQL

/-- The type definitions of a document. -/
def typeDefs (d : Document) : List TypeDef :=
  d.definitions.filterMap (fun
    | .type t => some t
    | _ => none)

/-- The extensions of types in a document. -/
def typeExtensions (d : Document) : List TypeDef :=
  d.definitions.filterMap (fun
    | .extendType t => some t
    | _ => none)

/-- The arguments of the directives that a document defines. -/
def directiveArguments (d : Document) : List InputDef :=
  d.definitions.flatMap (fun
    | .directive _ arguments => arguments
    | _ => [])

/-- The root types that a schema definition lists, if there is one. -/
def listedRoots? (d : Document) : Option RootDefs :=
  d.definitions.findSome? (fun
    | .schema roots => some roots
    | _ => none)

/-- The root types that extensions of the schema list. -/
def addedRoots (d : Document) : RootDefs :=
  d.definitions.flatMap (fun
    | .extendSchema roots => roots
    | _ => [])

/-- A body with what an extension adds to it; the two must be of one kind. -/
def extendBody : TypeBody → TypeBody → Option TypeBody
  | .scalar, .scalar => some .scalar
  | .object is fs, .object is' fs' => some (.object (is ++ is') (fs ++ fs'))
  | .interface is fs, .interface is' fs' => some (.interface (is ++ is') (fs ++ fs'))
  | .union ms, .union ms' => some (.union (ms ++ ms'))
  | .enum vs, .enum vs' => some (.enum (vs ++ vs'))
  | .input fs, .input fs' => some (.input (fs ++ fs'))
  | _, _ => none

/-- A type with its extensions. -/
def extendType (extensions : List TypeDef) (t : TypeDef) : Option TypeDef :=
  ((extensions.filter (fun e => e.name == t.name)).foldlM (fun body e => extendBody body e.body) t.body).map
    (fun body => { t with body })

/-- The names that a body refers to. -/
def references : TypeBody → List String
  | .scalar | .enum _ => []
  | .object interfaces fields | .interface interfaces fields =>
    interfaces ++ fields.flatMap (fun f => f.type.base :: f.arguments.map (·.type.base))
  | .union members => members
  | .input fields => fields.map (·.type.base)

/-- The root types of a document: those it lists, or else the types with the default names. -/
def rootsOf (d : Document) (types : List TypeDef) : RootDefs :=
  match listedRoots? d with
  | some roots => roots ++ addedRoots d
  | none =>
    addedRoots d ++ OperationKind.all.filterMap (fun k =>
      (types.find? (fun t => t.name == k.defaultRoot)).map (fun t => (k, t.name)))

/-- Definitions by name. -/
def byName (types : List TypeDef) : Assoc String TypeDef :=
  Assoc.ofList (types.map (fun t => (t.name, t)))

theorem byName_keyed (types : List TypeDef) : ∀ e ∈ byName types, e.2.name = e.1 := by
  intro e he
  obtain ⟨t, -, rfl⟩ := List.mem_map.1 (Assoc.mem_of_mem_ofList he)
  rfl

/-- Builds the schema that a document defines.  A standard type keeps its definition, so that what another definition of
it refers to is known but not referred to by the schema. -/
def ofDocument (d : Document) : Except Failure Schema :=
  let defined := typeDefs d
  let names := defined.map (·.name)
  let extensions := typeExtensions d
  match defined.mapM (extendType extensions) with
  | none => .error .schemaInvalid
  | some extended =>
    let types := extended.map (fun t => (Standard.type? t.name).getD t)
    let roots := rootsOf d types
    let referredBy := fun (l : List TypeDef) =>
      l.flatMap (fun t => references t.body) ++ (directiveArguments d).map (·.type.base) ++ roots.map Prod.snd
    let known := fun n => names.contains n || (Standard.type? n).isSome
    if (Text.distinct names).length = names.length && (referredBy extended).all known &&
        extensions.all (fun e => names.contains e.name) then
      let scalars := Standard.alwaysPresent ++ Standard.onReference.filter (referredBy types).contains
      let all := types ++ scalars.map Standard.scalar ++ Standard.describing
      .ok ⟨byName all, Assoc.ofList roots, byName_keyed all⟩
    else .error .schemaInvalid

/-- Builds a schema from its text. -/
def read (text : String) : Except Failure Schema :=
  match Document.read text with
  | none => .error .schemaSyntax
  | some d => ofDocument d

end ResponseTypes.Schema
