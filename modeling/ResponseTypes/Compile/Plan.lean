import ResponseTypes.Compile.State

/-!
# Plans

A `Plan` says what compiling does, apart from how: it asks for the types and fragments that the result refers to, and
goes on with the answers.  What a plan asks for does not depend on what was done before.  `Plan.perform` carries a plan
out, with a `Host` that answers it.
-/

namespace ResponseTypes.Compile

set_option autoImplicit false

open GraphQL (Selection TypeDef TypeRef)

/-- Why something cannot be compiled, given the file that is being processed. -/
abbrev Lack := Option String → Failure

/-- A type that gets declared when it is referred to first. -/
inductive Declared where
  | helper (name : String)
  | tag (typeName : String)
  | tagUnion (typeName : String)
  | enum (typeName : String)
  | input (typeName : String)
deriving DecidableEq, Repr

namespace Declared

def kind : Declared → ArtifactKind
  | helper _ => .typeHelper
  | tag _ => .typeTag
  | tagUnion _ => .typeTagUnion
  | enum _ => .enum
  | input _ => .inputType

/-- The name in the schema, or of the helper type. -/
def key : Declared → String
  | helper n | tag n | tagUnion n | enum n | input n => n

end Declared

inductive Plan : Type → Type 1 where
  | done {α : Type} (a : α) : Plan α
  | lack {α : Type} (e : Lack) : Plan α
  /-- asks for a declared type -/
  | declare {α : Type} (d : Declared) (next : Plan α) : Plan α
  /-- asks for the type expression of an input value -/
  | code {α : Type} (type : TypeRef) (next : String → Plan α) : Plan α
  /-- asks for a fragment that is spread -/
  | spread {α : Type} (name : String) (next : FragmentDef → Plan α) : Plan α
  /-- gives the shape of selections on a type, which may be kept -/
  | keep {α : Type} (typeName : String) (sels : List Selection) (body : Plan Shape) (next : Shape → Plan α) : Plan α
  /-- counts a thing that is done -/
  | count {α : Type} (thing : String) (next : Plan α) : Plan α

/-- How a fragment that is spread is looked up, recorded and generated. -/
abbrev Spread := String → Step FragmentDef

/-- What answers plans. -/
structure Host where
  declare : Declared → Step Unit
  code : TypeRef → Step String
  spread : Spread

namespace Plan

/-- One plan after the other. -/
def bind {α β : Type} : Plan α → (α → Plan β) → Plan β
  | done a, f => f a
  | lack e, _ => lack e
  | declare d next, f => declare d (next.bind f)
  | code type next, f => code type (fun text => (next text).bind f)
  | spread name next, f => spread name (fun fragment => (next fragment).bind f)
  | keep typeName sels body next, f => keep typeName sels body (fun s => (next s).bind f)
  | count thing next, f => count thing (next.bind f)

instance : Monad Plan where
  pure := done
  bind := bind

/-- Carries a plan out.  Shapes are kept if `cached` is set. -/
def perform (cached : Bool) (host : Host) {α : Type} : Plan α → Step α
  | done a => pure a
  | lack e => Tracking.failHere e
  | declare d next => do
    host.declare d
    next.perform cached host
  | code type next => do
    let text ← host.code type
    (next text).perform cached host
  | spread name next => do
    let fragment ← host.spread name
    (next fragment).perform cached host
  | keep typeName sels body next => do
    let s ← Memo.memoized State.shapesPart cached (typeName, sels) (body.perform cached host)
    (next s).perform cached host
  | count thing next => do
    Compile.count thing
    next.perform cached host

/-- The definition of a type. -/
def typeOf (c : Config) (name : String) : Plan TypeDef :=
  match c.schema.type? name with
  | some t => done t
  | none => lack (.typeNotFound name)

end Plan

end ResponseTypes.Compile
