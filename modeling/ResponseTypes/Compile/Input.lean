import ResponseTypes.Compile.Declared
import ResponseTypes.Visited

/-!
# Declaring types

`declare` generates the artifact of a declared type on first reference.  Generation enters each input type once at most
on every path: one that is being built is referred to by its name.
-/

namespace ResponseTypes.Compile

set_option autoImplicit false

open GraphQL (TypeRef)

/-- A host that only declares types. -/
def declaring (declare : Declared → Step Unit) : Host where
  declare := declare
  code type := Tracking.failHere (.breach (.notAnInput type.text))
  spread name := Tracking.failHere (.fragmentNotFound name)

/-- A host that declares types and writes the type expressions of input values. -/
def inputHost (c : Setup) (declare : Declared → Step Unit) : Host where
  declare := declare
  code type := Memo.memoized State.inputsPart c.cached type
    ((codePlan c.toConfig type).perform c.cached (declaring declare))
  spread name := Tracking.failHere (.fragmentNotFound name)

/-- Builds a declared type; an input type is marked meanwhile. -/
def markingInput (d : Declared) (build : Step Draft) : Step Draft :=
  match d with
  | .input n => marking State.inputMarksPart n build
  | _ => build

/-- Generates the artifact of a declared type unless that was done, given how to declare what it refers to. -/
def declareWith (c : Setup) (inner : Declared → Step Unit) (d : Declared) : Step Unit := do
  let _ ← artifact d.kind d.key none (markingInput d ((draft c.toConfig d).perform c.cached (inputHost c inner)))
  return ()

/-- Generates the artifact of a declared type other than an input type: tags, enums and helpers refer to nothing, and
unions of tags to tags. -/
def declareFlat (c : Setup) : Declared → Step Unit :=
  declareWith c (declareWith c (fun _ => pure ()))

/-- Generates the artifact of a declared type unless that was done.  The input types in `building` are being built; they
are the marked ones. -/
def declare (c : Setup) (building : List String) (d : Declared) : Step Unit :=
  match d with
  | .input n =>
    if _hb : n ∈ building then Tracking.add ⟨ArtifactKind.inputType.name, c.naming.input n⟩
    else
      match _h : c.schema.type? n with
      | some _ => declareWith c (fun d => declare c (n :: building) d) (.input n)
      | none => declareFlat c (.input n)
  | d => declareFlat c d
termination_by remaining (Assoc.keys c.schema.types) building
decreasing_by exact remaining_cons_lt (Assoc.mem_keys_of_get? _h) _hb

/-- What answers all plans, given how to get fragments. -/
def host (c : Setup) (spread : Spread) : Host :=
  { inputHost c (declare c []) with spread }

end ResponseTypes.Compile
