import ResponseTypes.Compile.Finish
import ResponseTypes.Compile.Selection
import ResponseTypes.Shape.Simplify

/-!
# Compiling fragments

A fragment is generated on first use.  One that is reached again while it is being generated spreads itself, which is a
failure; so generation enters each fragment once at most on every path and ends.
-/

namespace ResponseTypes.Compile

set_option autoImplicit false

/-- Generates a fragment unless that was done. -/
abbrev Generator := String → Step Unit

/-- Looks a fragment up that is spread, records its use and generates it. -/
def useFragment (c : Setup) (generate : Generator) : Spread := fun name => do
  match Assoc.get? c.fragments name with
  | none => Tracking.failHere (.fragmentNotFound name)
  | some f =>
    Tracking.addFragmentUse name
    generate name
    return f

/-- The fields of a fragment, which is generated if needed. -/
def fragmentFields (generate : Generator) (name : String) : Step Fields := do
  generate name
  match Assoc.get? (← State.fieldMapsPart.read) name with
  | some m => return m.fields
  | none => Tracking.failHere (.breach (.fieldsMissing name))

/-- A shape with the fragments in its objects composed. -/
def finish (generate : Generator) (s : Shape) : Step Shape := do
  let maps ← State.fieldMapsPart.read
  (finishWithin (height (heightIn maps) s) s).perform (fragmentFields generate)

/-! ## Generating -/

/-- The file of a definition, unless it came without one. -/
def linkable (file : String) : Option String :=
  if file = noFile then none else some file

/-- Keeps the fields of a fragment; the keys they depend on are known when it is generated. -/
def keepFields (f : FragmentDef) (fields : Fields) : Step Unit := do
  let maps ← State.fieldMapsPart.read
  let height := fieldsHeight (heightIn maps) fields
  State.fieldMapsPart.modify (fun m => Assoc.insert m f.fragment.name ⟨fields, height, ⟨f.file, []⟩⟩)

/-- What is selected in a fragment, before fragments are composed. -/
def fragmentPlan (c : Config) (f : FragmentDef) : Plan Shape :=
  .count "fragments" do
    ensureHelpers c
    let t ← Plan.typeOf c f.fragment.condition
    let s ← selection c t f.fragment.selections
    return s.simplify

/-- The type of a fragment, given its shape. -/
def fragmentDraft (c : Config) (f : FragmentDef) (s : Shape) : Draft where
  name := c.naming.fragment f.fragment.name
  code := c.templates.typeAlias (c.naming.fragment f.fragment.name) (Script.render c.output 0 s)
    (Script.typeDoc c.output none (linkable f.file) f.fragment.source) true
  graphqlName := some f.fragment.name
  source := f.fragment.source
  identifier := some f.fragment.name

/-- Compiles a fragment, given how to generate those it spreads. -/
def buildFragment (c : Setup) (f : FragmentDef) (generate : Generator) : Step Draft := do
  let s ← (fragmentPlan c.toConfig f).perform c.cached (host c (useFragment c generate))
  keepFields f (← (flatFields s).perform (fragmentFields generate))
  return fragmentDraft c.toConfig f (← finish generate s)

/-- Gives the fields of a fragment the keys of its artifact, unless they have some. -/
def attributeFields (name : String) : Step Unit := do
  match Assoc.get? (← State.fieldMapsPart.read) name, Assoc.get? (← State.storePart.read) (ArtifactKind.fragment, name) with
  | some m, some a =>
    if m.origin.keys.isEmpty then
      State.fieldMapsPart.modify (fun maps =>
        Assoc.insert maps name { m with origin := { m.origin with keys := a.origin.keys } })
  | _, _ => pure ()

/-- The name of the type of a fragment that is being generated, which its generation has to have stored. -/
def fragmentInProgress (name : String) : Step String := do
  match Assoc.get? (← State.storePart.read) (ArtifactKind.fragment, name) with
  | none => Tracking.failHere (.breach (.circularFragment name))
  | some a => Store.reuse a

/-- Gives the name of a fragment's type, and its fields their keys. -/
def attributing (name : String) (act : Step String) : Step String := do
  let artifactName ← act
  attributeFields name
  return artifactName

/-- The name of a fragment's type, which is generated on first use.  The fragments in `building` are being
generated; they are the marked ones. -/
def generateFragment (c : Setup) (building : List String) (name : String) : Step String :=
  match _h : Assoc.get? c.fragments name with
  | none => Tracking.failHere (.fragmentNotFound name)
  | some f =>
    attributing name
      (if _hb : name ∈ building then fragmentInProgress name
      else
        artifact .fragment name (some f.file) (marking State.fragmentMarksPart name
          (buildFragment c f (fun other => discard (generateFragment c (name :: building) other)))))
termination_by remaining (Assoc.keys c.fragments) building
decreasing_by exact remaining_cons_lt (Assoc.mem_keys_of_get? _h) _hb

/-- Generates a fragment, when none is being generated. -/
def generator (c : Setup) : Generator :=
  fun name => discard (generateFragment c [] name)

end ResponseTypes.Compile
