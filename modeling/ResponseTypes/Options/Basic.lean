import ResponseTypes.Hook
import ResponseTypes.Naming.Conventions
import ResponseTypes.Scalars
import ResponseTypes.Script.Templates

/-!
# Options

`Options` configure a generator: what it does, how it names and writes types, and what lays out and changes the files.
-/

namespace ResponseTypes

set_option autoImplicit false

/-- A directory with templates of the user's. -/
structure TemplateDir where
  path : String
  /-- the templates that stand there -/
  templates : Script.Overrides := {}

structure Options where
  /-- builds are summed up in the journal -/
  debugMode : Bool := false
  useCache : Bool := true
  /-- record what each artifact depends on -/
  trackDependencies : Bool := true
  /-- generate only fragments that operations use -/
  skipUnusedFragments : Bool := false
  output : OutputOptions := {}
  scalars : ScalarTypes := .standard
  naming : Naming.Conventions := {}
  hooks : List Hook := []
  templateDir : Option TemplateDir := none

/-- The templates that code is laid out by: the user's take precedence. -/
def Options.templates (o : Options) : Script.Templates :=
  match o.templateDir with
  | none => .standard
  | some d => d.templates.complete

end ResponseTypes
