import ResponseTypes.Options.Basic
import ResponseTypes.Options.Setting
import ResponseTypes.Text.Case

/-!
# Validating options

`Options.ofSetting` reads options from a setting.  The first setting that does not fit is reported: those that are
known in the order of the fields of `Options`, and then those that are not.
-/

namespace ResponseTypes

set_option autoImplicit false

/-- A check of a setting: its value, or what is wrong with it. -/
abbrev Check (α : Type) := Setting → Except String α

namespace Check

/-- The truth value that a text stands for, in any letter case. -/
def boolOfText? (s : String) : Option Bool :=
  let s := String.ofList (Text.lower s.toList)
  if ["0", "off", "f", "false", "n", "no"].contains s then some false
  else if ["1", "on", "t", "true", "y", "yes"].contains s then some true
  else none

/-- The truth value that a number stands for. -/
def boolOfInt? (n : Int) : Option Bool :=
  if n = 0 then some false else if n = 1 then some true else none

/-- Words of 64 bits with a sign hold whole numbers from its opposite up to, and without, this one. -/
def wordBound : Int := 0x8000000000000000

def notBool : String := "Input should be a valid boolean"

def unreadableBool : String := notBool ++ ", unable to interpret input"

/-- Truth values, also as numbers and texts.  A number that is too large for a word is no truth value of any kind. -/
def bool : Check Bool
  | .bool b => .ok b
  | .int n => if -wordBound ≤ n && n < wordBound then (boolOfInt? n).elim (.error unreadableBool) .ok else .error notBool
  | .text s => (boolOfText? s).elim (.error unreadableBool) .ok
  | .decimal d =>
    match d.whole?.filter (fun n => -wordBound < n && n < wordBound) with
    | some n => (boolOfInt? n).elim (.error unreadableBool) .ok
    | none => .error notBool
  | _ => .error notBool

def text : Check String
  | .text s => .ok s
  | _ => .error "Input should be a valid string"

/-- The path of a directory or nothing, given which templates stand in directories.  The empty path leads to none. -/
def templateDir (held : String → Script.Overrides) : Check (Option TemplateDir)
  | .null => .ok none
  | s => (text s).map (fun path => some ⟨path, if path = "" then {} else held path⟩)

def nullableStyle : Check NullableStyle
  | .text s => (NullableStyle.ofName? s).elim (.error "Input should be 'optional', 'null' or 'maybe'") .ok
  | _ => .error "Input should be 'optional', 'null' or 'maybe'"

def arrayShape : Check String := fun s => do
  let shape ← text s
  if Text.occursIn arrayPlaceholder.toList (arrayTemplate shape).toList then return shape
  else throw ("Value error, must be \"Array\", \"[]\" or contain " ++ arrayPlaceholder)

/-- Entries whose values are texts; others keep the fallback type. -/
def scalars : Check ScalarTypes
  | .object entries =>
    .ok (entries.foldl (fun types e => Assoc.insert types e.1 (match e.2 with
      | .text s => s
      | _ => ScalarTypes.fallback)) .standard)
  | _ => .error "Input should be an instance of ScalarRegistry"

def naming : Check Naming.Conventions
  | .naming c => .ok c
  | _ => .error "Input should be an instance of NamingConventions"

def hooks : Check (List Hook)
  | .list items => items.mapM (fun
    | .hook h => .ok h
    | s => .error ("Value error, " ++ s.print ++ " does not implement post_generate()"))
  | _ => .error "Input should be a valid list"

end Check

/-- Settings by name, at a dotted path. -/
structure Settings where
  path : List String
  entries : List (String × Setting)

namespace Settings

/-- The failure at a name. -/
def failure (s : Settings) (name reason : String) : Failure :=
  .invalidOption (Text.joinWith "." (s.path ++ [name])) reason

/-- The value of a setting, or a default if it is not given. -/
def get {α : Type} (s : Settings) (name : String) (check : Check α) (default : α) : Except Failure α :=
  match Assoc.get? s.entries name with
  | none => .ok default
  | some setting => (check setting).mapError (s.failure name)

/-- Fails at the first setting whose name is not known. -/
def onlyKnown (s : Settings) (known : List String) : Except Failure Unit :=
  match s.entries.find? (fun e => !known.contains e.1) with
  | some e => .error (s.failure e.1 "Extra inputs are not permitted")
  | none => .ok ()

end Settings

namespace OutputOptions

/-- The names of the settings. -/
def names : List String :=
  ["nullable_field", "array_shape", "empty_object", "non_optional_typename", "merge_typenames", "type_comment",
    "field_description", "sort_properties"]

/-- Reads options from settings. -/
def ofSettings (s : Settings) : Except Failure OutputOptions := do
  let nullableField ← s.get "nullable_field" Check.nullableStyle .optional
  let arrayShape ← s.get "array_shape" Check.arrayShape "Array"
  let emptyObject ← s.get "empty_object" Check.text "object"
  let alwaysTag ← s.get "non_optional_typename" Check.bool false
  let mergeTags ← s.get "merge_typenames" Check.bool true
  let typeComment ← s.get "type_comment" Check.bool true
  let fieldDescription ← s.get "field_description" Check.bool true
  let sortProperties ← s.get "sort_properties" Check.bool false
  s.onlyKnown names
  return { nullableField, arrayShape, emptyObject, alwaysTag, mergeTags, typeComment, fieldDescription, sortProperties }

/-- Reads options from a setting at a path. -/
def ofSetting (path : List String) : Setting → Except Failure OutputOptions
  | .object entries => ofSettings ⟨path, entries⟩
  | _ => .error (.invalidOption (Text.joinWith "." path)
      "Input should be a valid dictionary or instance of OutputOptions")

end OutputOptions

namespace Options

/-- The names of the settings. -/
def names : List String :=
  ["debug_mode", "use_cache", "dependency_tracking", "skip_unused_fragments", "output", "scalars", "naming", "hooks",
    "template_dir"]

/-- Reads options from settings, given which templates stand in directories. -/
def ofSettings (held : String → Script.Overrides) (s : Settings) : Except Failure Options := do
  let debugMode ← s.get "debug_mode" Check.bool false
  let useCache ← s.get "use_cache" Check.bool true
  let trackDependencies ← s.get "dependency_tracking" Check.bool true
  let skipUnusedFragments ← s.get "skip_unused_fragments" Check.bool false
  let output ← match Assoc.get? s.entries "output" with
    | none => .ok {}
    | some setting => OutputOptions.ofSetting (s.path ++ ["output"]) setting
  let scalars ← s.get "scalars" Check.scalars .standard
  let naming ← s.get "naming" Check.naming {}
  let hooks ← s.get "hooks" Check.hooks []
  let templateDir ← s.get "template_dir" (Check.templateDir held) none
  s.onlyKnown names
  return { debugMode, useCache, trackDependencies, skipUnusedFragments, output, scalars, naming, hooks, templateDir }

/-- Reads options from a setting, given which templates stand in directories; one that says nothing gives the defaults. -/
def ofSetting (held : String → Script.Overrides) (setting : Setting) : Except Failure Options :=
  if setting.isEmpty then .ok {}
  else match setting with
    | .object entries => ofSettings held ⟨[], entries⟩
    | _ => .error (.invalidOption "" "Input should be a valid dictionary or instance of GeneratorOptions")

end Options

end ResponseTypes
