import Mathlib.Data.String.Basic
import ResponseTypes.Compile.Declared
import ResponseTypes.Options.Validate
import ResponseTypes.Proofs.Text.Replacing
import ResponseTypes.Script.TypeExpr

/-!
# Elements of arrays

An array is written as its template with the element in the place of each placeholder.  If the template starts with the
placeholder, elements with members stand in parentheses there, so that what follows applies to all of them
(`arrayOf_eq_append`, `codeText_list`).  Of the templates that are accepted, those are the only ones in which all elements
that need parentheses have them (`arraysGuarded_iff`).
-/

namespace ResponseTypes

set_option autoImplicit false

/-! ## Templates -/

namespace Script

variable {o : OutputOptions}

/-- The template of arrays starts with the element. -/
def ElementFirst (o : OutputOptions) : Prop :=
  arrayPlaceholder.toList.isPrefixOf (arrayTemplate o.arrayShape).toList = true

instance (o : OutputOptions) : Decidable (ElementFirst o) :=
  inferInstanceAs (Decidable (_ = true))

/-- A type expression, in parentheses if it may have members. -/
def guarded (code : String) : String :=
  if code.toList.contains '|' || code.toList.contains '&' then "(" ++ code ++ ")" else code

/-- The type expression of an element. -/
def elementCode (o : OutputOptions) (depth : Nat) (element : Shape) (nullable : Bool) : String :=
  if nullable then render o depth element ++ " | null" else render o depth element

theorem arrayOf_of_elementFirst (h : ElementFirst o) (element : String) :
    arrayOf o element = Text.replaceIn (arrayTemplate o.arrayShape) arrayPlaceholder (guarded element) := by
  unfold arrayOf guarded
  dsimp only
  rw [show arrayPlaceholder.toList.isPrefixOf _ = true from h, Bool.true_and]

theorem arrayOf_of_not_elementFirst (h : ¬ElementFirst o) (element : String) :
    arrayOf o element = Text.replaceIn (arrayTemplate o.arrayShape) arrayPlaceholder element := by
  unfold arrayOf
  dsimp only
  rw [show arrayPlaceholder.toList.isPrefixOf _ = false from Bool.eq_false_iff.2 h, Bool.false_and]
  rfl

/-- If the template starts with the element, arrays start with the guarded element. -/
theorem arrayOf_eq_append (h : ElementFirst o) (element : String) : ∃ rest, arrayOf o element = guarded element ++ rest := by
  have hpattern : arrayPlaceholder.toList ≠ [] := by decide
  rw [arrayOf_of_elementFirst h, Text.replaceIn, Text.replace_of_isPrefix hpattern h]
  exact ⟨_, by rw [String.ofList_append, String.ofList_toList]⟩

/-- In every array, at whatever depth, the element is guarded where it stands in the place of the placeholder. -/
def ArraysGuarded (o : OutputOptions) : Prop :=
  ∀ depth element nullable n, render o depth (.array element nullable n) =
    Text.replaceIn (arrayTemplate o.arrayShape) arrayPlaceholder (guarded (elementCode o depth element nullable))

/-- The placeholder occurs in every template that is accepted. -/
theorem occurs_of_accepted {setting : Setting} {shape : String} (h : Check.arrayShape setting = .ok shape) :
    Text.occursIn arrayPlaceholder.toList (arrayTemplate shape).toList = true := by
  unfold Check.arrayShape at h
  cases htext : Check.text setting with
  | error reason =>
    rw [htext] at h
    cases h
  | ok given =>
    rw [htext] at h
    change (if _ then _ else _) = _ at h
    split at h
    · rename_i hoccurs
      cases h
      exact hoccurs
    · cases h

/-- Of the templates that are accepted, those that start with the element are the ones that guard all elements. -/
theorem arraysGuarded_iff {setting : Setting} (h : Check.arrayShape setting = .ok o.arrayShape) :
    ArraysGuarded o ↔ ElementFirst o := by
  constructor
  · intro hguarded
    by_contra hfirst
    have hsame : arrayOf o "a | b" = Text.replaceIn (arrayTemplate o.arrayShape) arrayPlaceholder "(a | b)" := by
      have hcode : elementCode o 0 (.scalar "a | b" {}) false = "a | b" := by rw [elementCode, render]; rfl
      have harray := hguarded 0 (.scalar "a | b" {}) false {}
      rw [hcode, show guarded "a | b" = "(a | b)" by decide, render] at harray
      rwa [← hcode]
    rw [arrayOf_of_not_elementFirst hfirst] at hsame
    have hlonger : "a | b".toList.length < "(a | b)".toList.length := by decide
    have hlength := Text.length_replace_lt (by decide) hlonger (occurs_of_accepted h)
    exact Nat.ne_of_lt hlength (congrArg List.length (String.ofList_injective hsame))
  · intro hfirst depth element nullable n
    rw [render]
    exact arrayOf_of_elementFirst hfirst _

end Script

/-- So lists among the types of input values are written, too. -/
theorem Compile.codeText_list {c : Compile.Config} (h : Script.ElementFirst c.output) (t : GraphQL.TypeRef) :
    Compile.codeText c (.list t) = Text.replaceIn (arrayTemplate c.output.arrayShape) arrayPlaceholder
      (Script.guarded (if t.isNonNull then Compile.codeText c t else Script.nullableType c.output (Compile.codeText c t))) := by
  rw [Compile.codeText]
  exact Script.arrayOf_of_elementFirst h _

/-- The array shape `[]` guards all elements, and the template `readonly $T$[]`, which is accepted, does not. -/
example : Script.ElementFirst { arrayShape := "[]" } ∧ ¬Script.ElementFirst { arrayShape := "readonly $T$[]" } ∧
    Check.arrayShape (.text "readonly $T$[]") = .ok "readonly $T$[]" :=
  ⟨by decide, by decide, by rfl⟩

end ResponseTypes
