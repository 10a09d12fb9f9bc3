import ResponseTypes.Proofs.Text.Letters

/-!
# Generated names as identifiers

Identifiers are made like names in documents (`isName`).  Pascal case leaves out the underscores that a name starts with, so
that a generated name starts with the first character that is not an underscore (`initial`).  That can be a digit, and a
name of underscores has none: these are the names from which something else than an identifier is made
(`isName_pascal`, `isName_pascal_append`).
-/

namespace ResponseTypes.Naming

set_option autoImplicit false

open GraphQL (isName isNameChar isNameStart)

variable {name root suffix text : String}

/-- The first character that is not an underscore. -/
def initial (name : String) : Option Char :=
  name.toList.find? (· != '_')

/-! ## Characters -/

/-- What the small letters of ASCII have in common with the capitals holds of a character if it does of its small form. -/
theorem of_toLower {P : Char → Bool} (h : ∀ n < 128, P (Char.ofNat n).toLower = P (Char.ofNat n)) (c : Char) :
    P c.toLower = P c := by
  by_cases hc : c.toNat < 128
  · exact of_ascii (P := fun c => P c.toLower = P c) h hc
  · unfold Char.toLower
    rw [dif_neg]
    rintro ⟨-, hle⟩
    rw [UInt32.le_iff_toNat_le] at hle
    exact hc (lt_of_le_of_lt hle (by decide))

theorem isDigit_toLower (c : Char) : c.toLower.isDigit = c.isDigit :=
  of_toLower (P := Char.isDigit) (by decide) c

theorem isNameChar_toLower (c : Char) : isNameChar c.toLower = isNameChar c :=
  of_toLower (P := isNameChar) (by decide) c

theorem isNameStart_of_isNameChar {c : Char} (h : isNameChar c = true) : isNameStart c = !c.isDigit :=
  of_ascii (P := fun c => isNameChar c = true → isNameStart c = !c.isDigit) (by decide) (toNat_lt_of_isNameChar h) h

/-! ## Names -/

/-- A text of characters of names is a name if it starts with one that is no digit. -/
theorem isName_iff (h : ∀ c ∈ text.toList, isNameChar c = true) :
    isName text = true ↔ text.toList.head?.map Char.isDigit = some false := by
  unfold isName
  split
  · simp [*]
  · rename_i c rest htext
    rw [htext, List.forall_mem_cons] at h
    rw [isNameStart_of_isNameChar h.1, List.all_eq_true.2 h.2, htext]
    simp

/-- In front of a name, characters of names make another one unless they start with a digit. -/
theorem isName_append (h : ∀ c ∈ text.toList, isNameChar c = true) (hsuffix : isName suffix = true) :
    isName (text ++ suffix) = true ↔ text.toList.head?.map Char.isDigit ≠ some true := by
  have hchars : ∀ c ∈ (text ++ suffix).toList, isNameChar c = true := by
    intro c hc
    rw [String.toList_append] at hc
    exact (List.mem_append.1 hc).elim (h c) (isNameChar_of_isName hsuffix c)
  rw [isName_iff hchars, String.toList_append]
  cases text.toList with
  | nil => simpa using (isName_iff (isNameChar_of_isName hsuffix)).1 hsuffix
  | cons c rest => simp

theorem isName_append_of_isName (h : isName text = true) (hsuffix : isName suffix = true) :
    isName (text ++ suffix) = true := by
  have hchars := isNameChar_of_isName h
  rw [isName_append hchars hsuffix, (isName_iff hchars).1 h]
  nofun

/-! ## Pascal case -/

theorem isNameChar_pascal (h : isName name = true) : ∀ c ∈ (pascal name).toList, isNameChar c = true := by
  intro c hc
  have hlower : c.toLower ∈ (name.toList.filter (· != '_')).map Char.toLower := by
    rw [← map_toLower_pascal h]
    exact List.mem_map_of_mem hc
  obtain ⟨d, hd, heq⟩ := List.mem_map.1 hlower
  rw [← isNameChar_toLower, ← heq, isNameChar_toLower]
  exact isNameChar_of_isName h d (List.mem_filter.1 hd).1

/-- Up to its case, the first character in pascal case is the first one that is not an underscore, a digit as it is. -/
theorem isDigit_head?_pascal (h : isName name = true) :
    (pascal name).toList.head?.map Char.isDigit = (initial name).map Char.isDigit := by
  have hlower : ((pascal name).toList.head?.map Char.toLower) = (initial name).map Char.toLower := by
    rw [← List.head?_map, map_toLower_pascal h, List.head?_map, List.head?_filter]
    rfl
  have hdigit : Char.isDigit ∘ Char.toLower = Char.isDigit := funext isDigit_toLower
  rw [← hdigit, ← Option.map_map, hlower, Option.map_map]

/-- A name in pascal case is an identifier if it has a character besides underscores and the first of them is no digit. -/
theorem isName_pascal (h : isName name = true) :
    isName (pascal name) = true ↔ (initial name).map Char.isDigit = some false := by
  rw [isName_iff (isNameChar_pascal h), isDigit_head?_pascal h]

/-- With a name behind it, it is one if that first character is no digit. -/
theorem isName_pascal_append (h : isName name = true) (hsuffix : isName suffix = true) :
    isName (pascal name ++ suffix) = true ↔ (initial name).map Char.isDigit ≠ some true := by
  rw [isName_append (isNameChar_pascal h) hsuffix, isDigit_head?_pascal h]

/-! ## Conventions -/

namespace Conventions

theorem isName_operation (h : isName name = true) (hroot : isName root = true) :
    isName (({} : Conventions).operation name root) = true ↔ (initial name).map Char.isDigit ≠ some true := by
  rw [operation, String.empty_append, isName_pascal_append h hroot]

theorem isName_operationVariables (h : isName name = true) (hroot : isName root = true) :
    isName (({} : Conventions).operationVariables name root) = true ↔ (initial name).map Char.isDigit ≠ some true := by
  have hsuffix : isName (root ++ "Variables") = true := isName_append_of_isName hroot (by decide)
  rw [operationVariables, operation, String.empty_append, String.append_assoc, isName_pascal_append h hsuffix]

theorem isName_fragment (h : isName name = true) :
    isName (({} : Conventions).fragment name) = true ↔ (initial name).map Char.isDigit ≠ some true := by
  rw [fragment, String.empty_append, isName_pascal_append h (by decide)]

theorem isName_input (h : isName name = true) :
    isName (({} : Conventions).input name) = true ↔ (initial name).map Char.isDigit ≠ some true := by
  unfold input
  dsimp only
  rw [String.empty_append]
  split
  · rename_i hinput
    -- a name that ends in `Input` already has characters besides underscores
    have hhead : (pascal name).toList.head?.map Char.isDigit ≠ none := by
      intro hnone
      rw [Option.map_eq_none_iff, List.head?_eq_none_iff] at hnone
      rw [hnone] at hinput
      cases hinput
    rw [isName_pascal h, ← isDigit_head?_pascal h]
    rcases hdigit : (pascal name).toList.head?.map Char.isDigit with _ | _ | _ <;> simp_all
  · exact isName_pascal_append h (by decide)

theorem isName_enum (h : isName name = true) :
    isName (({} : Conventions).enum name) = true ↔ (initial name).map Char.isDigit = some false := by
  rw [enum, String.empty_append, isName_pascal h]

/-- Names for which enums get names that are no identifiers. -/
example : ({} : Conventions).enum "_1" = "1" ∧ ({} : Conventions).enum "__" = "" := by decide +kernel

end Conventions

end ResponseTypes.Naming
