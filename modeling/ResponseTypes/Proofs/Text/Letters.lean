import Mathlib.Data.List.TakeWhile
import ResponseTypes.Naming.Conventions
import ResponseTypes.Proofs.GraphQL.Names

/-!
# Letters of names

Pascal case changes the case of letters and leaves out underscores, and nothing else (`letters_pascal`).  So names that
become one name in pascal case have the same `letters`.
-/

namespace ResponseTypes.Naming

set_option autoImplicit false

open GraphQL (isName isNameChar)

/-- A name in small letters, without its underscores. -/
def letters (name : String) : List Char :=
  (name.toList.map Char.toLower).filter (· != '_')

theorem letters_append (a b : String) : letters (a ++ b) = letters a ++ letters b := by
  simp [letters, String.toList_append]

/-! ## Parts -/

section Parts

variable {p q : Char → Bool}

theorem filter_splitCapitalized (cs : List Char) :
    (splitCapitalized cs).filter (· != '_') = cs.filter (· != '_') := by
  fun_induction splitCapitalized cs with
  | case1 => rfl
  | case2 => rfl
  | case3 c d rest small h ih =>
    have hrest : small ++ rest.drop small.length = rest :=
      List.prefix_iff_eq_append.1 (List.takeWhile_prefix isSmall)
    have hcs : c :: d :: rest = c :: d :: small ++ rest.drop small.length := by
      rw [List.cons_append, List.cons_append, hrest]
    rw [List.filter_append, ih, hcs, List.filter_append]
    simp [List.filter_cons]
  | case4 c d rest small h ih => rw [List.filter_cons, List.filter_cons, ih]

theorem filter_splitBetween (cs : List Char) :
    (splitBetween p q cs).filter (· != '_') = cs.filter (· != '_') := by
  fun_induction splitBetween p q cs with
  | case1 => rfl
  | case2 => rfl
  | case3 c d rest h ih => simp [List.filter_cons, ih]
  | case4 c d rest h ih => simp [List.filter_cons, ih]

/-- Putting underscores between words changes no other character. -/
theorem filter_separate (cs : List Char) : (separate cs).filter (· != '_') = cs.filter (· != '_') := by
  rw [separate, filter_splitBetween, filter_splitBetween, filter_splitBetween, filter_splitCapitalized]

/-- The parts of a name are what it has besides gaps. -/
theorem flatten_partsFrom (current cs : List Char) :
    (partsFrom current cs).flatten = current.reverse ++ cs.filter (!isGap ·) := by
  fun_induction partsFrom current cs with
  | case1 current h => simp_all
  | case2 current h => simp
  | case3 current c rest hgap h ih => simp_all
  | case4 current c rest hgap h ih => simp_all
  | case5 current c rest hgap ih => simp_all

end Parts

/-! ## Words -/

/-- What holds of all characters of ASCII. -/
theorem of_ascii {P : Char → Prop} (h : ∀ n < 128, P (Char.ofNat n)) {c : Char} (hc : c.toNat < 128) : P c :=
  Char.ofNat_toNat c ▸ h _ hc

theorem toNat_lt_of_isNameChar {c : Char} (h : isNameChar c = true) : c.toNat < 128 := by
  change (((decide ('A'.val ≤ c.val ∧ c.val ≤ 'Z'.val) || (decide ('a'.val ≤ c.val) && decide (c.val ≤ 'z'.val))) ||
    (decide ('0'.val ≤ c.val) && decide (c.val ≤ '9'.val))) || c == '_') = true at h
  simp only [Bool.or_eq_true, Bool.and_eq_true, decide_eq_true_eq, beq_iff_eq, UInt32.le_iff_toNat_le] at h
  rcases h with ((⟨-, h⟩ | ⟨-, h⟩) | ⟨-, h⟩) | rfl
  · exact lt_of_le_of_lt h (by decide)
  · exact lt_of_le_of_lt h (by decide)
  · exact lt_of_le_of_lt h (by decide)
  · decide

theorem isGap_of_isNameChar {c : Char} (h : isNameChar c = true) : isGap c = (c == '_') := by
  have hword : Text.isWord c = true := by
    unfold Text.isWord
    unfold isNameChar at h
    rw [h, Bool.true_or]
  rw [isGap, hword, Bool.not_true, Bool.or_false]

theorem toLower_ne_underscore {c : Char} (h : c.toNat < 128) : (c.toLower != '_') = (c != '_') :=
  of_ascii (P := fun c => (c.toLower != '_') = (c != '_')) (by decide) h

theorem toLower_toLower {c : Char} (h : c.toNat < 128) : c.toLower.toLower = c.toLower :=
  of_ascii (P := fun c => c.toLower.toLower = c.toLower) (by decide) h

theorem toLower_toUpper_toLower {c : Char} (h : c.toNat < 128) : c.toLower.toUpper.toLower = c.toLower :=
  of_ascii (P := fun c => c.toLower.toUpper.toLower = c.toLower) (by decide) h

theorem toNat_toLower_lt {c : Char} (h : c.toNat < 128) : c.toLower.toNat < 128 :=
  of_ascii (P := fun c => c.toLower.toNat < 128) (by decide) h

theorem lowerAfter_ascii {before : Option Char} {cs : List Char} (h : ∀ c ∈ cs, c.toNat < 128) :
    Text.lowerAfter before cs = cs.map Char.toLower := by
  induction cs generalizing before with
  | nil => rfl
  | cons c rest ih =>
    obtain ⟨hc, hrest⟩ := List.forall_mem_cons.1 h
    have hsigma : ¬c.toNat = 0x3A3 := by omega
    rw [Text.lowerAfter, ih hrest]
    simp [hsigma, Text.lowerChar, hc]

/-- Writing a word with a capital changes no more than the case of its letters. -/
theorem toLower_capitalize {cs : List Char} (h : ∀ c ∈ cs, c.toNat < 128) :
    (Text.capitalize (Text.lower cs)).map Char.toLower = cs.map Char.toLower := by
  rw [Text.lower, lowerAfter_ascii h]
  cases cs with
  | nil => rfl
  | cons c rest =>
    obtain ⟨hc, hrest⟩ := List.forall_mem_cons.1 h
    have hlower : ∀ d ∈ rest.map Char.toLower, d.toNat < 128 := by
      intro d hd
      obtain ⟨e, he, rfl⟩ := List.mem_map.1 hd
      exact toNat_toLower_lt (hrest e he)
    rw [List.map_cons, Text.capitalize, lowerAfter_ascii hlower, Text.titleChar, if_pos (toNat_toLower_lt hc),
      List.singleton_append, List.map_cons, toLower_toUpper_toLower hc, List.map_map, List.map_map]
    refine congrArg _ (List.map_congr_left fun d hd => ?_)
    have hd := hrest d hd
    simp only [Function.comp, toLower_toLower hd]

theorem isNameChar_of_isName {name : String} (h : isName name = true) : ∀ c ∈ name.toList, isNameChar c = true := by
  unfold isName at h
  split at h
  · cases h
  · rename_i c rest heq
    obtain ⟨hstart, hrest⟩ := Bool.and_eq_true_iff.1 h
    rw [heq, List.forall_mem_cons]
    refine ⟨?_, List.all_eq_true.1 hrest⟩
    rw [isNameChar, Char.isAlphanum, Bool.or_assoc, Bool.or_comm c.isDigit, ← Bool.or_assoc]
    exact Bool.or_eq_true_iff.2 (Or.inl hstart)

/-- The parts of a name, one after the other, are the name without its underscores. -/
theorem flatten_parts {cs : List Char} (h : ∀ c ∈ cs, isNameChar c = true) :
    (partsFrom [] (separate cs)).flatten = cs.filter (· != '_') := by
  have hname : ∀ c ∈ separate cs, isNameChar c = true := by
    intro c hc
    by_cases hunderscore : c = '_'
    · rw [hunderscore]
      decide
    · have hmem : c ∈ (separate cs).filter (· != '_') := List.mem_filter.2 ⟨hc, bne_iff_ne.2 hunderscore⟩
      rw [filter_separate] at hmem
      exact h c (List.mem_filter.1 hmem).1
  rw [flatten_partsFrom, ← filter_separate]
  exact List.filter_congr fun c hc => by rw [isGap_of_isNameChar (hname c hc)]; rfl

/-- Up to the case of letters, pascal case is the name without its underscores. -/
theorem map_toLower_pascal {name : String} (h : isName name = true) :
    (pascal name).toList.map Char.toLower = (name.toList.filter (· != '_')).map Char.toLower := by
  have hchars := isNameChar_of_isName h
  have hparts := flatten_parts hchars
  have hword : ∀ w ∈ partsFrom [] (separate name.toList), ∀ c ∈ w, c.toNat < 128 := by
    intro w hw c hc
    have hmem := List.mem_flatten_of_mem hw hc
    rw [hparts] at hmem
    exact toNat_lt_of_isNameChar (hchars c (List.mem_filter.1 hmem).1)
  rw [pascal, String.toList_ofList, words, List.flatMap_map, List.map_flatMap, ← hparts, List.map_flatten, List.flatMap]
  exact congrArg List.flatten (List.map_congr_left fun w hw => toLower_capitalize (hword w hw))

/-- Pascal case keeps all letters and digits. -/
theorem letters_pascal {name : String} (h : isName name = true) : letters (pascal name) = letters name := by
  have hascii : ∀ c ∈ name.toList, c.toNat < 128 := fun c hc => toNat_lt_of_isNameChar (isNameChar_of_isName h c hc)
  have hunderscore : name.toList.filter ((· != '_') ∘ Char.toLower) = name.toList.filter (· != '_') :=
    List.filter_congr fun c hc => toLower_ne_underscore (hascii c hc)
  rw [letters, letters, map_toLower_pascal h, List.filter_map, List.filter_map, hunderscore, List.filter_filter]
  refine congrArg _ (List.filter_congr fun c hc => ?_)
  rw [Function.comp, toLower_ne_underscore (hascii c hc), Bool.and_self]

end ResponseTypes.Naming
