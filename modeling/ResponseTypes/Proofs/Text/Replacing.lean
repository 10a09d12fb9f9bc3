import ResponseTypes.Text.Replace
import Mathlib.Data.List.Basic

/-!
# Replacing

`replace` goes through a text from left to right: where the pattern stands it puts the other text and goes on after the
pattern (`replace_of_isPrefix`), and anywhere else it keeps the character (`replace_of_not_isPrefix`).  A pattern of one
character is replaced character by character (`replace_singleton`).
-/

namespace ResponseTypes.Text

set_option autoImplicit false

variable {pattern insert insert' : List Char}

theorem replaceFrom_drop (k : ℕ) (cs : List Char) :
    replaceFrom pattern insert k cs = replaceFrom pattern insert 0 (cs.drop k) := by
  induction cs generalizing k with
  | nil => rw [List.drop_nil]; cases k <;> rfl
  | cons a cs ih =>
    cases k with
    | zero => rfl
    | succ k => exact ih k

/-- Where the pattern comes first, the text that is put in its place does. -/
theorem replace_of_isPrefix (hpattern : pattern ≠ []) {cs : List Char} (h : pattern.isPrefixOf cs = true) :
    replace pattern insert cs = insert ++ replace pattern insert (cs.drop pattern.length) := by
  cases cs with
  | nil => exact absurd (List.prefix_nil.1 (List.isPrefixOf_iff_prefix.1 h)) hpattern
  | cons a cs =>
    unfold replace
    rw [replaceFrom, if_pos h, replaceFrom_drop]
    obtain ⟨p, pattern, rfl⟩ := List.exists_cons_of_ne_nil hpattern
    rfl

/-- Where it does not, the first character stays. -/
theorem replace_of_not_isPrefix {c : Char} {cs : List Char} (h : pattern.isPrefixOf (c :: cs) = false) :
    replace pattern insert (c :: cs) = c :: replace pattern insert cs := by
  unfold replace
  rw [replaceFrom, if_neg (Bool.eq_false_iff.1 h)]

/-- A pattern of one character is replaced character by character. -/
theorem replace_singleton (a : Char) (cs : List Char) :
    replace [a] insert cs = cs.flatMap (fun c => if c = a then insert else [c]) := by
  induction cs with
  | nil => rfl
  | cons c cs ih =>
    rw [List.flatMap_cons, ← ih]
    by_cases hc : c = a
    · subst hc
      rw [if_pos rfl]
      exact replace_of_isPrefix (List.cons_ne_nil _ _) (by simp)
    · rw [if_neg hc]
      exact replace_of_not_isPrefix (by simp [List.isPrefixOf, Ne.symm hc])

/-! ## Lengths -/

theorem length_replaceFrom_le (h : insert.length ≤ insert'.length) (skip : ℕ) (cs : List Char) :
    (replaceFrom pattern insert skip cs).length ≤ (replaceFrom pattern insert' skip cs).length := by
  induction cs generalizing skip with
  | nil => cases skip <;> exact Nat.le_refl _
  | cons a cs ih =>
    cases skip with
    | succ skip => exact ih skip
    | zero =>
      unfold replaceFrom
      split
      · rw [List.length_append, List.length_append]
        exact Nat.add_le_add h (ih _)
      · exact Nat.succ_le_succ (ih 0)

/-- A longer text in the place of one that occurs makes the whole longer. -/
theorem length_replace_lt (hpattern : pattern ≠ []) (h : insert.length < insert'.length) {cs : List Char}
    (hoccurs : occursIn pattern cs = true) : (replace pattern insert cs).length < (replace pattern insert' cs).length := by
  unfold replace
  induction cs with
  | nil => exact absurd (List.isEmpty_iff.1 hoccurs) hpattern
  | cons a cs ih =>
    unfold replaceFrom
    split
    · rw [List.length_append, List.length_append]
      exact Nat.add_lt_add_of_lt_of_le h (length_replaceFrom_le (Nat.le_of_lt h) _ cs)
    · rename_i hfirst
      rw [occursIn, Bool.or_eq_true] at hoccurs
      exact Nat.succ_lt_succ (ih (hoccurs.resolve_left hfirst))

end ResponseTypes.Text
