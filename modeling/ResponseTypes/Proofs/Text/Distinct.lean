import ResponseTypes.Text.Replace
import Mathlib.Data.List.Sort
import Mathlib.Data.String.Basic

/-!
# Distinct and sorted texts

`distinct` and `sorted` keep what texts there are, and the sorted distinct texts depend on nothing else
(`sorted_distinct_congr`).
-/

namespace ResponseTypes.Text

set_option autoImplicit false

variable {α : Type} [BEq α] [LawfulBEq α]

theorem mem_distinct {l : List α} {a : α} : a ∈ distinct l ↔ a ∈ l := by
  induction l with
  | nil => rfl
  | cons b l ih =>
    rw [distinct, List.mem_cons, List.mem_cons, List.mem_filter, ih]
    by_cases h : a = b <;> simp [h]

theorem nodup_distinct (l : List α) : (distinct l).Nodup := by
  induction l with
  | nil => exact List.nodup_nil
  | cons b l ih =>
    rw [distinct, List.nodup_cons]
    refine ⟨fun h => ?_, ih.filter _⟩
    simp at h

/-- One more element is new, or changes nothing. -/
theorem distinct_append_singleton (l : List α) (a : α) :
    distinct (l ++ [a]) = if a ∈ l then distinct l else distinct l ++ [a] := by
  induction l with
  | nil => rfl
  | cons b l ih =>
    rw [List.cons_append, distinct, distinct, ih]
    by_cases hb : a = b
    · subst hb
      split <;> simp
    · by_cases hl : a ∈ l <;> simp [hb, hl]

section Sorting

variable {α β : Type} (le : α → α → Bool)

theorem insertBy_eq (a : α) (l : List α) : insertBy le a l = l.orderedInsert (fun a b => le a b = true) a := by
  induction l with
  | nil => rfl
  | cons b rest ih => rw [insertBy, List.orderedInsert_cons, ih]

theorem sortBy_eq (l : List α) : sortBy le l = l.insertionSort fun a b => le a b = true := by
  induction l with
  | nil => rfl
  | cons a rest ih =>
    rw [List.insertionSort_cons, ← ih, ← insertBy_eq]
    rfl

theorem sortBy_perm (l : List α) : (sortBy le l).Perm l :=
  sortBy_eq le l ▸ List.perm_insertionSort _ l

variable {le}

theorem pairwise_sortBy (htrans : ∀ a b c, le a b = true → le b c = true → le a c = true)
    (htotal : ∀ a b, (le a b || le b a) = true) (l : List α) : (sortBy le l).Pairwise fun a b => le a b = true := by
  have : IsTrans α fun a b => le a b = true := ⟨htrans⟩
  have : Std.Total fun a b => le a b = true := ⟨fun a b => (Bool.or_eq_true _ _).mp (htotal a b)⟩
  exact sortBy_eq le l ▸ List.pairwise_insertionSort _ l

theorem map_sortBy {le' : β → β → Bool} {f : α → β} {l : List α} (h : ∀ a ∈ l, ∀ b ∈ l, le a b = le' (f a) (f b)) :
    (sortBy le l).map f = sortBy le' (l.map f) := by
  rw [sortBy_eq, sortBy_eq]
  exact List.map_insertionSort _ _ f l fun a ha b hb => by rw [h a ha b hb]

end Sorting

/-- Sorting keeps all texts. -/
theorem mem_sorted {l : List String} {a : String} : a ∈ sorted l ↔ a ∈ l :=
  (sortBy_perm _ _).mem_iff

theorem pairwise_sorted (l : List String) : (sorted l).Pairwise (· ≤ ·) := by
  have htrans : ∀ a b c : String, decide (a ≤ b) = true → decide (b ≤ c) = true → decide (a ≤ c) = true :=
    fun _ _ _ hab hbc => decide_eq_true (le_trans (of_decide_eq_true hab) (of_decide_eq_true hbc))
  have htotal : ∀ a b : String, (decide (a ≤ b) || decide (b ≤ a)) = true := fun a b => by simpa using le_total a b
  exact (pairwise_sortBy htrans htotal l).imp of_decide_eq_true

/-- Lists with the same elements are sorted the same, if elements in the same place are the same. -/
theorem sortBy_congr {α : Type} (le : α → α → Bool) (htrans : ∀ a b c, le a b = true → le b c = true → le a c = true)
    (htotal : ∀ a b, (le a b || le b a) = true) {l l' : List α} (h : l.Perm l')
    (hplaces : ∀ a ∈ l, ∀ b ∈ l, le a b = true → le b a = true → a = b) : sortBy le l = sortBy le l' := by
  have hsorted : (sortBy le l).Perm (sortBy le l') := (sortBy_perm le l).trans (h.trans (sortBy_perm le l').symm)
  refine hsorted.eq_of_pairwise (fun a b ha hb => hplaces a ?_ b ?_) (pairwise_sortBy htrans htotal l)
    (pairwise_sortBy htrans htotal l')
  · exact (sortBy_perm le l).mem_iff.1 ha
  · exact h.mem_iff.2 ((sortBy_perm le l').mem_iff.1 hb)

/-- Sorted texts depend on what texts there are, and how often. -/
theorem sorted_congr {l l' : List String} (h : l.Perm l') : sorted l = sorted l' :=
  sortBy_congr _ (fun _ _ _ hab hbc => by simpa using le_trans (of_decide_eq_true hab) (of_decide_eq_true hbc))
    (fun a b => by simpa using le_total a b) h
    fun _ _ _ _ hab hba => le_antisymm (of_decide_eq_true hab) (of_decide_eq_true hba)

/-- Sorted texts without repetitions depend on what texts there are. -/
theorem sorted_distinct_congr {l l' : List String} (h : ∀ x, x ∈ l ↔ x ∈ l') :
    sorted (distinct l) = sorted (distinct l') := by
  refine sorted_congr ((List.perm_ext_iff_of_nodup (nodup_distinct l) (nodup_distinct l')).2 fun x => ?_)
  rw [mem_distinct, mem_distinct, h]

end ResponseTypes.Text
