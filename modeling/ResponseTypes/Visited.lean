import ResponseTypes.Assoc

/-!
# Visited keys

A search through named things that never enters a thing twice ends: with each one that it enters, fewer remain
(`remaining_cons_lt`).
-/

namespace ResponseTypes

set_option autoImplicit false

/-- How many of the keys are not in a list. -/
def remaining (keys visited : List String) : Nat :=
  (keys.filter (fun k => !visited.contains k)).length

/-- One more visited key leaves fewer. -/
theorem remaining_cons_lt {keys visited : List String} {k : String} (hk : k ∈ keys) (hv : k ∉ visited) :
    remaining keys (k :: visited) < remaining keys visited := by
  have sub : ∀ l : List String, remaining l (k :: visited) ≤ remaining l visited := by
    intro l
    induction l with
    | nil => simp [remaining]
    | cons a l ih =>
      simp only [remaining, List.filter_cons] at ih ⊢
      by_cases ha : a ∈ visited
      · simpa [ha] using ih
      · by_cases hak : a = k
        · subst hak
          simp [ha] at ih ⊢
          omega
        · simp [ha, hak] at ih ⊢
          omega
  induction keys with
  | nil => simp at hk
  | cons a l ih =>
    have hl := sub l
    simp only [remaining, List.filter_cons] at ih hl ⊢
    by_cases hak : a = k
    · subst hak
      simp [hv] at hl ⊢
      omega
    · have hk' : k ∈ l := by
        rcases List.mem_cons.1 hk with h | h
        · exact absurd h.symm hak
        · exact h
      have := ih hk'
      by_cases ha : a ∈ visited
      · simpa [ha] using this
      · simp [ha, hak] at this ⊢
        omega

end ResponseTypes
