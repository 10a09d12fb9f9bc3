import ResponseTypes.Proofs.Plan.Sound
import Mathlib.Algebra.Order.BigOperators.Group.List

/-!
# The order of fragments

A run makes a fragment after those that it spreads, so that what was made can be ranked: fragments spread what stands
lower (`Run.ordered`).  No fragment is reached from itself then (`Ranked.reached_lt`).
-/

namespace ResponseTypes.Compile

set_option autoImplicit false

open GraphQL (TypeRef)

variable {c : Sources} {late : TypeRef → Prop} {stack : Stack} {file : String} {p p' : Progress} {needs : List Need}

/-- The fragments that were made spread fragments that were made and stand lower. -/
def Ranked (c : Sources) (p : Progress) (rank : String → Nat) : Prop :=
  ∀ name, Assoc.has p (fragmentNode name) → ∀ other, Spreads c name other →
    Assoc.has p (fragmentNode other) ∧ rank other < rank name

/-- The fragments that were made can be ranked. -/
def Ordered (c : Sources) (p : Progress) : Prop :=
  ∃ rank, Ranked c p rank

/-- What is reached from a fragment stands lower. -/
theorem Ranked.reached_lt {rank : String → Nat} (h : Ranked c p rank) {name other : String}
    (hname : Assoc.has p (fragmentNode name)) (hr : Reached c (fragmentsIn ((Need.fragment name).needs c)) other) :
    Assoc.has p (fragmentNode other) ∧ rank other < rank name := by
  obtain ⟨first, hfirst, hr⟩ := hr
  induction hr with
  | refl => exact h name hname first (mem_fragmentsIn.1 hfirst)
  | tail _ hs ih =>
    obtain ⟨hother, hlt⟩ := h _ ih.1 _ hs
    exact ⟨hother, hlt.trans ih.2⟩

/-- What is reached from fragments that were made was made. -/
theorem Ordered.reached (h : Ordered c p) {names : List String} {other : String}
    (hnames : ∀ name ∈ names, Assoc.has p (fragmentNode name)) (hr : Reached c names other) :
    Assoc.has p (fragmentNode other) := by
  obtain ⟨rank, hrank⟩ := h
  obtain ⟨name, hname, hr⟩ := hr
  induction hr with
  | refl => exact hnames name hname
  | tail _ hs ih => exact (hrank _ ih _ hs).1

theorem ordered_nil : Ordered c [] :=
  ⟨fun _ => 0, fun _ h => nomatch h⟩

theorem has_append_singleton {node node' : Node} {piece : Piece} :
    Assoc.has (p ++ [(node, piece)]) node' ↔ Assoc.has p node' ∨ node = node' := by
  cases hp : Assoc.get? p node' with
  | some a => simp [Assoc.has, hp, Assoc.get?_append_left hp]
  | none => simp [Assoc.has, hp, Assoc.get?_append_right hp, Assoc.get?_cons]

theorem Need.Done.has_fragment {name : String} (h : (Need.fragment name).Done c late stack p) :
    Assoc.has p (fragmentNode name) := by
  rcases h with h | ⟨type, htype, -⟩
  · exact h
  · cases htype

/-- A fragment stands above all that it spreads. -/
theorem Need.ordered_complete {n : Need} (h : n.complete c file p = .ok p')
    (hneeds : ∀ m ∈ n.needs c, m.Done c late stack p) (hp : Ordered c p) : Ordered c p' := by
  obtain ⟨rank, hrank⟩ := hp
  rcases Need.complete_eq h with ⟨-, rfl⟩ | ⟨node, piece, hnode, -, rfl⟩
  · exact ⟨rank, hrank⟩
  by_cases hold : ∀ name, node = fragmentNode name → Assoc.has p (fragmentNode name)
  · refine ⟨rank, fun name hname other hs => ?_⟩
    have hname' := (has_append_singleton.1 hname).elim id (hold name)
    exact ⟨has_append_singleton.2 (Or.inl (hrank name hname' other hs).1), (hrank name hname' other hs).2⟩
  · obtain ⟨made, rfl, hnew⟩ : ∃ made, node = fragmentNode made ∧ ¬Assoc.has p (fragmentNode made) := by
      simpa using hold
    obtain rfl := Need.eq_fragment_of_node hnode
    have hne : ∀ {name}, Assoc.has p (fragmentNode name) → name ≠ made := fun hname heq => hnew (heq ▸ hname)
    let below := (fragmentsIn ((Need.fragment made).needs c)).map rank
    refine ⟨fun name => if name = made then below.sum + 1 else rank name, fun name hname other hs => ?_⟩
    rcases has_append_singleton.1 hname with hname | heq
    · obtain ⟨hother, hlt⟩ := hrank name hname other hs
      simp only [if_neg (hne hname), if_neg (hne hother)]
      exact ⟨has_append_singleton.2 (Or.inl hother), hlt⟩
    · obtain rfl : made = name := congrArg Prod.snd heq
      have hother := (hneeds _ hs).has_fragment
      have hle : rank other ≤ below.sum := List.le_sum_of_mem (List.mem_map_of_mem (mem_fragmentsIn.2 hs))
      simp only [if_true, if_neg (hne hother)]
      exact ⟨has_append_singleton.2 (Or.inl hother), Nat.lt_succ_of_le hle⟩

/-- A run keeps fragments in order. -/
theorem Run.ordered (h : Run c late stack file p needs (.ok p')) (hp : Ordered c p) : Ordered c p' := by
  generalize ho : Except.ok p' = o at h
  induction h generalizing p' with
  | nil =>
    cases ho
    exact hp
  | later _ _ ih => exact ih hp ho
  | settled _ _ ih => exact ih hp ho
  | circular | broken | lacking => cases ho
  | built _ _ hinner hcomplete _ ih ihr => exact ihr (Need.ordered_complete hcomplete hinner.done (ih hp rfl)) ho

end ResponseTypes.Compile
