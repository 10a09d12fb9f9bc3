/-!
# Ordered maps

`Assoc κ α` is a list of keys and values in the order of first insertion.  `insert` gives a known key its new value at
its old place and puts a new key last.  Keys stay distinct under every operation here (`nodup_keys_insert`,
`nodup_keys_erase`).
-/

namespace ResponseTypes

set_option autoImplicit false

/-- Keys with their values, in the order of first insertion. -/
abbrev Assoc (κ α : Type) := List (κ × α)

namespace Assoc

variable {κ α : Type} [DecidableEq κ]

/-- The value of a key. -/
def get? (m : Assoc κ α) (k : κ) : Option α :=
  match m with
  | [] => none
  | (k', a) :: rest => if k' = k then some a else get? rest k

/-- The key has a value. -/
def has (m : Assoc κ α) (k : κ) : Bool :=
  (get? m k).isSome

/-- The keys in order. -/
def keys (m : Assoc κ α) : List κ :=
  m.map Prod.fst

/-- The values in the order of their keys. -/
def values (m : Assoc κ α) : List α :=
  m.map Prod.snd

/-- Gives a key a value: at its place if it has one, and else last. -/
def insert (m : Assoc κ α) (k : κ) (a : α) : Assoc κ α :=
  match m with
  | [] => [(k, a)]
  | (k', a') :: rest => if k' = k then (k', a) :: rest else (k', a') :: insert rest k a

/-- Removes a key and its value. -/
def erase (m : Assoc κ α) (k : κ) : Assoc κ α :=
  m.filter (fun e => !decide (e.1 = k))

/-- The entries that satisfy `p`. -/
def keep (m : Assoc κ α) (p : κ → α → Bool) : Assoc κ α :=
  m.filter (fun e => p e.1 e.2)

/-- A map from pairs in which a key may occur again: its last value counts, at its first place. -/
def ofList (entries : List (κ × α)) : Assoc κ α :=
  entries.foldl (fun m e => insert m e.1 e.2) []

omit [DecidableEq κ] in
@[simp] theorem keys_nil : keys ([] : Assoc κ α) = [] := rfl

omit [DecidableEq κ] in
@[simp] theorem keys_cons (e : κ × α) (m : Assoc κ α) : keys (e :: m) = e.1 :: keys m := rfl

@[simp] theorem get?_nil (k : κ) : get? ([] : Assoc κ α) k = none := rfl

theorem get?_cons (k k' : κ) (a : α) (m : Assoc κ α) :
    get? ((k', a) :: m) k = if k' = k then some a else get? m k := rfl

/-- A key with a value is among the keys. -/
theorem mem_keys_of_get? {m : Assoc κ α} {k : κ} {a : α} (h : get? m k = some a) :
    k ∈ keys m := by
  induction m with
  | nil => simp at h
  | cons e m ih =>
    rw [get?_cons] at h
    by_cases he : e.1 = k
    · simp [he]
    · rw [if_neg he] at h
      simp [ih h]

/-- The value of a key stands with it. -/
theorem mem_of_get? {m : Assoc κ α} {k : κ} {a : α} (h : get? m k = some a) : (k, a) ∈ m := by
  induction m with
  | nil => simp at h
  | cons e m ih =>
    rw [get?_cons] at h
    by_cases he : e.1 = k
    · rw [if_pos he] at h
      rw [← he, ← Option.some.inj h]
      exact List.mem_cons_self
    · rw [if_neg he] at h
      exact List.mem_cons_of_mem e (ih h)

/-- What stands in a map after a value was given to a key. -/
theorem mem_insert {m : Assoc κ α} {k : κ} {a : α} {e : κ × α} (h : e ∈ insert m k a) : e = (k, a) ∨ e ∈ m := by
  induction m with
  | nil =>
    rw [insert, List.mem_singleton] at h
    exact Or.inl h
  | cons e' m ih =>
    rw [insert] at h
    by_cases he : e'.1 = k
    · rw [if_pos he, he] at h
      exact (List.mem_cons.1 h).imp id (List.mem_cons_of_mem e')
    · rw [if_neg he] at h
      rcases List.mem_cons.1 h with h | h
      · exact Or.inr (h ▸ List.mem_cons_self)
      · exact (ih h).imp id (List.mem_cons_of_mem e')

/-- What stands in a map made from pairs is one of them. -/
theorem mem_of_mem_ofList {entries : List (κ × α)} {e : κ × α} (h : e ∈ ofList entries) : e ∈ entries := by
  have go : ∀ (l : List (κ × α)) (m : Assoc κ α),
      e ∈ l.foldl (fun m e => insert m e.1 e.2) m → e ∈ m ∨ e ∈ l := by
    intro l
    induction l with
    | nil => exact fun m h => Or.inl h
    | cons a l ih =>
      intro m h
      rcases ih _ h with h | h
      · rcases mem_insert h with h | h
        · exact Or.inr (h ▸ List.mem_cons_self)
        · exact Or.inl h
      · exact Or.inr (List.mem_cons_of_mem a h)
  exact (go entries [] h).resolve_left List.not_mem_nil

theorem get?_insert_self (m : Assoc κ α) (k : κ) (a : α) : get? (insert m k a) k = some a := by
  induction m with
  | nil => simp [insert, get?]
  | cons e m ih =>
    by_cases h : e.1 = k
    · simp [insert, get?, h]
    · simp [insert, get?, h, ih]

theorem get?_insert_of_ne (m : Assoc κ α) {k k' : κ} (a : α) (h : k ≠ k') :
    get? (insert m k a) k' = get? m k' := by
  induction m with
  | nil => simp [insert, get?, h]
  | cons e m ih =>
    by_cases he : e.1 = k
    · simp [insert, get?, he, h]
    · simp [insert, get?, he, ih]

theorem keys_insert (m : Assoc κ α) (k : κ) (a : α) :
    keys (insert m k a) = if k ∈ keys m then keys m else keys m ++ [k] := by
  induction m with
  | nil => simp [insert, keys]
  | cons e m ih =>
    by_cases h : e.1 = k
    · simp [insert, h, keys]
    · have h' : k ≠ e.1 := fun e' => h e'.symm
      simp only [insert, h, if_false, keys_cons, ih, List.mem_cons, h', false_or]
      split <;> simp

theorem nodup_keys_insert {m : Assoc κ α} (hm : (keys m).Nodup) (k : κ) (a : α) :
    (keys (insert m k a)).Nodup := by
  rw [keys_insert]
  split
  · exact hm
  · rename_i h
    refine List.nodup_append.2 ⟨hm, by simp, ?_⟩
    intro x hx y hy e
    have : y = k := by simpa using hy
    exact h (this ▸ e ▸ hx)

theorem nodup_keys_erase {m : Assoc κ α} (hm : (keys m).Nodup) (k : κ) : (keys (erase m k)).Nodup :=
  hm.sublist (List.Sublist.map _ List.filter_sublist)

end Assoc

end ResponseTypes
