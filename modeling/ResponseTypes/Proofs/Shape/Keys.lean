import ResponseTypes.Proofs.Text.Distinct
import ResponseTypes.Proofs.Text.Quoted
import ResponseTypes.Shape.Key

/-!
# What keys say

The written form of a key says which key it is (`ShapeKey.print_inj`), so that sorting keys by their written forms leaves
nothing of the order they came in (`ShapeKey.sortByPrint_eq_iff`).  Shapes with one key have the same fields, branches and
parts, up to the order of fields and of branches.
-/

namespace ResponseTypes

set_option autoImplicit false

namespace ShapeKey

/-- The characters that the written form of a key may begin with, which tell the kind of key. -/
def firsts : ShapeKey → List Char
  | text _ => ['\'', '"']
  | flag _ => ['T', 'F']
  | absent => ['N']
  | seq _ => ['(']

/-- What a key is written for is read from the written form, whatever follows it. -/
def Told (a : ShapeKey) : Prop :=
  ∀ (b : ShapeKey) (x y : List Char), a.print.toList ++ x = b.print.toList ++ y → a = b ∧ x = y

theorem print_seq_cons (a : ShapeKey) (rest : List ShapeKey) (x : List Char) : (seq (a :: rest)).print.toList ++ x =
    '(' :: (a.print.toList ++ ((if rest = [] then [','] else (printRest rest).toList) ++ ')' :: x)) := by
  cases rest <;> simp [print]

theorem printRest_cons (a : ShapeKey) (rest : List ShapeKey) (x : List Char) : (printRest (a :: rest)).toList ++ x =
    ',' :: ' ' :: (a.print.toList ++ ((printRest rest).toList ++ x)) := by
  simp [printRest]

theorem exists_first (a : ShapeKey) (x : List Char) : ∃ c ∈ a.firsts, ∃ rest, a.print.toList ++ x = c :: rest := by
  cases a with
  | text s =>
    refine ⟨Text.quoteMark s.toList, ?_, _, congrArg (· ++ x) (Text.toList_quoted s)⟩
    simpa [firsts] using Text.quoteMark_cases s.toList
  | flag b =>
    cases b
    · exact ⟨'F', by simp [firsts], _, rfl⟩
    · exact ⟨'T', by simp [firsts], _, rfl⟩
  | absent => exact ⟨'N', by simp [firsts], _, rfl⟩
  | seq items =>
    cases items with
    | nil => exact ⟨'(', by simp [firsts], _, rfl⟩
    | cons a rest => exact ⟨'(', by simp [firsts], _, print_seq_cons a rest x⟩

/-- Keys whose written forms are continued to one text are of one kind. -/
theorem exists_first_of_append_eq {a b : ShapeKey} {x y : List Char} (h : a.print.toList ++ x = b.print.toList ++ y) :
    ∃ c, c ∈ a.firsts ∧ c ∈ b.firsts := by
  obtain ⟨c, hc, rest, hrest⟩ := exists_first a x
  obtain ⟨d, hd, rest', hrest'⟩ := exists_first b y
  rw [hrest, hrest'] at h
  exact ⟨c, hc, (List.cons.inj h).1 ▸ hd⟩

theorem print_append_ne (a : ShapeKey) (x y : List Char) : a.print.toList ++ x ≠ ')' :: y := by
  obtain ⟨c, hc, rest, hrest⟩ := exists_first a x
  rw [hrest]
  intro h
  obtain ⟨rfl, -⟩ := List.cons.inj h
  cases a <;> simp [firsts] at hc

/-- The items after the first are read up to the end of the sequence. -/
theorem printRest_append_inj {items items' : List ShapeKey} {x y : List Char} (htold : ∀ a ∈ items, a.Told)
    (h : (printRest items).toList ++ ')' :: x = (printRest items').toList ++ ')' :: y) : items = items' ∧ x = y := by
  induction items generalizing items' with
  | nil =>
    cases items' with
    | nil => exact ⟨rfl, List.tail_eq_of_cons_eq h⟩
    | cons b rest' =>
      rw [printRest_cons] at h
      exact absurd (List.cons.inj h).1 (by decide)
  | cons a rest ih =>
    obtain ⟨ha, hrest⟩ := List.forall_mem_cons.1 htold
    rw [printRest_cons] at h
    cases items' with
    | nil => exact absurd (List.cons.inj h).1 (by decide)
    | cons b rest' =>
      rw [printRest_cons] at h
      obtain ⟨rfl, htail⟩ := ha b _ _ (List.tail_eq_of_cons_eq (List.tail_eq_of_cons_eq h))
      obtain ⟨rfl, hxy⟩ := ih hrest htail
      exact ⟨rfl, hxy⟩

theorem told_seq {items : List ShapeKey} (htold : ∀ a ∈ items, a.Told) : (seq items).Told := by
  intro b x y h
  obtain ⟨c, hc, hfirst⟩ := exists_first_of_append_eq h
  obtain ⟨items', rfl⟩ : ∃ items', b = seq items' := by
    cases b with
    | seq items' => exact ⟨items', rfl⟩
    | text | flag | absent => simp_all [firsts]
  cases items with
  | nil =>
    cases items' with
    | nil => exact ⟨rfl, List.append_cancel_left h⟩
    | cons b rest' =>
      rw [print_seq_cons] at h
      exact absurd (List.tail_eq_of_cons_eq h).symm (print_append_ne b _ x)
  | cons a rest =>
    obtain ⟨ha, hrest⟩ := List.forall_mem_cons.1 htold
    rw [print_seq_cons] at h
    cases items' with
    | nil =>
      exact absurd (List.tail_eq_of_cons_eq h) (print_append_ne a _ y)
    | cons b rest' =>
      rw [print_seq_cons] at h
      obtain ⟨rfl, htail⟩ := ha b _ _ (List.tail_eq_of_cons_eq h)
      cases rest with
      | nil =>
        cases rest' with
        | nil => exact ⟨rfl, by simpa using htail⟩
        | cons c rest' =>
          rw [if_pos rfl, if_neg (List.cons_ne_nil _ _), printRest_cons] at htail
          simp at htail
      | cons c rest =>
        rw [if_neg (List.cons_ne_nil _ _)] at htail
        cases rest' with
        | nil =>
          rw [if_pos rfl, printRest_cons] at htail
          simp at htail
        | cons d rest' =>
          rw [if_neg (List.cons_ne_nil _ _)] at htail
          obtain ⟨hitems, hxy⟩ := printRest_append_inj hrest htail
          exact ⟨by rw [hitems], hxy⟩

theorem told (a : ShapeKey) : a.Told := by
  refine @ShapeKey.rec Told (fun items => ∀ a ∈ items, a.Told) ?_ ?_ ?_ (fun _ => told_seq)
    (List.forall_mem_nil _) (fun _ _ ha hrest => List.forall_mem_cons.2 ⟨ha, hrest⟩) a
  · intro s b x y h
    obtain ⟨c, hc, hfirst⟩ := exists_first_of_append_eq h
    cases b with
    | text t =>
      obtain ⟨rfl, hxy⟩ := Text.quoted_append_inj h
      exact ⟨rfl, hxy⟩
    | flag | absent | seq =>
      simp [firsts] at hc hfirst
      rcases hc with rfl | rfl <;> simp at hfirst
  · intro b b' x y h
    obtain ⟨c, hc, hfirst⟩ := exists_first_of_append_eq h
    cases b' with
    | flag b' => cases b <;> cases b' <;> simp [print] at h ⊢ <;> exact h
    | text | absent | seq =>
      simp [firsts] at hc hfirst
      rcases hc with rfl | rfl <;> simp at hfirst
  · intro b x y h
    obtain ⟨c, hc, hfirst⟩ := exists_first_of_append_eq h
    cases b with
    | absent => exact ⟨rfl, List.append_cancel_left h⟩
    | text | flag | seq => simp_all [firsts]

/-- No two keys are written the same. -/
theorem print_inj {a b : ShapeKey} (h : a.print = b.print) : a = b :=
  (told a b [] [] (by rw [h])).1

/-- Sorting keys leaves which keys there are, and how often, and nothing else. -/
theorem sortByPrint_eq_iff {keys keys' : List ShapeKey} : sortByPrint keys = sortByPrint keys' ↔ keys.Perm keys' := by
  have hperm : ∀ keys : List ShapeKey, (sortByPrint keys).Perm keys := fun keys => Text.sortBy_perm _ keys
  refine ⟨fun h => (hperm keys).symm.trans (h ▸ hperm keys'), fun h => ?_⟩
  refine Text.sortBy_congr _ (fun _ _ _ hab hbc => ?_) (fun a b => ?_) h fun _ _ _ _ hab hba => print_inj ?_
  · simpa using le_trans (of_decide_eq_true hab) (of_decide_eq_true hbc)
  · simpa using le_total a.print b.print
  · exact le_antisymm (of_decide_eq_true hab) (of_decide_eq_true hba)

end ShapeKey

namespace Shape

variable {typeName typeName' : String} {fields fields' : Fields} {l l' : List Shape} {n n' : Note} {ignoreTags : Bool}

theorem fieldKeys_eq (ignoreTags : Bool) (fields : Fields) : fieldKeys ignoreTags fields =
    fields.map fun e => (e.1, if ignoreTags && e.2.isTag then anyTag else key false e.2) := by
  induction fields with
  | nil => rfl
  | cons e rest ih => rw [fieldKeys, ih, List.map_cons]

theorem listKeys_eq (shapes : List Shape) : listKeys shapes = shapes.map (key false) := by
  induction shapes with
  | nil => rfl
  | cons s rest ih => rw [listKeys, ih, List.map_cons]

theorem sortEntries_perm {α : Type} (entries : List (String × α)) : (sortEntries entries).Perm entries :=
  Text.sortBy_perm _ entries

/-- Sorting entries with distinct keys leaves which entries there are, and nothing else. -/
theorem sortEntries_congr {α : Type} {entries entries' : List (String × α)} (h : entries.Perm entries')
    (hnodup : (Assoc.keys entries).Nodup) : sortEntries entries = sortEntries entries' := by
  refine Text.sortBy_congr _ (fun _ _ _ hab hbc => ?_) (fun a b => ?_) h fun a ha b hb hab hba => ?_
  · simpa using le_trans (of_decide_eq_true hab) (of_decide_eq_true hbc)
  · simpa using le_total a.1 b.1
  · exact List.inj_on_of_nodup_map hnodup ha hb (le_antisymm (of_decide_eq_true hab) (of_decide_eq_true hba))

/-- Objects with one key have the same fields. -/
theorem fieldKeys_perm
    (h : key ignoreTags (object typeName fields n) = key ignoreTags (object typeName' fields' n')) :
    (fieldKeys ignoreTags fields).Perm (fieldKeys ignoreTags fields') := by
  simp only [key, ShapeKey.seq.injEq, List.cons.injEq, true_and, and_true] at h
  have hsorted : sortEntries (fieldKeys ignoreTags fields) = sortEntries (fieldKeys ignoreTags fields') := by
    refine List.map_injective_iff.2 ?_ h.1
    rintro ⟨k, a⟩ ⟨k', a'⟩ heq
    simpa using heq
  exact (sortEntries_perm _).symm.trans ((List.Perm.of_eq hsorted).trans (sortEntries_perm _))

theorem perm_of_key_object (h : key false (object typeName fields n) = key false (object typeName' fields' n')) :
    (fields.map fun e => (e.1, key false e.2)).Perm (fields'.map fun e => (e.1, key false e.2)) := by
  simpa [fieldKeys_eq] using fieldKeys_perm h

/-- Unions with one key have the same branches. -/
theorem perm_of_key_union (h : key false (union l n) = key false (union l' n')) :
    (l.map (key false)).Perm (l'.map (key false)) := by
  simp only [key, listKeys_eq, ShapeKey.seq.injEq, List.cons.injEq, true_and, and_true] at h
  exact ShapeKey.sortByPrint_eq_iff.1 h.1

/-- Intersections with one key have the same parts in the same order. -/
theorem map_eq_of_key_inter (h : key false (inter l n) = key false (inter l' n')) : l.map (key false) = l'.map (key false) := by
  simp only [key, listKeys_eq, ShapeKey.seq.injEq, List.cons.injEq, true_and, and_true] at h
  exact h.1

end Shape

end ResponseTypes
