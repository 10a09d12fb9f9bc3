import ResponseTypes.Proofs.Shape.Keys

/-!
# Unordered keys

The key of a shape orders the branches of unions by their written forms, but not the parts of intersections.
`Shape.unorderedKey` orders these as well; what it says of an object, a union or an intersection is what it says of the
fields, branches or parts, in whatever order they stand.
-/

namespace ResponseTypes

set_option autoImplicit false

namespace ShapeKey

/-- A key with its items; those that belong to a union or an intersection are sorted. -/
def ofItems : List ShapeKey → ShapeKey
  | [text kind, seq items, note] =>
    if kind = "union" ∨ kind = "intersection" then seq [text kind, seq (sortByPrint items), note]
    else seq [text kind, seq items, note]
  | items => seq items

mutual

/-- The key of a shape with the parts of its intersections in the order of their written forms, as the branches of unions
are. -/
def unordered : ShapeKey → ShapeKey
  | seq items => ofItems (unorderedList items)
  | a => a

/-- Some keys in which the parts of intersections are sorted. -/
def unorderedList : List ShapeKey → List ShapeKey
  | [] => []
  | a :: rest => unordered a :: unorderedList rest

end

theorem unorderedList_eq (keys : List ShapeKey) : unorderedList keys = keys.map unordered := by
  induction keys with
  | nil => rfl
  | cons a rest ih => rw [unorderedList, ih, List.map_cons]

theorem exists_seq_ofItems (items : List ShapeKey) : ∃ items', ofItems items = seq items' := by
  unfold ofItems
  split
  · split <;> exact ⟨_, rfl⟩
  · exact ⟨_, rfl⟩

/-- Items among which no text stands belong to neither a union nor an intersection. -/
theorem ofItems_of_forall_ne {items : List ShapeKey} (h : ∀ a ∈ items, ∃ items', a = seq items') :
    ofItems items = .seq items := by
  unfold ofItems
  split
  · obtain ⟨items', hitems⟩ := h _ List.mem_cons_self
    cases hitems
  · rfl

/-- Nor do items of another number. -/
theorem ofItems_of_length {items : List ShapeKey} (h : items.length ≠ 3) : ofItems items = .seq items := by
  unfold ofItems
  split
  · exact absurd rfl h
  · rfl

end ShapeKey

namespace Shape

open ShapeKey (ofItems_of_forall_ne ofItems_of_length sortByPrint sortByPrint_eq_iff)

/-- The key of a shape in which the parts of intersections are not ordered. -/
def unorderedKey (s : Shape) : ShapeKey :=
  (key false s).unordered

/-- What stands under the keys of some fields. -/
def unorderedFields (fields : Fields) : List (String × ShapeKey) :=
  fields.map fun e => (e.1, unorderedKey e.2)

variable {typeName typeName' : String} {fields fields' : Fields} {l l' : List Shape} {n n' : Note} {a b s : Shape}

theorem unorderedKey_of_key (h : key false a = key false b) : unorderedKey a = unorderedKey b := by
  rw [unorderedKey, h, unorderedKey]

theorem exists_seq_unorderedKey (s : Shape) : ∃ items, unorderedKey s = .seq items := by
  have hkey : ∃ items, key false s = .seq items := by cases s <;> simp [key]
  obtain ⟨items, hitems⟩ := hkey
  rw [unorderedKey, hitems]
  exact ShapeKey.exists_seq_ofItems _

theorem unordered_seq_map_key (shapes : List Shape) {keys : List ShapeKey} (hperm : keys.Perm (shapes.map (key false))) :
    (ShapeKey.seq keys).unordered = .seq (keys.map ShapeKey.unordered) := by
  rw [ShapeKey.unordered, ShapeKey.unorderedList_eq]
  refine ofItems_of_forall_ne fun a ha => ?_
  obtain ⟨b, hb, rfl⟩ := List.mem_map.1 ha
  obtain ⟨s, -, rfl⟩ := List.mem_map.1 (hperm.subset hb)
  exact exists_seq_unorderedKey s

theorem unorderedKey_union : unorderedKey (union l n) =
    .seq [.text "union", .seq (sortByPrint (l.map unorderedKey)), .flag n.nullable] := by
  have hperm : (sortByPrint (l.map (key false))).Perm (l.map (key false)) := Text.sortBy_perm _ _
  have hsort : sortByPrint ((sortByPrint (l.map (key false))).map ShapeKey.unordered) = sortByPrint (l.map unorderedKey) := by
    refine sortByPrint_eq_iff.2 ((hperm.map _).trans ?_)
    rw [List.map_map]
    exact List.Perm.refl _
  rw [unorderedKey, key, listKeys_eq, ShapeKey.unordered, ShapeKey.unorderedList, ShapeKey.unorderedList,
    unordered_seq_map_key l hperm, ← hsort]
  rfl

theorem unorderedKey_inter : unorderedKey (inter l n) =
    .seq [.text "intersection", .seq (sortByPrint (l.map unorderedKey)), .flag n.nullable] := by
  have hmap : l.map unorderedKey = (l.map (key false)).map ShapeKey.unordered := by
    rw [List.map_map]
    rfl
  rw [unorderedKey, key, listKeys_eq, ShapeKey.unordered, ShapeKey.unorderedList, ShapeKey.unorderedList,
    unordered_seq_map_key l (List.Perm.refl _), hmap]
  rfl

theorem unorderedKey_array {element : Shape} {elementNullable : Bool} : unorderedKey (array element elementNullable n) =
    .seq [.text "array", unorderedKey element, .flag elementNullable, .flag n.nullable] := by
  rw [unorderedKey, key, ShapeKey.unordered]
  exact ofItems_of_length (by simp [ShapeKey.unorderedList])

theorem unorderedKey_object : unorderedKey (object typeName fields n) = .seq [.text "object",
    .seq ((sortEntries (unorderedFields fields)).map fun e => .seq [.text e.1, e.2]), .flag n.nullable] := by
  have hsort : (sortEntries (fieldKeys false fields)).map (fun e => (e.1, e.2.unordered)) =
      sortEntries (unorderedFields fields) := by
    have hfields : unorderedFields fields = (fieldKeys false fields).map fun e => (e.1, e.2.unordered) := by
      rw [fieldKeys_eq, List.map_map]
      rfl
    rw [hfields]
    exact Text.map_sortBy fun _ _ _ _ => rfl
  have hitems : (ShapeKey.seq ((sortEntries (fieldKeys false fields)).map fun e => .seq [.text e.1, e.2])).unordered =
      .seq ((sortEntries (unorderedFields fields)).map fun e => .seq [.text e.1, e.2]) := by
    have hitem : ∀ e : String × ShapeKey, (ShapeKey.seq [.text e.1, e.2]).unordered = .seq [.text e.1, e.2.unordered] :=
      fun e => ofItems_of_length (by simp [ShapeKey.unorderedList])
    rw [ShapeKey.unordered, ShapeKey.unorderedList_eq, ← hsort, List.map_map, List.map_map]
    have hmap : (sortEntries (fieldKeys false fields)).map (ShapeKey.unordered ∘ fun e => ShapeKey.seq [.text e.1, e.2]) =
        (sortEntries (fieldKeys false fields)).map ((fun e => ShapeKey.seq [.text e.1, e.2]) ∘ fun e => (e.1, e.2.unordered)) :=
      List.map_congr_left fun e _ => hitem e
    rw [hmap]
    refine ofItems_of_forall_ne fun a ha => ?_
    obtain ⟨e, -, rfl⟩ := List.mem_map.1 ha
    exact ⟨_, rfl⟩
  rw [unorderedKey, key, ShapeKey.unordered, ShapeKey.unorderedList, ShapeKey.unorderedList, hitems]
  rfl

/-! ## What the order of does not matter -/

theorem unorderedKey_object_congr (hn : n.nullable = n'.nullable) (hnodup : (Assoc.keys fields).Nodup)
    (h : (unorderedFields fields).Perm (unorderedFields fields')) :
    unorderedKey (object typeName fields n) = unorderedKey (object typeName' fields' n') := by
  have hkeys : (Assoc.keys (unorderedFields fields)).Nodup := by
    rw [Assoc.keys, unorderedFields, List.map_map]
    exact hnodup
  rw [unorderedKey_object, unorderedKey_object, sortEntries_congr h hkeys, hn]

theorem unorderedKey_union_congr (hn : n.nullable = n'.nullable) (h : (l.map unorderedKey).Perm (l'.map unorderedKey)) :
    unorderedKey (union l n) = unorderedKey (union l' n') := by
  rw [unorderedKey_union, unorderedKey_union, sortByPrint_eq_iff.2 h, hn]

theorem unorderedKey_inter_congr (hn : n.nullable = n'.nullable) (h : (l.map unorderedKey).Perm (l'.map unorderedKey)) :
    unorderedKey (inter l n) = unorderedKey (inter l' n') := by
  rw [unorderedKey_inter, unorderedKey_inter, sortByPrint_eq_iff.2 h, hn]

end Shape

end ResponseTypes
