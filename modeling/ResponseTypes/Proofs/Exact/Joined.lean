import ResponseTypes.Proofs.Exact.Partition

/-!
# Finishing what is joined

`joinParts` puts an object together from fields that were moved, fields that were not, and references.  Finishing such an object
finishes the fields and leaves the references (`answer_finish_joinParts`).
-/

namespace ResponseTypes.Compile

set_option autoImplicit false

open Shape (objectOf?)

variable {fieldsOf : String → Option Fields} {fields : Fields} {depth : Nat} {s : Shape}

/-- One shape from parts. -/
def joinAll (typeName : String) : List Shape → Shape
  | [] => .object typeName [] {}
  | [s] => s
  | parts => .inter parts {}

theorem joinParts_eq (typeName : String) (moved remaining : Fields) (kept : List (FragmentRef × Note)) :
    joinParts typeName moved remaining kept = joinAll typeName ((objectOf? typeName moved).toList ++
      (objectOf? typeName remaining).toList ++ kept.map fun r => .ref r.1 r.2) := by
  unfold joinParts
  generalize (objectOf? typeName moved).toList ++ (objectOf? typeName remaining).toList ++
    kept.map (fun r => Shape.ref r.1 r.2) = parts
  match parts with
  | [] | [_] | _ :: _ :: _ => rfl

theorem answer_finishList_append {l l' r : List Shape} (h : (finishList depth (l ++ l')).answer fieldsOf = .ok r) :
    ∃ a b, (finishList depth l).answer fieldsOf = .ok a ∧ (finishList depth l').answer fieldsOf = .ok b ∧ r = a ++ b := by
  induction l generalizing r with
  | nil => exact ⟨[], r, rfl, h, rfl⟩
  | cons s rest ih =>
    rw [List.cons_append, finishList_cons] at h
    obtain ⟨s', hs', h⟩ := Query.answer_bind_ok h
    obtain ⟨r', hr', h⟩ := Query.answer_bind_ok h
    cases h
    obtain ⟨a, b, ha, hb, rfl⟩ := ih hr'
    refine ⟨s' :: a, b, ?_, hb, rfl⟩
    rw [finishList_cons, Query.answer_bind, hs']
    dsimp only
    rw [Query.answer_bind, ha]
    rfl

theorem answer_finishList_refs (kept : List (FragmentRef × Note)) :
    (finishList depth (kept.map fun r => .ref r.1 r.2)).answer fieldsOf = .ok (kept.map fun r => .ref r.1 r.2) := by
  induction kept with
  | nil =>
    rw [List.map_nil, finishList_nil]
    rfl
  | cons r rest ih =>
    rw [List.map_cons, finishList_cons, Query.answer_bind, finishWithin_ref]
    dsimp only [pure, Query.answer]
    rw [Query.answer_bind, ih]
    rfl

theorem keys_finishFields {fs : Fields} (h : (finishFields depth fields).answer fieldsOf = .ok fs) :
    Assoc.keys fs = Assoc.keys fields := by
  induction fields generalizing fs with
  | nil =>
    rw [finishFields_nil] at h
    cases h
    rfl
  | cons e rest ih =>
    obtain ⟨key, s⟩ := e
    rw [finishFields_cons] at h
    obtain ⟨s', -, h⟩ := Query.answer_bind_ok h
    obtain ⟨fs', hfs', h⟩ := Query.answer_bind_ok h
    cases h
    rw [Assoc.keys_cons, Assoc.keys_cons, ih hfs']

theorem answer_finishList_objectOf? {typeName : String} {l : List Shape} (hown : ∀ e ∈ fields, isFragmentKey e.1 = false)
    (h : (finishList depth (objectOf? typeName fields).toList).answer fieldsOf = .ok l) :
    ∃ fs, (finishFields depth fields).answer fieldsOf = .ok fs ∧ l = (objectOf? typeName fs).toList := by
  cases fields with
  | nil =>
    refine ⟨[], rfl, ?_⟩
    change (finishList depth []).answer fieldsOf = .ok l at h
    rw [finishList_nil] at h
    cases h
    rfl
  | cons e rest =>
    change (finishList depth [.object typeName (e :: rest) {}]).answer fieldsOf = .ok l at h
    rw [finishList_cons] at h
    obtain ⟨u, hu, h⟩ := Query.answer_bind_ok h
    obtain ⟨more, hmore, h⟩ := Query.answer_bind_ok h
    rw [finishList_nil] at hmore
    cases hmore
    cases h
    obtain ⟨fs, hfs, rfl⟩ := answer_finish_object hown hu
    refine ⟨fs, hfs, ?_⟩
    have hkeys := keys_finishFields hfs
    cases fs with
    | nil => cases hkeys
    | cons => rfl

theorem answer_finish_joinAll {typeName : String} {parts : List Shape}
    (h : (finishWithin depth (joinAll typeName parts)).answer fieldsOf = .ok s) :
    ∃ parts', (finishList depth parts).answer fieldsOf = .ok parts' ∧ s = joinAll typeName parts' := by
  match parts with
  | [] =>
    refine ⟨[], rfl, ?_⟩
    obtain ⟨fs, hfs, rfl⟩ := answer_finish_object (List.forall_mem_nil _) h
    rw [finishFields_nil] at hfs
    cases hfs
    rfl
  | [p] =>
    refine ⟨[s], ?_, rfl⟩
    rw [finishList_cons, Query.answer_bind, show (finishWithin depth p).answer fieldsOf = .ok s from h]
    dsimp only
    rw [finishList_nil]
    rfl
  | p :: q :: rest =>
    change (finishWithin depth (.inter (p :: q :: rest) {})).answer fieldsOf = .ok s at h
    rw [finishWithin_inter] at h
    obtain ⟨parts', hparts, h⟩ := Query.answer_bind_ok h
    cases h
    refine ⟨parts', hparts, ?_⟩
    rw [finishList_cons] at hparts
    obtain ⟨p', -, hparts⟩ := Query.answer_bind_ok hparts
    obtain ⟨more, hmore, hparts⟩ := Query.answer_bind_ok hparts
    rw [finishList_cons] at hmore
    obtain ⟨q', -, hmore⟩ := Query.answer_bind_ok hmore
    obtain ⟨rest', -, hmore⟩ := Query.answer_bind_ok hmore
    cases hmore
    cases hparts
    rfl

/-- Finishing what is joined finishes the fields and leaves the references. -/
theorem answer_finish_joinParts {typeName : String} {moved remaining : Fields} {kept : List (FragmentRef × Note)}
    (hmoved : ∀ e ∈ moved, isFragmentKey e.1 = false) (hremaining : ∀ e ∈ remaining, isFragmentKey e.1 = false)
    (h : (finishWithin depth (joinParts typeName moved remaining kept)).answer fieldsOf = .ok s) :
    ∃ moved' remaining', (finishFields depth moved).answer fieldsOf = .ok moved' ∧
      (finishFields depth remaining).answer fieldsOf = .ok remaining' ∧ s = joinParts typeName moved' remaining' kept := by
  rw [joinParts_eq] at h
  obtain ⟨parts, hparts, rfl⟩ := answer_finish_joinAll h
  obtain ⟨objects, refs, hobjects, hrefs, rfl⟩ := answer_finishList_append hparts
  obtain ⟨a, b, ha, hb, rfl⟩ := answer_finishList_append hobjects
  obtain ⟨moved', hmoved', rfl⟩ := answer_finishList_objectOf? hmoved ha
  obtain ⟨remaining', hremaining', rfl⟩ := answer_finishList_objectOf? hremaining hb
  cases (answer_finishList_refs kept).symm.trans hrefs
  exact ⟨moved', remaining', hmoved', hremaining', (joinParts_eq ..).symm⟩

end ResponseTypes.Compile
