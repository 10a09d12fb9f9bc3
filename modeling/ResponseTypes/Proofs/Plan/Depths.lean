import ResponseTypes.Proofs.Plan.Composing
import ResponseTypes.Proofs.Plan.Run
import ResponseTypes.Proofs.Shape.Heights

/-!
# Finishing comes to an end

A shape is finished as deep as it is high.  If the fields of fragments are as high as they are said to be, that is deep enough:
composing fragments takes one level away each time (`finishWithin_ends`).
-/

namespace ResponseTypes.Compile

set_option autoImplicit false

open Query (ensures_bind ensures_pure)

/-- It is lacking something else than an end. -/
def Lack.Ends (e : Lack) : Prop :=
  ∀ file, e file ≠ .endless

/-- Fragments have the heights `f`. -/
def Query.Terms.level (f : String → Nat) : Query.Terms :=
  ⟨fun fragment => LevelFields f (f fragment), Lack.Ends⟩

variable {f : String → Nat} {k : Nat}

/-! ## Flattening -/

/-- None of the fields is a fragment. -/
def Own (fields : Fields) : Prop :=
  ∀ e ∈ fields, isFragmentKey e.1 = false

theorem level_of_own {fields : Fields} (hown : Own fields) (h : fieldsHeight f fields ≤ k) : LevelFields f k fields := by
  intro e he
  have hheight := fieldsHeight_le.1 h e he
  rw [entryHeight, hown e he] at hheight
  exact ⟨hown e he, hheight⟩

theorem own_mergeFields {a b : Fields} (ha : Own a) (hb : Own b) : Own (Shape.mergeFields a b) := by
  intro e he
  rcases List.mem_append.1 he with he | he
  · obtain ⟨e', he', rfl⟩ := List.mem_map.1 he
    exact ha e' he'
  · exact hb e (List.mem_filter.1 he).1

variable {D : Query.Terms}

mutual

/-- If no fragment is among the fields that are answered, none is among those of a shape. -/
theorem flatFields_own (hD : ∀ fragment answer, D.answers fragment answer → Own answer) (s : Shape) :
    (flatFields s).Ensures D Own := by
  match s with
  | .scalar _ _ | .tag _ _ | .array _ _ _ => exact ensures_pure fun _ he => absurd he List.not_mem_nil
  | .object _ fields _ => exact flatOwnFields_own hD [] fields fun _ he => absurd he List.not_mem_nil
  | .ref r _ => exact hD r.fragment
  | .union branches _ => exact flatFieldsOfAll_own hD [] branches fun _ he => absurd he List.not_mem_nil
  | .inter parts _ => exact flatFieldsOfAll_own hD [] parts fun _ he => absurd he List.not_mem_nil

theorem flatOwnFields_own (hD : ∀ fragment answer, D.answers fragment answer → Own answer) (before : Fields)
    (fields : List (String × Shape)) (hb : Own before) : (flatOwnFields before fields).Ensures D Own := by
  match fields with
  | [] => exact hb
  | (key, s) :: rest =>
    rw [flatOwnFields]
    split
    · exact ensures_bind (flatFields_own hD s) fun own hown => flatOwnFields_own hD _ rest (own_mergeFields hb hown)
    · rename_i hkey
      have hown : Own [(key, s)] := fun e he => by
        rw [List.mem_singleton.1 he]
        exact Bool.eq_false_iff.2 hkey
      exact ensures_bind (q := pure [(key, s)]) (P := Own) hown fun own hown =>
        flatOwnFields_own hD _ rest (own_mergeFields hb hown)

theorem flatFieldsOfAll_own (hD : ∀ fragment answer, D.answers fragment answer → Own answer) (before : Fields)
    (shapes : List Shape) (hb : Own before) : (flatFieldsOfAll before shapes).Ensures D Own := by
  match shapes with
  | [] => exact hb
  | s :: rest =>
    exact ensures_bind (flatFields_own hD s) fun own hown => flatFieldsOfAll_own hD _ rest (own_mergeFields hb hown)

end

/-! ## Composing -/

theorem fieldMapsOf_level {fields : List (String × Shape)} (h : fieldsHeight f fields ≤ k) {maps : Shape.FieldMaps}
    (hmaps : ∀ e ∈ maps, LevelFields f k e.2) :
    (fieldMapsOf maps fields).Ensures (.level f) fun maps => ∀ e ∈ maps, LevelFields f k e.2 := by
  induction fields generalizing maps with
  | nil => exact hmaps
  | cons e rest ih =>
    obtain ⟨key, s⟩ := e
    obtain ⟨hs, hrest⟩ := Nat.max_le.1 h
    unfold fieldMapsOf
    split
    · rename_i hkey
      rw [if_pos hkey] at hs
      split
      · rename_i r n
        intro answer hanswer
        refine ih hrest fun e he => ?_
        rcases Assoc.mem_insert he with rfl | he
        · exact fun e he => ⟨(hanswer e he).1, (hanswer e he).2.trans hs⟩
        · exact hmaps e he
      · exact fun _ h => by cases h
    · exact ih hrest hmaps

theorem level_directFields {fields : Fields} (h : fieldsHeight f fields ≤ k) : LevelFields f k (directFields fields) := by
  refine level_of_own (fun e he => by simpa using (List.mem_filter.1 he).2) (fieldsHeight_le.2 fun e he => ?_)
  exact fieldsHeight_le.1 h e (List.mem_filter.1 he).1

/-- What is composed of some fields is loose. -/
theorem composeRefs_level (typeName : String) {fields : Fields} (h : fieldsHeight f fields ≤ k) :
    (composeRefs typeName fields).Ensures (.level f) (Loose f k) := by
  unfold composeRefs
  refine ensures_bind (fieldMapsOf_level h fun _ he => absurd he List.not_mem_nil) fun maps hmaps => ?_
  split
  · rename_i s hs
    exact loose_compose (level_directFields h) hmaps hs
  · exact fun _ h => by cases h

/-! ## Finishing -/

/-- A query that comes to an end. -/
abbrev Query.Ends (f : String → Nat) {α : Type} (q : Query α) : Prop :=
  q.Ensures (.level f) fun _ => True

mutual

/-- Finishing a shape comes to an end if it may go as deep as the shape is high. -/
theorem finishWithin_ends (depth : Nat) (s : Shape) (h : height f s ≤ depth) : (finishWithin depth s).Ends f := by
  match s with
  | .scalar _ _ | .tag _ _ | .ref _ _ =>
    exact ensures_pure trivial
  | .array element _ _ =>
    rw [finishWithin_array]
    exact ensures_bind (finishWithin_ends depth element h) fun _ _ => ensures_pure trivial
  | .union branches _ =>
    rw [finishWithin_union]
    exact ensures_bind (finishList_ends depth branches h) fun _ _ => ensures_pure trivial
  | .inter parts _ =>
    rw [finishWithin_inter]
    exact ensures_bind (finishList_ends depth parts h) fun _ _ => ensures_pure trivial
  | .object typeName fields n =>
    rw [finishWithin_object]
    split
    · match depth, h with
      | depth + 1, h =>
        refine ensures_bind (composeRefs_level typeName (Nat.le_of_succ_le_succ h)) fun composed hcomposed => ?_
        exact ensures_bind (finishLoose_ends depth composed hcomposed) fun _ _ => ensures_pure trivial
    · rename_i hown
      have hown : ∀ e ∈ fields, isFragmentKey e.1 = false := by simpa using hown
      refine ensures_bind (finishFields_ends depth fields fun e he => ?_) fun _ _ => ensures_pure trivial
      have hheight := fieldsHeight_le.1 (Nat.le_of_succ_le h) e he
      rwa [entryHeight, hown e he] at hheight
termination_by (depth, sizeOf s)

theorem finishLoose_ends (depth : Nat) (s : Shape) (h : Loose f depth s) : (finishWithin depth s).Ends f := by
  match s with
  | .ref r n =>
    rw [finishWithin_ref]
    exact ensures_pure trivial
  | .inter parts _ =>
    obtain _ | _ | h := h
    rw [finishWithin_inter]
    exact ensures_bind (finishLooseList_ends depth parts h) fun _ _ => ensures_pure trivial
  | .object typeName fields n =>
    obtain h | _ | _ := h
    rw [finishWithin_object]
    split
    · rename_i hkey
      obtain ⟨e, he, hkey⟩ := List.any_eq_true.1 hkey
      cases hkey.symm.trans (h e he).1
    · exact ensures_bind (finishFields_ends depth fields fun e he => (h e he).2) fun _ _ => ensures_pure trivial
termination_by (depth, sizeOf s)

theorem finishList_ends (depth : Nat) (shapes : List Shape) (h : listHeight f shapes ≤ depth) :
    (finishList depth shapes).Ends f := by
  match shapes with
  | [] =>
    rw [finishList_nil]
    exact ensures_pure trivial
  | s :: rest =>
    obtain ⟨hs, hrest⟩ := Nat.max_le.1 h
    rw [finishList_cons]
    refine ensures_bind (finishWithin_ends depth s hs) fun _ _ => ?_
    exact ensures_bind (finishList_ends depth rest hrest) fun _ _ => ensures_pure trivial
termination_by (depth, sizeOf shapes)

theorem finishLooseList_ends (depth : Nat) (shapes : List Shape) (h : ∀ s ∈ shapes, Loose f depth s) :
    (finishList depth shapes).Ends f := by
  match shapes with
  | [] =>
    rw [finishList_nil]
    exact ensures_pure trivial
  | s :: rest =>
    obtain ⟨hs, hrest⟩ := List.forall_mem_cons.1 h
    rw [finishList_cons]
    refine ensures_bind (finishLoose_ends depth s hs) fun _ _ => ?_
    exact ensures_bind (finishLooseList_ends depth rest hrest) fun _ _ => ensures_pure trivial
termination_by (depth, sizeOf shapes)

theorem finishFields_ends (depth : Nat) (fields : List (String × Shape)) (h : ∀ e ∈ fields, height f e.2 ≤ depth) :
    (finishFields depth fields).Ends f := by
  match fields with
  | [] =>
    rw [finishFields_nil]
    exact ensures_pure trivial
  | (key, s) :: rest =>
    obtain ⟨hs, hrest⟩ := List.forall_mem_cons.1 h
    rw [finishFields_cons]
    refine ensures_bind (finishWithin_ends depth s hs) fun _ _ => ?_
    exact ensures_bind (finishFields_ends depth rest hrest) fun _ _ => ensures_pure trivial
termination_by (depth, sizeOf fields)

end

end ResponseTypes.Compile
