import ResponseTypes.Proofs.Exact.Composed
import ResponseTypes.Proofs.Plan.Ensures

/-!
# What queries ensure

`Query.Ensures D P` : if all fields are answered on the terms `D`, then the query lacks what it may lack on them alone, and its
result satisfies `P`.  If all fields that are answered are regular, flattening and finishing a regular shape ensure that the
result is regular, and meet no failure of the books: every fragment key holds a reference, and the fields of all that is
composed are there (`composeRefs_ensures`).
-/

namespace ResponseTypes.Compile

set_option autoImplicit false

open Shape (Regular ListRegular FieldsRegular fieldsRegular_iff listRegular_iff)

/-- What a query is answered, by fragment, and what it may lack. -/
structure Query.Terms where
  answers : String → Fields → Prop
  lacks : Lack → Prop

/-- What is answered is regular, and what is lacking may be anything that is no matter of the books. -/
def Query.Terms.regular : Query.Terms :=
  ⟨fun _ => FieldsRegular, Lack.Harmless⟩

namespace Query

variable {D : Query.Terms} {α β : Type} {P : α → Prop} {Q : β → Prop}

/-- Given such answers, the query lacks what it may lack, and comes to a result that satisfies `P`, if to any. -/
def Ensures (D : Query.Terms) (P : α → Prop) : Query α → Prop
  | done a => P a
  | lack e => D.lacks e
  | fields fragment next => ∀ answer, D.answers fragment answer → (next answer).Ensures D P

theorem ensures_bind {q : Query α} {f : α → Query β} (hq : q.Ensures D P) (hf : ∀ a, P a → (f a).Ensures D Q) :
    (q >>= f).Ensures D Q := by
  change (q.bind f).Ensures D Q
  induction q with
  | done a => exact hf a hq
  | lack e => exact hq
  | fields fragment next ih => exact fun answer h => ih answer (hq answer h)

theorem ensures_mono {P' : α → Prop} {q : Query α} (hq : q.Ensures D P) (h : ∀ a, P a → P' a) :
    q.Ensures D P' := by
  induction q with
  | done a => exact h a hq
  | lack e => exact hq
  | fields fragment next ih => exact fun answer ha => ih answer (hq answer ha)

theorem ensures_pure {a : α} (h : P a) : (pure a : Query α).Ensures D P :=
  h

end Query

open Query (ensures_bind ensures_pure)

/-! ## Flattening -/

mutual

theorem flatFields_ensures (s : Shape) (h : s.Regular) : (flatFields s).Ensures .regular FieldsRegular := by
  match s, h with
  | .scalar _ _, _ | .tag _ _, _ | .array _ _ _, _ => exact ensures_pure trivial
  | .object _ fields _, h => exact flatOwnFields_ensures [] fields trivial h
  | .ref r _, _ => exact fun _ h => h
  | .union branches _, h => exact flatFieldsOfAll_ensures [] branches trivial h
  | .inter parts _, h => exact flatFieldsOfAll_ensures [] parts trivial h

theorem flatOwnFields_ensures (before : Fields) (fields : List (String × Shape)) (hb : FieldsRegular before)
    (h : FieldsRegular fields) : (flatOwnFields before fields).Ensures .regular FieldsRegular := by
  match fields, h with
  | [], _ => exact hb
  | (key, s) :: rest, h =>
    rw [flatOwnFields]
    split
    · exact ensures_bind (flatFields_ensures s h.1.2) fun own hown =>
        flatOwnFields_ensures _ rest (Shape.fieldsRegular_mergeFields hb hown) h.2
    · exact ensures_bind (q := pure [(key, s)]) (P := FieldsRegular) ⟨h.1, trivial⟩ fun own hown =>
        flatOwnFields_ensures _ rest (Shape.fieldsRegular_mergeFields hb hown) h.2

theorem flatFieldsOfAll_ensures (before : Fields) (shapes : List Shape) (hb : FieldsRegular before)
    (h : ListRegular shapes) : (flatFieldsOfAll before shapes).Ensures .regular FieldsRegular := by
  match shapes, h with
  | [], _ => exact hb
  | s :: rest, h =>
    exact ensures_bind (flatFields_ensures s h.1) fun own hown =>
      flatFieldsOfAll_ensures _ rest (Shape.fieldsRegular_mergeFields hb hown) h.2

end

/-! ## Composing -/

/-- The fields of some fragments are there, and all that are there are regular. -/
structure Gathered (names : String → Prop) (maps : Shape.FieldMaps) : Prop where
  regular : ∀ e ∈ maps, FieldsRegular e.2
  there : ∀ name, names name → Assoc.has maps name = true

theorem Gathered.insert {names : String → Prop} {maps : Shape.FieldMaps} (h : Gathered names maps) {fields : Fields}
    (hfields : FieldsRegular fields) (name : String) :
    Gathered (fun other => other = name ∨ names other) (Assoc.insert maps name fields) where
  regular e he := by
    rcases Assoc.mem_insert he with rfl | he
    · exact hfields
    · exact h.regular e he
  there other hother := by
    rw [Assoc.has, Assoc.get?_insert]
    split
    · rfl
    · rename_i hne
      exact h.there other (hother.resolve_left (Ne.symm hne))

/-- The fields of all fragments whose references stand among some fields get gathered. -/
theorem fieldMapsOf_ensures {fields : List (String × Shape)} (h : FieldsRegular fields) {names : String → Prop}
    {maps : Shape.FieldMaps} (hmaps : Gathered names maps) :
    (fieldMapsOf maps fields).Ensures .regular
      (Gathered fun name => (∃ r ∈ refsOf fields, r.1.fragment = name) ∨ names name) := by
  induction fields generalizing names maps with
  | nil => exact ⟨hmaps.regular, fun name hname => hmaps.there name (hname.resolve_left (by simp [refsOf]))⟩
  | cons e rest ih =>
    obtain ⟨key, s⟩ := e
    unfold fieldMapsOf
    split
    · rename_i hkey
      obtain ⟨r, n, rfl, -⟩ := Shape.exists_ref_of_refersAs (h.1.1 hkey)
      refine fun answer hanswer => Query.ensures_mono (ih h.2 (hmaps.insert hanswer r.fragment)) fun maps' hmaps' =>
        ⟨hmaps'.regular, fun name hname => hmaps'.there name ?_⟩
      rw [refsOf_cons_ref hkey] at hname
      simpa [or_assoc, eq_comm, or_left_comm] using hname
    · rename_i hkey
      rw [refsOf_cons_of_not hkey]
      exact ih h.2 hmaps

theorem composeRefs_ensures (typeName : String) {fields : Fields} (h : FieldsRegular fields) :
    (composeRefs typeName fields).Ensures .regular Regular := by
  unfold composeRefs
  have hnone : Gathered (fun _ => False) [] := ⟨by simp, by simp⟩
  refine ensures_bind (fieldMapsOf_ensures h hnone) fun maps hmaps => ?_
  split
  · rename_i s hs
    exact Shape.regular_compose (Shape.fieldsRegular_filter h _) hmaps.regular hs
  · rename_i fragment hmissing
    unfold Shape.compose at hmissing
    split at hmissing
    · rename_i r hr
      have hthere := hmaps.there r.1.fragment (Or.inl ⟨r, List.mem_of_find?_eq_some hr, rfl⟩)
      have hmissing := List.find?_some hr
      simp [hthere] at hmissing
    · cases hmissing

/-! ## Finishing -/

mutual

theorem finishWithin_ensures (depth : Nat) (s : Shape) (h : s.Regular) :
    (finishWithin depth s).Ensures .regular fun _ => True := by
  match s, h with
  | .scalar _ _, _ | .tag _ _, _ | .ref _ _, _ =>
    exact ensures_pure trivial
  | .array element _ _, h =>
    rw [finishWithin_array]
    exact ensures_bind (finishWithin_ensures depth element h) fun _ _ => ensures_pure trivial
  | .union branches _, h =>
    rw [finishWithin_union]
    exact ensures_bind (finishList_ensures depth branches h) fun _ _ => ensures_pure trivial
  | .inter parts _, h =>
    rw [finishWithin_inter]
    exact ensures_bind (finishList_ensures depth parts h) fun _ _ => ensures_pure trivial
  | .object typeName fields n, h =>
    rw [finishWithin_object]
    split
    · match depth with
      | 0 => exact fun _ => id
      | depth + 1 =>
        refine ensures_bind (composeRefs_ensures typeName h) fun composed hcomposed => ?_
        exact ensures_bind (finishWithin_ensures depth composed hcomposed) fun _ _ => ensures_pure trivial
    · exact ensures_bind (finishFields_ensures depth fields h) fun _ _ => ensures_pure trivial
termination_by (depth, sizeOf s)

theorem finishList_ensures (depth : Nat) (shapes : List Shape) (h : ListRegular shapes) :
    (finishList depth shapes).Ensures .regular fun _ => True := by
  match shapes, h with
  | [], _ =>
    rw [finishList_nil]
    exact ensures_pure trivial
  | s :: rest, h =>
    rw [finishList_cons]
    refine ensures_bind (finishWithin_ensures depth s h.1) fun _ _ => ?_
    exact ensures_bind (finishList_ensures depth rest h.2) fun _ _ => ensures_pure trivial
termination_by (depth, sizeOf shapes)

theorem finishFields_ensures (depth : Nat) (fields : List (String × Shape)) (h : FieldsRegular fields) :
    (finishFields depth fields).Ensures .regular fun _ => True := by
  match fields, h with
  | [], _ =>
    rw [finishFields_nil]
    exact ensures_pure trivial
  | (key, s) :: rest, h =>
    rw [finishFields_cons]
    refine ensures_bind (finishWithin_ensures depth s h.1.2) fun _ _ => ?_
    exact ensures_bind (finishFields_ensures depth rest h.2) fun _ _ => ensures_pure trivial
termination_by (depth, sizeOf fields)

end

end ResponseTypes.Compile
