import ResponseTypes.Compile.Finish
import ResponseTypes.Proofs.Plan.Refs

/-!
# What finishing asks for

If the names that a shape refers to are in `L`, and those that the fields of fragments in `L` refer to, then finishing the
shape asks for the fields of such fragments alone (`Query.Within`) and brings in no other name.
-/

namespace ResponseTypes.Compile

set_option autoImplicit false

open Shape (Leaves RefsIn ListRefsIn FieldRefsIn fieldRefsIn_iff listRefsIn_iff)

namespace Query

variable {α β : Type} {R : String → Prop} {fieldsOf : String → Option Fields}

/-- The query asks for fragments that satisfy `R` and comes to a result that satisfies `P`, if to any. -/
def Within (R : String → Prop) (fieldsOf : String → Option Fields) (P : α → Prop) : Query α → Prop
  | done a => P a
  | lack _ => True
  | .fields fragment next => R fragment ∧ ∀ answer, fieldsOf fragment = some answer → (next answer).Within R fieldsOf P

theorem within_bind {q : Query α} {f : α → Query β} {P : α → Prop} {Q : β → Prop} (hq : q.Within R fieldsOf P)
    (hf : ∀ a, P a → (f a).Within R fieldsOf Q) : (q >>= f).Within R fieldsOf Q := by
  change (q.bind f).Within R fieldsOf Q
  induction q with
  | done a => exact hf a hq
  | lack e => trivial
  | fields fragment next ih => exact ⟨hq.1, fun answer h => ih answer (hq.2 answer h)⟩

theorem within_pure {a : α} {P : α → Prop} (h : P a) : (pure a : Query α).Within R fieldsOf P :=
  h

theorem answer_bind (q : Query α) (f : α → Query β) :
    (q >>= f).answer fieldsOf = match q.answer fieldsOf with
      | .error e => .error e
      | .ok a => (f a).answer fieldsOf := by
  change (q.bind f).answer fieldsOf = _
  induction q with
  | done a => rfl
  | lack e => rfl
  | fields fragment next ih =>
    simp only [bind, answer]
    cases fieldsOf fragment with
    | none => rfl
    | some found => exact ih found

theorem answer_bind_ok {q : Query α} {f : α → Query β} {b : β} (h : (q >>= f).answer fieldsOf = .ok b) :
    ∃ a, q.answer fieldsOf = .ok a ∧ (f a).answer fieldsOf = .ok b := by
  rw [answer_bind] at h
  cases hq : q.answer fieldsOf with
  | error e => simp [hq] at h
  | ok a => exact ⟨a, rfl, by simpa [hq] using h⟩

theorem within_answer {q : Query α} {P : α → Prop} (hq : q.Within R fieldsOf P) {a : α}
    (ha : q.answer fieldsOf = .ok a) : P a := by
  induction q with
  | done b =>
    cases ha
    exact hq
  | lack e => cases ha
  | fields fragment next ih =>
    simp only [answer] at ha
    cases hf : fieldsOf fragment with
    | none => simp [hf] at ha
    | some found => exact ih found (hq.2 found hf) (by simpa [hf] using ha)

/-- Queries are within what they ask for, and what is known of their answers. -/
theorem within_of_answer {q : Query α} {P : α → Prop} (hq : q.Within R fieldsOf fun _ => True)
    (h : ∀ a, q.answer fieldsOf = .ok a → P a) : q.Within R fieldsOf P := by
  induction q with
  | done a => exact h a rfl
  | lack e => trivial
  | fields fragment next ih =>
    refine ⟨hq.1, fun found hf => ih found (hq.2 found hf) fun a ha => h a ?_⟩
    simpa only [answer, hf] using ha

/-- The answer depends on the fragments that are asked for. -/
theorem answer_congr {fieldsOf' : String → Option Fields} {q : Query α} {P : α → Prop} (hq : q.Within R fieldsOf P)
    (h : ∀ fragment, R fragment → fieldsOf fragment = fieldsOf' fragment) :
    q.answer fieldsOf = q.answer fieldsOf' := by
  induction q with
  | done a => rfl
  | lack e => rfl
  | fields fragment next ih =>
    simp only [answer, ← h fragment hq.1]
    cases hf : fieldsOf fragment with
    | none => rfl
    | some found => exact ih found (hq.2 found hf)

end Query

open Query (within_bind within_pure)

/-- The names that the fields of fragments in `L` refer to are in `L`. -/
def Closed (L : Leaves) (fieldsOf : String → Option Fields) : Prop :=
  ∀ fragment fields, L.Fragment fragment → fieldsOf fragment = some fields → FieldRefsIn L fields

variable {L : Leaves} {fieldsOf : String → Option Fields}

mutual

theorem flatFields_within (closed : Closed L fieldsOf) (s : Shape) (h : s.RefsIn L) :
    (flatFields s).Within L.Fragment fieldsOf (FieldRefsIn L) := by
  match s, h with
  | .scalar _ _, _ | .tag _ _, _ | .array _ _ _, _ => exact within_pure trivial
  | .object _ fields _, h => exact flatOwnFields_within closed [] fields trivial h
  | .ref r _, h => exact ⟨⟨_, h⟩, fun fields hf => closed r.fragment fields ⟨_, h⟩ hf⟩
  | .union branches _, h => exact flatFieldsOfAll_within closed [] branches trivial h
  | .inter parts _, h => exact flatFieldsOfAll_within closed [] parts trivial h

theorem flatOwnFields_within (closed : Closed L fieldsOf) (before : Fields) (fields : List (String × Shape))
    (hb : FieldRefsIn L before) (h : FieldRefsIn L fields) : (flatOwnFields before fields).Within L.Fragment fieldsOf (FieldRefsIn L) := by
  match fields, h with
  | [], _ => exact hb
  | (key, s) :: rest, h =>
    rw [flatOwnFields]
    split
    · exact within_bind (flatFields_within closed s h.1) fun own hown =>
        flatOwnFields_within closed _ rest (Shape.fieldRefsIn_mergeFields hb hown) h.2
    · exact within_bind (q := pure [(key, s)]) (P := FieldRefsIn L) ⟨h.1, trivial⟩ fun own hown =>
        flatOwnFields_within closed _ rest (Shape.fieldRefsIn_mergeFields hb hown) h.2

theorem flatFieldsOfAll_within (closed : Closed L fieldsOf) (before : Fields) (shapes : List Shape)
    (hb : FieldRefsIn L before) (h : ListRefsIn L shapes) : (flatFieldsOfAll before shapes).Within L.Fragment fieldsOf (FieldRefsIn L) := by
  match shapes, h with
  | [], _ => exact hb
  | s :: rest, h =>
    exact within_bind (flatFields_within closed s h.1) fun own hown =>
      flatFieldsOfAll_within closed _ rest (Shape.fieldRefsIn_mergeFields hb hown) h.2

end

theorem fieldMapsOf_within (closed : Closed L fieldsOf) {fields : List (String × Shape)} (h : FieldRefsIn L fields)
    {maps : Shape.FieldMaps} (hmaps : ∀ e ∈ maps, FieldRefsIn L e.2) :
    (fieldMapsOf maps fields).Within L.Fragment fieldsOf fun maps => ∀ e ∈ maps, FieldRefsIn L e.2 := by
  induction fields generalizing maps with
  | nil => exact hmaps
  | cons e rest ih =>
    obtain ⟨key, s⟩ := e
    unfold fieldMapsOf
    split
    · split
      · refine ⟨⟨_, h.1⟩, fun found hfound => ih h.2 fun e he => ?_⟩
        rcases Assoc.mem_insert he with rfl | he
        · exact closed _ found ⟨_, h.1⟩ hfound
        · exact hmaps e he
      · trivial
    · exact ih h.2 hmaps

theorem composeRefs_within (closed : Closed L fieldsOf) (typeName : String) {fields : Fields}
    (h : FieldRefsIn L fields) : (composeRefs typeName fields).Within L.Fragment fieldsOf (RefsIn L) := by
  have hrefs : ∀ r ∈ refsOf fields, L.ref r.1.fragment r.1.artifact := by
    intro r hr
    obtain ⟨e, he, hr⟩ := List.mem_filterMap.1 hr
    have hs := fieldRefsIn_iff.1 h e he
    split at hr
    · split at hr
      · cases hr
        exact hs
      · cases hr
    · cases hr
  have hdirect : FieldRefsIn L (directFields fields) :=
    fieldRefsIn_iff.2 fun e he => fieldRefsIn_iff.1 h e (List.mem_filter.1 he).1
  unfold composeRefs
  refine within_bind (fieldMapsOf_within closed h (by simp)) fun maps hmaps => ?_
  split
  · rename_i s hs
    exact Shape.refsIn_compose hdirect hrefs hmaps hs
  · trivial

mutual

theorem finishWithin_within (closed : Closed L fieldsOf) (depth : Nat) (s : Shape) (h : s.RefsIn L) :
    (finishWithin depth s).Within L.Fragment fieldsOf (RefsIn L) := by
  match s, h with
  | .scalar _ _, h | .tag _ _, h | .ref _ _, h =>
    exact within_pure h
  | .array element _ _, h =>
    rw [finishWithin_array]
    exact within_bind (finishWithin_within closed depth element h) fun s hs => within_pure hs
  | .union branches _, h =>
    rw [finishWithin_union]
    exact within_bind (finishList_within closed depth branches h) fun l hl => within_pure hl
  | .inter parts _, h =>
    rw [finishWithin_inter]
    exact within_bind (finishList_within closed depth parts h) fun l hl => within_pure hl
  | .object typeName fields n, h =>
    rw [finishWithin_object]
    split
    · match depth with
      | 0 => trivial
      | depth + 1 =>
        refine within_bind (composeRefs_within closed typeName h) fun composed hcomposed => ?_
        refine within_bind (finishWithin_within closed depth composed hcomposed) fun s hs => ?_
        exact within_pure ((Shape.refsIn_withNote n s).2 hs)
    · exact within_bind (finishFields_within closed depth fields h) fun fs hfs => within_pure hfs
termination_by (depth, sizeOf s)

theorem finishList_within (closed : Closed L fieldsOf) (depth : Nat) (shapes : List Shape) (h : ListRefsIn L shapes) :
    (finishList depth shapes).Within L.Fragment fieldsOf (ListRefsIn L) := by
  match shapes, h with
  | [], _ =>
    rw [finishList_nil]
    exact within_pure trivial
  | s :: rest, h =>
    rw [finishList_cons]
    refine within_bind (finishWithin_within closed depth s h.1) fun s' hs' => ?_
    exact within_bind (finishList_within closed depth rest h.2) fun l hl => within_pure ⟨hs', hl⟩
termination_by (depth, sizeOf shapes)

theorem finishFields_within (closed : Closed L fieldsOf) (depth : Nat) (fields : List (String × Shape))
    (h : FieldRefsIn L fields) : (finishFields depth fields).Within L.Fragment fieldsOf (FieldRefsIn L) := by
  match fields, h with
  | [], _ =>
    rw [finishFields_nil]
    exact within_pure trivial
  | (key, s) :: rest, h =>
    rw [finishFields_cons]
    refine within_bind (finishWithin_within closed depth s h.1) fun s' hs' => ?_
    exact within_bind (finishFields_within closed depth rest h.2) fun l hl => within_pure ⟨hs', hl⟩
termination_by (depth, sizeOf fields)

end

/-! ## Heights -/

mutual

theorem height_congr {f g : String → Nat} (hfg : ∀ name, L.Fragment name → f name = g name) (s : Shape)
    (h : s.RefsIn L) : height f s = height g s := by
  match s, h with
  | .scalar _ _, _ | .tag _ _, _ => rfl
  | .object _ fields _, h => exact congrArg (· + 1) (fieldsHeight_congr hfg fields h)
  | .array element _ _, h => exact height_congr hfg element h
  | .union branches _, h => exact listHeight_congr hfg branches h
  | .inter parts _, h => exact listHeight_congr hfg parts h
  | .ref r _, h => exact congrArg (· + 1) (hfg r.fragment ⟨_, h⟩)

theorem listHeight_congr {f g : String → Nat} (hfg : ∀ name, L.Fragment name → f name = g name)
    (shapes : List Shape) (h : ListRefsIn L shapes) : listHeight f shapes = listHeight g shapes := by
  match shapes, h with
  | [], _ => rfl
  | s :: rest, h => simp only [listHeight, height_congr hfg s h.1, listHeight_congr hfg rest h.2]

theorem fieldsHeight_congr {f g : String → Nat} (hfg : ∀ name, L.Fragment name → f name = g name)
    (fields : List (String × Shape)) (h : FieldRefsIn L fields) : fieldsHeight f fields = fieldsHeight g fields := by
  match fields, h with
  | [], _ => rfl
  | (key, s) :: rest, h => simp only [fieldsHeight, height_congr hfg s h.1, fieldsHeight_congr hfg rest h.2]

end

end ResponseTypes.Compile
