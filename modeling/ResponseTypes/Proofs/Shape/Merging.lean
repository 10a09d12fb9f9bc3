import ResponseTypes.Proofs.Shape.Branches
import ResponseTypes.Proofs.Shape.Fits

/-!
# How shapes meet

Two shapes that are merged are joined as one scalar, tag, object, array or reference, or they become the branches of a union
(`Unites`) or the parts of an intersection (`Crosses`).  `meeting` says that there is no other way, and `mergeWith_unites`
and `mergeWith_crosses` say what is made in the last two.  From that follows that it does not matter how deep `mergeAt`
may go, if it is deep enough (`mergeAt_eq`): `merge` merges what its objects and arrays hold by itself (`merge_eq`).
-/

namespace ResponseTypes.Shape

set_option autoImplicit false

/-- Shapes that become the branches of a union when they are merged. -/
def Unites : Shape → Shape → Prop
  | scalar code _, scalar code' _ => code ≠ code'
  | tag t _, tag t' _ => uniteTags t t' = none
  | object _ _ _, object _ _ _ | array _ _ _, array _ _ _ => False
  | inter _ _, _ | _, inter _ _ | ref _ _, _ | _, ref _ _ => False
  | _, _ => True

/-- Shapes that become the parts of an intersection when they are merged. -/
def Crosses : Shape → Shape → Prop
  | ref r _, ref r' _ => r.artifact ≠ r'.artifact
  | ref _ _, object _ _ _ | object _ _ _, ref _ _ => False
  | inter _ _, _ | _, inter _ _ | ref _ _, _ | _, ref _ _ => True
  | _, _ => False

/-- The ways in which two shapes can be merged. -/
inductive Meeting : Shape → Shape → Prop
  | scalars {code : String} {n n' : Note} : Meeting (scalar code n) (scalar code n')
  | tags {t t' u : TypeTag} {n n' : Note} : uniteTags t t' = some u → Meeting (tag t n) (tag t' n')
  | objects {typeName typeName' : String} {fields fields' : Fields} {n n' : Note} :
      Meeting (object typeName fields n) (object typeName' fields' n')
  | arrays {element element' : Shape} {elementNullable elementNullable' : Bool} {n n' : Note} :
      Meeting (array element elementNullable n) (array element' elementNullable' n')
  | refs {r r' : FragmentRef} {n n' : Note} : r.artifact = r'.artifact → Meeting (ref r n) (ref r' n')
  | objectRef {typeName : String} {fields : Fields} {r : FragmentRef} {n n' : Note} :
      Meeting (object typeName fields n) (ref r n')
  | refObject {typeName : String} {fields : Fields} {r : FragmentRef} {n n' : Note} :
      Meeting (ref r n) (object typeName fields n')
  | union {a b : Shape} : Unites a b → Meeting a b
  | inter {a b : Shape} : Crosses a b → Meeting a b

/-- The branches of a shape that joins a union with another one.  Scalars leave it to the union whether a value may be
missing. -/
def branchesBeside : Shape → Shape → List Shape
  | scalar code n, scalar _ _ => [(scalar code n).withNullable false]
  | s, _ => flatBranches s

/-- The parts of a shape in an intersection. -/
def parts : Shape → List Shape
  | inter parts _ => parts
  | s => [s]

variable {below below' : Shape → Shape → Shape} {a b s : Shape} {l acc : List Shape} {k : Nat}

theorem meeting (a b : Shape) : Meeting a b := by
  cases a <;> cases b
  case scalar.scalar code n code' n' =>
    by_cases h : code = code'
    · exact h ▸ .scalars
    · exact .union h
  case tag.tag t n t' n' =>
    cases h : uniteTags t t' with
    | none => exact .union h
    | some u => exact .tags h
  case ref.ref r n r' n' =>
    by_cases h : r.artifact = r'.artifact
    · exact .refs h
    · exact .inter h
  all_goals first
    | exact .objects
    | exact .arrays
    | exact .objectRef
    | exact .refObject
    | exact .union trivial
    | exact .inter trivial

theorem Unites.symm (h : Unites a b) : Unites b a := by
  cases a <;> cases b
  case scalar.scalar code n code' n' => exact Ne.symm h
  case tag.tag t n t' n' =>
    obtain ⟨names, within⟩ := t
    obtain ⟨names', within'⟩ := t'
    cases within <;> cases within' <;> simp_all [Unites, uniteTags, eq_comm]
  all_goals exact h

theorem Crosses.symm (h : Crosses a b) : Crosses b a := by
  cases a <;> cases b
  case ref.ref r n r' n' => exact Ne.symm h
  all_goals exact h

theorem unifyWith_eq (below : Shape → Shape → Shape) (shapes : List Shape) :
    unifyWith below shapes = addBranches below [] (flatList shapes) :=
  rfl

/-- A merged value may only be missing if both sides say so. -/
theorem nullable_mergeWith : (mergeWith below a b).nullable = (a.nullable && b.nullable) := by
  unfold mergeWith
  dsimp only
  split
  · split <;> simp [nullable, note, withNote, keepNote]
  · split <;> simp [nullable, note, mergeNotes, keepNote]
  · rfl
  · rfl
  · rfl
  · rfl
  · split <;> simp [nullable, note, withNote, keepNote]
  · unfold mergeMismatched
    dsimp only
    split <;> rfl

theorem flatList_pair (a b : Shape) : flatList [a, b] = flatBranches a ++ flatBranches b := by
  rw [flatList, flatList, flatList, List.append_nil]

/-- What is made of the branches of a union. -/
theorem mergeWith_unites (h : Unites a b) : ∃ n, ∀ below, mergeWith below a b =
    union (addBranches below [] (branchesBeside a b ++ branchesBeside b a)) n := by
  cases a <;> cases b
  case scalar.scalar code n code' n' => exact ⟨_, fun below => if_neg h⟩
  case tag.tag t n t' n' =>
    refine ⟨keepNote n n', fun below => ?_⟩
    have hne : key false (tag t' n') ≠ key false (tag t n) := by
      intro hkey
      obtain ⟨names, within⟩ := t
      obtain ⟨names', within'⟩ := t'
      cases within <;> cases within' <;> simp_all [Unites, uniteTags, key, ShapeKey.ofOption]
    have hadd : addBranches below [] [tag t n, tag t' n'] = [tag t n, tag t' n'] := by
      simp [addBranches, addBranch, occursIn, identical, hne]
    rw [mergeWith]
    simp only [Unites] at h
    rw [h]
    exact congrArg (union · _) hadd.symm
  case union.union branches n branches' n' =>
    exact ⟨_, fun below => congrArg (fun l => union (addBranches below [] l) _) (flatList_append branches branches')⟩
  all_goals first
    | exact h.elim
    | exact ⟨_, fun below => congrArg (fun l => union (addBranches below [] l) _) (flatList_pair _ _)⟩

theorem mergeWith_objectRef {typeName : String} {fields : Fields} {r : FragmentRef} {n n' : Note} :
    mergeWith below (object typeName fields n) (ref r n') =
      object typeName (mergeFieldsWith below fields [(fragmentKey r.artifact, ref r n')]) (mergeNotes n n') :=
  rfl

theorem mergeWith_refObject {typeName : String} {fields : Fields} {r : FragmentRef} {n n' : Note} :
    mergeWith below (ref r n) (object typeName fields n') =
      object typeName (mergeFieldsWith below [(fragmentKey r.artifact, ref r n)] fields) (mergeNotes n n') :=
  rfl

/-- What is made of the parts of an intersection. -/
theorem mergeWith_crosses (h : Crosses a b) : ∃ n, ∀ below, mergeWith below a b = inter (appendParts a.parts b.parts) n := by
  have hpair : ∀ a b : Shape, key false b ≠ key false a → [a, b] = appendParts [a] [b] := by
    intro a b hne
    simp [appendParts, occursIn, identical, hne]
  cases a <;> cases b
  case ref.ref r n r' n' =>
    exact ⟨_, fun below => (if_neg h).trans (congrArg (inter · _) (hpair _ _ (by simp [key, Ne.symm h])))⟩
  all_goals first
    | exact h.elim
    | exact ⟨_, fun below => congrArg (inter · _) (hpair _ _ (by simp [key]))⟩
    | exact ⟨_, fun below => rfl⟩

/-! ## Nesting -/

theorem listNesting_le {shapes : List Shape} : listNesting shapes ≤ k ↔ ∀ s ∈ shapes, s.nesting ≤ k := by
  induction shapes with
  | nil => simp [listNesting]
  | cons s rest ih => rw [List.forall_mem_cons, ← ih, listNesting, Nat.max_le]

theorem fieldsNesting_le {fields : Fields} : fieldsNesting fields ≤ k ↔ ∀ e ∈ fields, e.2.nesting ≤ k := by
  induction fields with
  | nil => simp [fieldsNesting]
  | cons e rest ih => rw [List.forall_mem_cons, ← ih, fieldsNesting, Nat.max_le]

/-- What stands in an object is nested less deep than the object. -/
theorem nesting_object_le {typeName : String} {fields : Fields} {n : Note} :
    nesting (object typeName fields n) ≤ k ↔ 0 < k ∧ ∀ e ∈ fields, e.2.nesting < k := by
  rw [nesting]
  cases k with
  | zero => simp
  | succ k =>
    simp only [Nat.add_le_add_iff_right, fieldsNesting_le, Nat.zero_lt_succ, true_and]
    exact forall_congr' fun e => imp_congr_right fun _ => Nat.lt_succ_iff.symm

theorem nesting_flatBranches (h : a.nesting ≤ k) : ∀ t ∈ flatBranches a, t.nesting ≤ k :=
  forall_flatBranches (fun _ _ => listNesting_le.1) a h

theorem nesting_flatList {shapes : List Shape} (h : listNesting shapes ≤ k) : ∀ t ∈ flatList shapes, t.nesting ≤ k :=
  forall_flatList (fun _ _ => listNesting_le.1) shapes (listNesting_le.1 h)

theorem nesting_branchesBeside (h : a.nesting ≤ k) : ∀ t ∈ branchesBeside a b, t.nesting ≤ k := by
  unfold branchesBeside
  split
  · exact List.forall_mem_singleton.2 h
  · exact nesting_flatBranches h

theorem nesting_parts : (∀ t ∈ a.parts, t.nesting ≤ k) ↔ a.nesting ≤ k := by
  cases a with
  | inter parts n => exact listNesting_le.symm
  | scalar | tag | object | array | union | ref => exact List.forall_mem_singleton

section Layer

variable (hb : ∀ k a b, nesting a ≤ k → nesting b ≤ k → nesting (below a b) ≤ k)

include hb

theorem nesting_mergeFieldsWith {fields fields' : Fields} (h : ∀ e ∈ fields, e.2.nesting < k)
    (h' : ∀ e ∈ fields', e.2.nesting < k) : ∀ e ∈ mergeFieldsWith below fields fields', e.2.nesting < k := by
  refine forall_mergeFieldsWith (P := fun _ s => s.nesting < k) h h' fun _ a b ha hb' => ?_
  exact Nat.lt_of_le_pred (Nat.zero_lt_of_lt ha) (hb _ a b (Nat.le_pred_of_lt ha) (Nat.le_pred_of_lt hb'))

theorem nesting_mergeObjects (ha : a.nesting ≤ k) (hb' : b.nesting ≤ k) : (mergeObjects below a b).nesting ≤ k := by
  unfold mergeObjects
  split
  · rw [nesting_object_le] at ha hb' ⊢
    exact ⟨ha.1, nesting_mergeFieldsWith hb ha.2 hb'.2⟩
  · exact ha

/-- What is merged is nested no deeper than what it is merged of. -/
theorem nesting_mergeWith (ha : a.nesting ≤ k) (hb' : b.nesting ≤ k) : (mergeWith below a b).nesting ≤ k := by
  cases meeting a b with
  | scalars | refs h => simp_all [mergeWith, nesting]
  | tags h => simp [mergeWith, h, nesting]
  | objects => exact nesting_mergeObjects hb ha hb'
  | arrays =>
    obtain ⟨k, rfl⟩ := Nat.exists_eq_add_one_of_ne_zero (Nat.ne_zero_of_lt ha)
    exact Nat.succ_le_succ (hb k _ _ (Nat.le_of_succ_le_succ ha) (Nat.le_of_succ_le_succ hb'))
  | objectRef =>
    rw [nesting_object_le] at ha
    exact nesting_object_le.2 ⟨ha.1, nesting_mergeFieldsWith hb ha.2 (List.forall_mem_singleton.2 ha.1)⟩
  | refObject =>
    rw [nesting_object_le] at hb'
    exact nesting_object_le.2 ⟨hb'.1, nesting_mergeFieldsWith hb (List.forall_mem_singleton.2 hb'.1) hb'.2⟩
  | union h =>
    obtain ⟨n, hn⟩ := mergeWith_unites h
    rw [hn, nesting, listNesting_le]
    exact forall_addBranches (fun _ _ => nesting_mergeObjects hb) (List.forall_mem_nil _)
      (List.forall_mem_append.2 ⟨nesting_branchesBeside ha, nesting_branchesBeside hb'⟩)
  | inter h =>
    obtain ⟨n, hn⟩ := mergeWith_crosses h
    rw [hn, nesting, listNesting_le]
    exact fun t ht => (mem_appendParts ht).elim (nesting_parts.2 ha t) (nesting_parts.2 hb' t)

end Layer

theorem nesting_mergeAt (n : Nat) : ∀ k a b, nesting a ≤ k → nesting b ≤ k → nesting (mergeAt n a b) ≤ k := by
  induction n with
  | zero => exact fun _ _ _ => nesting_mergeWith fun _ _ _ ha _ => ha
  | succ n ih => exact fun _ _ _ => nesting_mergeWith ih

/-! ## Depth -/

section Agree

variable (hb : ∀ k a b, nesting a ≤ k → nesting b ≤ k → nesting (below a b) ≤ k)
  (hagree : ∀ a b, a.nesting < k → b.nesting < k → below a b = below' a b)

include hagree in
theorem mergeFieldsWith_congr {fields fields' : Fields} (h : ∀ e ∈ fields, e.2.nesting < k)
    (h' : ∀ e ∈ fields', e.2.nesting < k) :
    mergeFieldsWith below fields fields' = mergeFieldsWith below' fields fields' := by
  refine congrArg (· ++ _) (List.map_congr_left fun e he => congrArg (Prod.mk e.1) ?_)
  split
  · rename_i s hs
    exact hagree _ _ (h e he) (h' _ (Assoc.mem_of_get? hs))
  · rfl

include hagree in
theorem mergeObjects_congr (ha : a.nesting ≤ k) (hb' : b.nesting ≤ k) : mergeObjects below a b = mergeObjects below' a b := by
  unfold mergeObjects
  split
  · rw [mergeFieldsWith_congr hagree (nesting_object_le.1 ha).2 (nesting_object_le.1 hb').2]
  · rfl

include hb hagree

theorem addBranches_congr (hacc : ∀ t ∈ acc, t.nesting ≤ k) (hl : ∀ t ∈ l, t.nesting ≤ k) :
    addBranches below acc l = addBranches below' acc l := by
  induction l generalizing acc with
  | nil => rfl
  | cons s rest ih =>
    obtain ⟨hs, hrest⟩ := List.forall_mem_cons.1 hl
    have hadd : addBranch below acc s = addBranch below' acc s :=
      addBranch_congr fun first hfirst => mergeObjects_congr hagree (hacc first hfirst) hs
    have hnext : ∀ t ∈ addBranch below acc s, t.nesting ≤ k :=
      forall_addBranches (l := [s]) (fun _ _ => nesting_mergeObjects hb) hacc (List.forall_mem_singleton.2 hs)
    exact (ih hnext hrest).trans (congrArg (addBranches below' · rest) hadd)

/-- Merging depends only on how what is nested less deep is merged. -/
theorem mergeWith_congr (ha : a.nesting ≤ k) (hb' : b.nesting ≤ k) : mergeWith below a b = mergeWith below' a b := by
  cases meeting a b with
  | scalars | refs h => simp_all [mergeWith]
  | tags h => simp only [mergeWith, h]
  | objects => exact mergeObjects_congr hagree ha hb'
  | arrays => simp only [mergeWith, hagree _ _ ha hb']
  | objectRef =>
    rw [nesting_object_le] at ha
    exact congrArg (object _ · _) (mergeFieldsWith_congr hagree ha.2 (List.forall_mem_singleton.2 ha.1))
  | refObject =>
    rw [nesting_object_le] at hb'
    exact congrArg (object _ · _) (mergeFieldsWith_congr hagree (List.forall_mem_singleton.2 hb'.1) hb'.2)
  | union h =>
    obtain ⟨n, hn⟩ := mergeWith_unites h
    rw [hn, hn, addBranches_congr hb hagree (List.forall_mem_nil _)
      (List.forall_mem_append.2 ⟨nesting_branchesBeside ha, nesting_branchesBeside hb'⟩)]
  | inter h =>
    obtain ⟨n, hn⟩ := mergeWith_crosses h
    rw [hn, hn]

end Agree

/-- Merging may go deeper than it needs to. -/
theorem mergeAt_succ {n : Nat} (ha : a.nesting ≤ n) (hb : b.nesting ≤ n) : mergeAt (n + 1) a b = mergeAt n a b := by
  induction n generalizing a b with
  | zero => exact mergeWith_congr (nesting_mergeAt 0) (fun _ _ h _ => absurd h (Nat.not_lt_zero _)) ha hb
  | succ n ih =>
    exact mergeWith_congr (nesting_mergeAt (n + 1))
      (fun _ _ hx hy => ih (Nat.le_of_lt_succ hx) (Nat.le_of_lt_succ hy)) ha hb

/-- How deep merging may go does not matter if it is deep enough. -/
theorem mergeAt_eq {n : Nat} (ha : a.nesting ≤ n) (hb : b.nesting ≤ n) : mergeAt n a b = merge a b := by
  obtain ⟨m, rfl⟩ := Nat.exists_eq_add_of_le (Nat.max_le.2 ⟨ha, hb⟩)
  have ha' : ∀ m, a.nesting ≤ max a.nesting b.nesting + m := fun m => Nat.le_add_right_of_le (Nat.le_max_left _ _)
  have hb' : ∀ m, b.nesting ≤ max a.nesting b.nesting + m := fun m => Nat.le_add_right_of_le (Nat.le_max_right _ _)
  clear ha hb
  induction m with
  | zero => rfl
  | succ m ih => exact (mergeAt_succ (ha' m) (hb' m)).trans ih

/-- What the objects and arrays of two shapes hold is merged as shapes are. -/
theorem merge_eq (a b : Shape) : merge a b = mergeWith merge a b := by
  have ha : a.nesting ≤ max a.nesting b.nesting := Nat.le_max_left _ _
  have hb : b.nesting ≤ max a.nesting b.nesting := Nat.le_max_right _ _
  rw [← mergeAt_eq (Nat.le_succ_of_le ha) (Nat.le_succ_of_le hb)]
  exact mergeWith_congr (nesting_mergeAt _) (fun _ _ hx hy => mergeAt_eq (Nat.le_of_lt hx) (Nat.le_of_lt hy)) ha hb

theorem nesting_merge (k : Nat) (a b : Shape) : a.nesting ≤ k → b.nesting ≤ k → (merge a b).nesting ≤ k :=
  nesting_mergeAt _ k a b

@[simp] theorem nullable_merge : (merge a b).nullable = (a.nullable && b.nullable) := by
  rw [merge_eq, nullable_mergeWith]

/-- The branches of a union are merged as shapes are. -/
theorem unify_eq (shapes : List Shape) : unify shapes = addBranches merge [] (flatList shapes) := by
  refine addBranches_congr (k := listNesting shapes) (nesting_mergeAt _) (fun _ _ hx hy => ?_) (List.forall_mem_nil _)
    (nesting_flatList (Nat.le_refl _))
  exact mergeAt_eq (Nat.le_pred_of_lt hx) (Nat.le_pred_of_lt hy)

/-- Induction on how deep the deeper of two shapes is nested. -/
theorem induction_nesting {P : Shape → Shape → Prop}
    (h : ∀ k a b, a.nesting ≤ k → b.nesting ≤ k → (∀ x y, x.nesting < k → y.nesting < k → P x y) → P a b)
    (a b : Shape) : P a b := by
  have hk : ∀ k a b, nesting a ≤ k → nesting b ≤ k → P a b := by
    intro k
    induction k with
    | zero => exact fun a b ha hb => h 0 a b ha hb fun _ _ hx => absurd hx (Nat.not_lt_zero _)
    | succ k ih =>
      exact fun a b ha hb => h _ a b ha hb fun x y hx hy => ih x y (Nat.le_of_lt_succ hx) (Nat.le_of_lt_succ hy)
  exact hk _ a b (Nat.le_max_left _ _) (Nat.le_max_right _ _)

end ResponseTypes.Shape
