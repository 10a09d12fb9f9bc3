import ResponseTypes.Proofs.Shape.Normal

/-!
# What shapes describe

A shape is read as a set of values (`Describes`), once it is said what scalars, fragments and the names of abstract types stand
for (`Reading`).  An object shape describes the objects that hold a described value under each of its keys; a field that may be
missing may also be null or left out.  Shapes with one key describe the same values (`describes_of_key`).

Simplifying loses no value of a union in which branches that differ in nothing but tags agree on which of their tags may be
missing (`describes_simplify`).  Where they do not agree, the united tag may not be missing, and a value without it is lost
(`simplify_loses`).
-/

namespace ResponseTypes

set_option autoImplicit false

/-- A value of a response. -/
inductive Value where
  | null
  | scalar (text : String)
  | list (items : List Value)
  | object (entries : List (String × Value))

/-- What stands under a key of an object. -/
def Value.get? : Value → String → Option Value
  | object entries, k => Assoc.get? entries k
  | null, _ | scalar _, _ | list _, _ => none

/-- The values of what shapes only name. -/
structure Reading where
  /-- the values of a scalar, an enum or an input type, by its type expression -/
  scalar : String → Value → Prop
  /-- the values of a fragment's type without the fields that are given elsewhere -/
  fragment : String → Set String → Value → Prop
  /-- the names of the possible types of an abstract type -/
  possible : String → String → Prop

variable {r : Reading}

/-- The name is a value of the tag. -/
def TypeTag.Tells (r : Reading) (t : TypeTag) (name : String) : Prop :=
  match t.within with
  | none => name ∈ t.names
  | some w => r.possible w name ∧ name ∉ t.names

/-- If only the second tag is within an abstract type, the names of the first are possible in it. -/
def TypeTag.CoveredBy (r : Reading) (t t' : TypeTag) : Prop :=
  t.within = none → ∀ w, t'.within = some w → ∀ name ∈ t.names, r.possible w name

namespace Shape

variable {v : Value} {a b s s' x both : Shape} {fields others united : Fields} {l l' acc branches parts : List Shape} {k : String}
  {t t' u : TypeTag} {m m' n n' : Note} {typeName typeName' : String}

mutual

/-- The shape describes the value. -/
def Describes (r : Reading) : Shape → Value → Prop
  | scalar code _, v => r.scalar code v
  | tag t _, v => ∃ name, v = .scalar name ∧ t.Tells r name
  | object _ fields _, v => (∃ entries, v = .object entries) ∧ FieldsDescribe r fields v
  | array element elementNullable _, v =>
    ∃ items, v = .list items ∧ ∀ item ∈ items, Describes r element item ∨ elementNullable = true ∧ item = .null
  | union branches _, v => OneDescribes r branches v
  | inter parts _, v => AllDescribe r parts v
  | ref f _, v => r.fragment f.artifact {k | k ∈ f.omitted} v

/-- One of some shapes describes the value. -/
def OneDescribes (r : Reading) : List Shape → Value → Prop
  | [], _ => False
  | s :: rest, v => Describes r s v ∨ OneDescribes r rest v

/-- All of some shapes describe the value. -/
def AllDescribe (r : Reading) : List Shape → Value → Prop
  | [], _ => True
  | s :: rest, v => Describes r s v ∧ AllDescribe r rest v

/-- The value has each of some fields.  What stands under a fragment key describes the value itself. -/
def FieldsDescribe (r : Reading) : List (String × Shape) → Value → Prop
  | [], _ => True
  | (k, s) :: rest, v =>
    (if isFragmentKey k then Describes r s v
      else (∃ x, v.get? k = some x ∧ Describes r s x) ∨ s.nullable = true ∧ (v.get? k = none ∨ v.get? k = some .null)) ∧
    FieldsDescribe r rest v

end

/-- The value has a field. -/
def FieldDescribes (r : Reading) (k : String) (s : Shape) (v : Value) : Prop :=
  if isFragmentKey k then s.Describes r v
  else (∃ x, v.get? k = some x ∧ s.Describes r x) ∨ s.nullable = true ∧ (v.get? k = none ∨ v.get? k = some .null)

theorem oneDescribes_iff : OneDescribes r l v ↔ ∃ s ∈ l, s.Describes r v := by
  induction l with
  | nil => simp [OneDescribes]
  | cons s rest ih => simp [OneDescribes, ih]

theorem allDescribe_iff : AllDescribe r l v ↔ ∀ s ∈ l, s.Describes r v := by
  induction l with
  | nil => simp [AllDescribe]
  | cons s rest ih => simp [AllDescribe, ih]

theorem fieldsDescribe_iff : FieldsDescribe r fields v ↔ ∀ e ∈ fields, FieldDescribes r e.1 e.2 v := by
  induction fields with
  | nil => simp [FieldsDescribe]
  | cons e rest ih => simp [FieldsDescribe, ih, FieldDescribes]

theorem describes_object : (object typeName fields n).Describes r v ↔
    (∃ entries, v = .object entries) ∧ ∀ e ∈ fields, FieldDescribes r e.1 e.2 v := by
  rw [Describes, fieldsDescribe_iff]

theorem describes_union : (union branches n).Describes r v ↔ ∃ s ∈ branches, s.Describes r v := by
  rw [Describes, oneDescribes_iff]

theorem describes_inter : (inter parts n).Describes r v ↔ ∀ s ∈ parts, s.Describes r v := by
  rw [Describes, allDescribe_iff]

@[simp] theorem describes_withNote : (s.withNote n).Describes r v ↔ s.Describes r v := by
  cases s <;> rfl

/-- A field that describes more values, and may be missing if it could be before, is there still. -/
theorem FieldDescribes.mono (h : FieldDescribes r k s v) (hs : ∀ x, s.Describes r x → s'.Describes r x)
    (hnullable : s.nullable = true → s'.nullable = true) : FieldDescribes r k s' v := by
  unfold FieldDescribes at h ⊢
  split
  · rename_i hk
    rw [if_pos hk] at h
    exact hs v h
  · rename_i hk
    rw [if_neg hk] at h
    exact h.imp (fun ⟨x, hx, hdescribes⟩ => ⟨x, hx, hs x hdescribes⟩) fun h => ⟨hnullable h.1, h.2⟩

/-! ## Shapes with one key -/

theorem nullable_of_key (h : key false a = key false b) : a.nullable = b.nullable := by
  cases a <;> cases b <;> simp_all [key, nullable, note]

/-- Shapes with one key describe the same values. -/
theorem describes_of_key (h : key false a = key false b) (ha : a.Describes r v) : b.Describes r v := by
  induction a using induction generalizing b v with
  | scalar code n =>
    cases b with
    | scalar => simp_all [key, Describes]
    | tag | object | array | union | inter | ref => simp [key] at h
  | tag t n =>
    cases b with
    | tag t' n' =>
      obtain ⟨names, within⟩ := t
      obtain ⟨names', within'⟩ := t'
      simp only [key, ShapeKey.seq.injEq, List.cons.injEq, true_and] at h
      obtain ⟨hnames, hwithin, -⟩ := h
      obtain rfl : names = names' := List.map_injective_iff.2 (fun _ _ => ShapeKey.text.inj) hnames
      obtain rfl : within = within' := by cases within <;> cases within' <;> simp_all [ShapeKey.ofOption]
      exact ha
    | scalar | object | array | union | inter | ref => simp [key] at h
  | object typeName fields n ih =>
    cases b with
    | object typeName' fields' n' =>
      obtain ⟨hobject, hfields⟩ := describes_object.1 ha
      refine describes_object.2 ⟨hobject, fun e' he' => ?_⟩
      obtain ⟨e, he, heq⟩ := List.mem_map.1 ((perm_of_key_object h).symm.subset (List.mem_map_of_mem he'))
      obtain ⟨hfst, hkey⟩ := Prod.mk.inj heq
      have hfield : FieldDescribes r e'.1 e.2 v := hfst ▸ hfields e he
      exact hfield.mono (fun _ => ih e he hkey) fun h => nullable_of_key hkey ▸ h
    | scalar | tag | array | union | inter | ref => simp [key] at h
  | array element elementNullable n ih =>
    cases b with
    | array element' elementNullable' n' =>
      simp only [key, ShapeKey.seq.injEq, List.cons.injEq, true_and, ShapeKey.flag.injEq] at h
      obtain ⟨helement, rfl, -⟩ := h
      obtain ⟨items, rfl, hitems⟩ := ha
      exact ⟨items, rfl, fun item hitem => (hitems item hitem).imp (ih helement) id⟩
    | scalar | tag | object | union | inter | ref => simp [key] at h
  | union branches n ih =>
    cases b with
    | union branches' n' =>
      obtain ⟨s, hs, hdescribes⟩ := describes_union.1 ha
      obtain ⟨s', hs', hkey⟩ := List.mem_map.1 ((perm_of_key_union h).subset (List.mem_map_of_mem hs))
      exact describes_union.2 ⟨s', hs', ih s hs hkey.symm hdescribes⟩
    | scalar | tag | object | array | inter | ref => simp [key] at h
  | inter parts n ih =>
    cases b with
    | inter parts' n' =>
      refine describes_inter.2 fun s' hs' => ?_
      obtain ⟨s, hs, hkey⟩ := List.mem_map.1 (map_eq_of_key_inter h ▸ List.mem_map_of_mem hs')
      exact ih s hs hkey (describes_inter.1 ha s hs)
    | scalar | tag | object | array | union | ref => simp [key] at h
  | ref f n =>
    cases b with
    | ref f' n' =>
      simp only [key, ShapeKey.seq.injEq, List.cons.injEq, true_and, ShapeKey.text.injEq] at h
      obtain ⟨hartifact, homitted, -⟩ := h
      have hsorted := List.map_injective_iff.2 (fun _ _ => ShapeKey.text.inj) homitted
      have hsame : {k | k ∈ f.omitted} = {k | k ∈ f'.omitted} :=
        Set.ext fun k => Text.mem_sorted.symm.trans (hsorted ▸ Text.mem_sorted)
      rwa [Describes, ← hartifact, ← hsame]
    | scalar | tag | object | array | union | inter => simp [key] at h

/-! ## Uniting tags -/

/-- The united tag tells what one of the two does. -/
theorem tells_uniteTags (h : uniteTags t t' = some u) (hcovered : t.CoveredBy r t') (hcovered' : t'.CoveredBy r t)
    {name : String} (htells : t.Tells r name ∨ t'.Tells r name) : u.Tells r name := by
  obtain ⟨names, within⟩ := t
  obtain ⟨names', within'⟩ := t'
  cases within with
  | none =>
    cases within' with
    | none =>
      cases h
      exact Text.mem_sorted.2 (Text.mem_distinct.2 (List.mem_append.2 htells))
    | some w =>
      cases h
      rcases htells with hname | ⟨hpossible, hout⟩
      · have hname : name ∈ names := hname
        exact ⟨hcovered rfl w rfl name hname, fun hout => by simp [hname] at hout⟩
      · exact ⟨hpossible, fun h => hout (List.mem_filter.1 h).1⟩
  | some w =>
    cases within' with
    | none =>
      cases h
      rcases htells with ⟨hpossible, hout⟩ | hname
      · exact ⟨hpossible, fun h => hout (List.mem_filter.1 h).1⟩
      · have hname : name ∈ names' := hname
        exact ⟨hcovered' rfl w rfl name hname, fun hout => by simp [hname] at hout⟩
    | some w' =>
      obtain ⟨rfl, rfl⟩ : w = w' ∧ u = ⟨names.filter names'.contains, some w⟩ := by simp_all [uniteTags]
      rcases htells with ⟨hpossible, hout⟩ | ⟨hpossible, hout⟩
      · exact ⟨hpossible, fun h => hout (List.mem_filter.1 h).1⟩
      · exact ⟨hpossible, fun h => hout (List.contains_iff_mem.1 (List.mem_filter.1 h).2)⟩

/-- What covers or is covered by both tags, covers or is covered by the united one. -/
theorem coveredBy_uniteTags (h : uniteTags t t' = some u) {t'' : TypeTag} (ht : t.CoveredBy r t'') (ht' : t'.CoveredBy r t'') :
    u.CoveredBy r t'' := by
  intro hwithin w hw name hname
  rw [within_uniteTags h, Option.or_eq_none_iff] at hwithin
  obtain ⟨names, within⟩ := t
  obtain ⟨names', within'⟩ := t'
  obtain ⟨rfl, rfl⟩ := hwithin
  cases h
  rcases List.mem_append.1 (Text.mem_distinct.1 (Text.mem_sorted.1 hname)) with hname | hname
  · exact ht rfl w hw name hname
  · exact ht' rfl w hw name hname

theorem uniteTags_coveredBy (h : uniteTags t t' = some u) {t'' : TypeTag} (ht : t''.CoveredBy r t) (ht' : t''.CoveredBy r t') :
    t''.CoveredBy r u := by
  intro hwithin w hw name hname
  rw [within_uniteTags h, Option.or_eq_some_iff] at hw
  rcases hw with hw | ⟨-, hw⟩
  · exact ht hwithin w hw name hname
  · exact ht' hwithin w hw name hname

/-! ## Branches that agree -/

/-- If the branches differ in nothing but tags, those under one key agree on whether they may be missing, and the one covers the
other. -/
def Agree (r : Reading) (a b : Shape) : Prop :=
  key true a = key true b → ∀ k t n t' n', (k, tag t n) ∈ a.fields → (k, tag t' n') ∈ b.fields →
    n.nullable = n'.nullable ∧ t.CoveredBy r t'

/-- Any two of some branches agree. -/
def AllAgree (r : Reading) (branches : List Shape) : Prop :=
  ∀ a ∈ branches, ∀ b ∈ branches, Agree r a b

/-- Branches agree whose tags are for possible types of one abstract type, if no tag may be missing, or all may. -/
theorem agree_of_branches {schema : Schema} {w : String} (hpossible : ∀ name ∈ schema.possible w, r.possible w name)
    (ha : Branch schema w a) (hb : Branch schema w b) {nullable : Bool}
    (hnullable : ∀ k t n, (k, tag t n) ∈ a.fields ∨ (k, tag t n) ∈ b.fields → n.nullable = nullable) : Agree r a b := by
  intro _ k t n t' n' ht ht'
  refine ⟨(hnullable k t n (Or.inl ht)).trans (hnullable k t' n' (Or.inr ht')).symm, fun _ w' hw name hname => ?_⟩
  obtain rfl : w' = w := by
    rcases (hb.tags k t' ⟨n', ht'⟩).within with hnone | hsome
    · exact absurd (hw.symm.trans hnone) (Option.some_ne_none w')
    · exact Option.some.inj (hw.symm.trans hsome)
  exact hpossible name ((ha.tags k t ⟨n, ht⟩).names name hname)

/-- What is asked of a shape so that simplifying loses nothing: the simplified branches of each union agree. -/
def agreeing (r : Reading) : Form where
  branches branches := AllAgree r (branches.map simplify)

theorem AllAgree.subset (h : AllAgree r l) (hl : l' ⊆ l) : AllAgree r l' :=
  fun a ha b hb => h a (hl ha) b (hl hb)

section United

variable (hall : List.Forall₂ (United others) fields united)
  (hkey : key true (object typeName fields n) = key true (object typeName' others n'))

include hall hkey

/-- The combined branch describes what one of the two does. -/
theorem describes_united (h : Agree r (object typeName fields n) (object typeName' others n'))
    (h' : Agree r (object typeName' others n') (object typeName fields n))
    (hv : (object typeName fields n).Describes r v ∨ (object typeName' others n').Describes r v) :
    (object typeName united n).Describes r v := by
  have hobject : ∃ entries, v = .object entries := hv.elim (fun hv => hv.1) fun hv => hv.1
  refine describes_object.2 ⟨hobject, fun e he => ?_⟩
  obtain ⟨e₀, he₀, hfield⟩ := exists_mem_left hall he
  cases hfield with
  | @kept k s hplain =>
    rcases hv with hv | hv
    · exact (describes_object.1 hv).2 _ he₀
    · have hmem : (k, key false s) ∈ fieldKeys true fields := by
        rw [fieldKeys_eq]
        exact List.mem_map.2 ⟨_, he₀, by simp [hplain]⟩
      rw [(fieldKeys_perm hkey).mem_iff, fieldKeys_eq] at hmem
      obtain ⟨e', he', heq⟩ := List.mem_map.1 hmem
      obtain ⟨rfl, hsame⟩ := Prod.mk.inj heq
      have hsame : key false e'.2 = key false s := by
        split at hsame
        · exact absurd hsame.symm (key_ne_anyTag s)
        · exact hsame
      exact ((describes_object.1 hv).2 e' he').mono (fun _ => describes_of_key hsame) fun h => nullable_of_key hsame ▸ h
  | @united k t t' u m m' ht' hu =>
    obtain ⟨hnullable, hcovered⟩ := h hkey k t m t' m' he₀ ht'
    obtain ⟨-, hcovered'⟩ := h' hkey.symm k t' m' t m ht' he₀
    have htells : ∀ x, (tag t m).Describes r x ∨ (tag t' m').Describes r x → (tag u (mergeNotes m m')).Describes r x := by
      rintro x (⟨name, rfl, h⟩ | ⟨name, rfl, h⟩)
      · exact ⟨name, rfl, tells_uniteTags hu hcovered hcovered' (Or.inl h)⟩
      · exact ⟨name, rfl, tells_uniteTags hu hcovered hcovered' (Or.inr h)⟩
    rcases hv with hv | hv
    · refine ((describes_object.1 hv).2 _ he₀).mono (fun x h => htells x (Or.inl h)) fun h => ?_
      exact Bool.and_eq_true_iff.2 ⟨h, hnullable ▸ h⟩
    · refine ((describes_object.1 hv).2 _ ht').mono (fun x h => htells x (Or.inr h)) fun h => ?_
      exact Bool.and_eq_true_iff.2 ⟨hnullable.symm ▸ h, h⟩

/-- What agrees with both branches agrees with the combined one. -/
theorem agree_united (ha : Agree r (object typeName fields n) b) (ha' : Agree r (object typeName' others n') b) :
    Agree r (object typeName united n) b := by
  intro hb k u m t'' m'' hu ht''
  rw [key_united hall] at hb
  obtain ⟨e₀, he₀, hfield⟩ := exists_mem_left hall hu
  cases hfield with
  | kept hplain => cases hplain
  | @united _ t t' _ m m' ht' hunite =>
    obtain ⟨hnullable, hcovered⟩ := ha hb _ t m t'' m'' he₀ ht''
    obtain ⟨hnullable', hcovered'⟩ := ha' (hkey ▸ hb) _ t' m' t'' m'' ht' ht''
    refine ⟨?_, coveredBy_uniteTags hunite hcovered hcovered'⟩
    rw [mergeNotes, hnullable, hnullable', Bool.and_self]

theorem united_agree (ha : Agree r b (object typeName fields n)) (ha' : Agree r b (object typeName' others n')) :
    Agree r b (object typeName united n) := by
  intro hb k t'' m'' u m ht'' hu
  rw [key_united hall] at hb
  obtain ⟨e₀, he₀, hfield⟩ := exists_mem_left hall hu
  cases hfield with
  | kept hplain => cases hplain
  | @united _ t t' _ m m' ht' hunite =>
    obtain ⟨hnullable, hcovered⟩ := ha hb _ t'' m'' t m ht'' he₀
    obtain ⟨hnullable', hcovered'⟩ := ha' (hb.trans hkey) _ t'' m'' t' m' ht'' ht'
    refine ⟨?_, uniteTags_coveredBy hunite hcovered hcovered'⟩
    rw [mergeNotes, ← hnullable, ← hnullable', Bool.and_self]

end United

/-! ## Simplifying -/

theorem Combinable.exists_object (h : Combinable a b) :
    ∃ typeName fields n, b = object typeName fields n ∧ key true a = key true b := by
  have halike := h.1
  unfold alike at halike
  split at halike
  · exact ⟨_, _, _, rfl, of_decide_eq_true halike⟩
  · cases halike

theorem AllAgree.cons (h : AllAgree r l) (haa : Agree r a a) (ha : ∀ b ∈ l, Agree r a b ∧ Agree r b a) :
    AllAgree r (a :: l) := by
  intro b hb c hc
  rcases List.mem_cons.1 hb with hb | hb <;> rcases List.mem_cons.1 hc with hc | hc
  · exact hb ▸ hc ▸ haa
  · exact hb ▸ (ha c hc).1
  · exact hc ▸ (ha b hb).2
  · exact h b hb c hc

/-- A branch that is absorbed leaves branches that agree, and what it or one of those before describes, one of these does. -/
theorem describes_absorb (h : AllAgree r (x :: acc ++ l)) :
    AllAgree r (absorb x acc ++ l) ∧ ∀ s ∈ x :: acc, ∀ v, s.Describes r v → ∃ s ∈ absorb x acc, s.Describes r v := by
  rcases absorb_united_or_append x acc with
    ⟨before, typeName, fields, n, after, united, rfl, habsorb, hcombinable, hall⟩ | ⟨-, habsorb⟩
  · obtain ⟨typeName', others, n', rfl, hkey⟩ := hcombinable.exists_object
    rw [habsorb]
    have hfirst : object typeName fields n ∈ object typeName' others n' :: (before ++ object typeName fields n :: after) ++ l := by
      simp
    have hx : object typeName' others n' ∈ object typeName' others n' :: (before ++ object typeName fields n :: after) ++ l :=
      List.mem_cons_self
    constructor
    · have hunited : ∀ b, b ∈ object typeName' others n' :: (before ++ object typeName fields n :: after) ++ l →
          Agree r (object typeName united n) b ∧ Agree r b (object typeName united n) := fun b hb =>
        ⟨agree_united hall hkey (h _ hfirst b hb) (h _ hx b hb), united_agree hall hkey (h b hb _ hfirst) (h b hb _ hx)⟩
      have hself := agree_united hall hkey (hunited _ hfirst).2 (hunited _ hx).2
      exact (h.cons hself hunited).subset fun s hs => by grind
    · have hboth : ∀ v, (object typeName fields n).Describes r v ∨ (object typeName' others n').Describes r v →
          ∃ s ∈ before ++ object typeName united n :: after, s.Describes r v := fun v hv =>
        ⟨_, List.mem_append_right _ List.mem_cons_self, describes_united hall hkey (h _ hfirst _ hx) (h _ hx _ hfirst) hv⟩
      intro s hs v hv
      rcases List.mem_cons.1 hs with rfl | hs
      · exact hboth v (Or.inr hv)
      · rcases List.mem_append.1 hs with hs | hs
        · exact ⟨s, List.mem_append_left _ hs, hv⟩
        · rcases List.mem_cons.1 hs with rfl | hs
          · exact hboth v (Or.inl hv)
          · exact ⟨s, List.mem_append_right _ (List.mem_cons_of_mem _ hs), hv⟩
  · rw [habsorb]
    exact ⟨h.subset fun s hs => by grind, fun s hs v hv => ⟨s, by grind, hv⟩⟩

/-- Of branches that agree, combining loses nothing. -/
theorem describes_combineBranches (h : AllAgree r l) (hs : s ∈ l) (hv : s.Describes r v) :
    ∃ s ∈ combineBranches l, s.Describes r v := by
  have go : ∀ (more acc : List Shape), AllAgree r (acc ++ more) → (∃ s ∈ acc ++ more, s.Describes r v) →
      ∃ s ∈ more.foldl (fun acc s => absorb s acc) acc, s.Describes r v := by
    intro more
    induction more with
    | nil =>
      intro acc _ hmem
      rwa [List.append_nil] at hmem
    | cons x more ih =>
      rintro acc hagree ⟨s, hs, hv⟩
      have hagree : AllAgree r (x :: acc ++ more) := hagree.subset fun s hs => by grind
      obtain ⟨hrest, hkept⟩ := describes_absorb hagree
      refine ih (absorb x acc) hrest ?_
      by_cases hmore : s ∈ more
      · exact ⟨s, List.mem_append_right _ hmore, hv⟩
      · obtain ⟨s', hs', hv'⟩ := hkept s (by grind) v hv
        exact ⟨s', List.mem_append_left _ hs', hv'⟩
  exact go l [] h ⟨s, hs, hv⟩

theorem describes_unionOf (h : AllAgree r l) (hs : s ∈ l) (hv : s.Describes r v) :
    (unionOf l n).Describes r v := by
  obtain ⟨s', hs', hv'⟩ := describes_combineBranches h hs hv
  unfold unionOf
  split
  · rename_i lone hlone
    rw [hlone, List.mem_singleton] at hs'
    exact describes_withNote.2 (hs' ▸ hv')
  · exact describes_union.2 ⟨s', hs', hv'⟩

/-- Simplifying a shape whose branches agree loses no value that it describes. -/
theorem describes_simplify (h : s.Formed (agreeing r)) (hv : s.Describes r v) : (simplify s).Describes r v := by
  induction s using induction generalizing v with
  | scalar | tag | ref => exact hv
  | object typeName fields n ih =>
    obtain ⟨hobject, hfields⟩ := describes_object.1 hv
    rw [simplify, simplifyFields_eq]
    refine describes_object.2 ⟨hobject, List.forall_mem_map.2 fun e he => ?_⟩
    exact (hfields e he).mono (fun _ => ih e he ((formed_object.1 h).2 e he)) fun hnullable => by
      rwa [nullable_simplify]
  | array element elementNullable n ih =>
    obtain ⟨items, rfl, hitems⟩ := hv
    exact ⟨items, rfl, fun item hitem => (hitems item hitem).imp (ih h) id⟩
  | union branches n ih =>
    obtain ⟨hagree, hbranches⟩ := formed_union.1 h
    obtain ⟨s, hs, hv⟩ := describes_union.1 hv
    rw [simplify, simplifyList_eq]
    exact describes_unionOf hagree (List.mem_map_of_mem hs) (ih s hs (hbranches s hs) hv)
  | inter parts n ih =>
    rw [simplify, simplifyList_eq]
    refine describes_inter.2 (List.forall_mem_map.2 fun s hs => ?_)
    exact ih s hs ((formed_inter.1 h).2 s hs) (describes_inter.1 hv s hs)

/-- A user whose tag may be missing and a comment whose tag may not. -/
def disagreeing : Shape :=
  union [object "User" [("__typename", tag (.single "User") { nullable := true }), ("id", scalar "string" {})] {},
    object "Comment" [("__typename", tag (.single "Comment") {}), ("id", scalar "string" {})] {}] {}

theorem simplify_disagreeing : simplify disagreeing =
    object "User" [("__typename", tag (.ofNames ["User", "Comment"] none) {}), ("id", scalar "string" {})] {} := by
  simp [disagreeing, simplify, simplifyList, simplifyFields, unionOf, combineBranches, absorb, alike, key, fieldKeys, isTag,
    combine, uniteFieldTags, Assoc.get?, uniteTags, TypeTag.single, mergeNotes, withNote, description, note,
    Note.firstDescription]

/-- Where branches do not agree, simplifying may lose a value: here a user without its tag. -/
theorem simplify_loses : ∃ (r : Reading) (v : Value), disagreeing.Describes r v ∧ ¬(simplify disagreeing).Describes r v := by
  have htypename : isFragmentKey "__typename" = false := by decide
  have hid : isFragmentKey "id" = false := by decide
  refine ⟨⟨fun _ _ => True, fun _ _ _ => True, fun _ _ => True⟩, .object [("id", .scalar "1")], ?_, fun h => ?_⟩
  · refine describes_union.2 ⟨_, List.mem_cons_self, describes_object.2 ⟨⟨_, rfl⟩, ?_⟩⟩
    simp [FieldDescribes, htypename, hid, Value.get?, Assoc.get?, Describes, nullable, note]
  · rw [simplify_disagreeing, describes_object] at h
    have htag := h.2 _ List.mem_cons_self
    simp [FieldDescribes, htypename, Value.get?, Assoc.get?, nullable, note] at htag

end Shape

end ResponseTypes
