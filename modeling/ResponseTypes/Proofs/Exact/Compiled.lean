import ResponseTypes.Proofs.Branch.Asked
import ResponseTypes.Proofs.Exact.Conform
import ResponseTypes.Proofs.Plan.Refs

/-!
# Compiled selections conform

If there are neither interfaces nor unions, compiling selections on a type gives an object that conforms to the type and
holds what the selections ask for (`selection_writes`), once that is so for the fragments that they spread.  Fragments that
do not spread themselves can be taken one after the other (`fragment_writes`).
-/

namespace ResponseTypes.Compile

set_option autoImplicit false

open GraphQL (FieldHead Selection TypeDef TypeRef)
open Shape (EntryHolds FieldsHold)

/-- Sources for which shapes are exact: types are objects or leaves, type tags are not added, and fragments have generated
names of their own, do not spread themselves and are plain. -/
structure Sources.Simple (c : Sources) : Prop where
  objects : c.schema.ObjectsOnly
  untagged : c.output.alwaysTag = false
  distinct : c.DistinctNames
  acyclic : c.Acyclic
  plain : ∀ name f, Assoc.get? c.fragments name = some f → areAllPlain f.fragment.selections = true

/-- The shape is an object that conforms to the type, and holds what selections on it ask for. -/
structure Writes (c : Sources) (R : String → Prop) (written : String → Option Shape) (names : List String → String)
    (t : TypeDef) (sels : List Selection) (s : Shape) : Prop where
  eq_object : s = .object t.name s.fields {}
  conforms : FieldsConform c R names t s.fields
  holds : ∀ path, s.Holds written path ↔ Selects c t sels path

/-- A fragment that is in `R` is written. -/
def Supplied (c : Sources) (R : String → Prop) (written : String → Option Shape) (name : String) : Prop :=
  ∀ f, Assoc.get? c.fragments name = some f → R name ∧ ∀ names t, c.schema.type? f.fragment.condition = some t →
    t.body.isObject = true → NamedBy c names t f.fragment.selections →
    ∃ s, written name = some s ∧ Writes c R written names t f.fragment.selections s

variable {c : Sources} {N : Need → Prop} {R : String → Prop} {written : String → Option Shape}
  {names : List String → String} {t : TypeDef} {fields : Fields} {key k : String} {s : Shape}

/-! ## Fields -/

theorem fieldsConform_nil : FieldsConform c R names t [] :=
  ⟨List.nodup_nil, by simp⟩

theorem fieldsConform_singleton (h : EntryConforms c R names t key s) : FieldsConform c R names t [(key, s)] :=
  ⟨List.nodup_singleton _, by simpa using h⟩

/-- A field that is merged among others conforms, and what it holds is added. -/
theorem conforms_mergeField (written : String → Option Shape) (hdistinct : c.DistinctNames) (h : FieldsConform c R names t fields)
    (hs : EntryConforms c R names t key s) :
    FieldsConform c R names t (mergeField fields key s) ∧
      ∀ path, FieldsHold written (mergeField fields key s) path ↔
        FieldsHold written fields path ∨ EntryHolds written key s path := by
  have hinsert : ∀ v, EntryConforms c R names t key v → FieldsConform c R names t (Assoc.insert fields key v) :=
    fun v hv => ⟨Assoc.nodup_keys_insert h.nodup key v, fun e he => (Assoc.mem_insert he).elim (fun heq => heq ▸ hv) (h.entries e)⟩
  unfold mergeField
  cases hget : Assoc.get? fields key with
  | none =>
    refine ⟨hinsert s hs, fun path => ?_⟩
    have hne : ∀ e ∈ fields, e.1 ≠ key := fun e he heq => Assoc.get?_eq_none.1 hget (heq ▸ List.mem_map_of_mem he)
    refine (Assoc.exists_mem_insert h.nodup (P := fun k s => EntryHolds written k s path)).trans (or_comm.trans ?_)
    exact or_congr_left ⟨fun ⟨e, he, _, hpath⟩ => ⟨e, he, hpath⟩, fun ⟨e, he, hpath⟩ => ⟨e, he, hne e he, hpath⟩⟩
  | some a =>
    have ha : EntryConforms c R names t key a := h.entries (key, a) (Assoc.mem_of_get? hget)
    obtain ⟨hconforms, hjoins⟩ := conforms_merge written hdistinct ha hs
    refine ⟨hinsert _ hconforms, fun path => ?_⟩
    have hboth : EntryHolds written key (Shape.merge a s) path ↔ EntryHolds written key a path ∨ EntryHolds written key s path :=
      entryHolds_join hjoins (fun hk => ⟨ha.element_eq hk, hs.element_eq hk, hconforms.element_eq hk⟩) path
    have hold := Assoc.exists_mem_of_get? h.nodup hget (P := fun k s => EntryHolds written k s path)
    refine (Assoc.exists_mem_insert h.nodup (P := fun k s => EntryHolds written k s path)).trans ?_
    exact (or_congr_left hboth).trans (or_right_comm.trans (or_congr_left hold.symm))

/-! ## Values -/

open Plan (Gives gives_and gives_bind gives_definition gives_fragment gives_lack gives_mono gives_pure gives_spread gives_trivial)

/-- What is selected below a field conforms to its type, and holds what the selections ask for. -/
theorem gives_outputShape_conforms (R : String → Prop) (written : String → Option Shape) (names : List String → String)
    (sels : List Selection) (hobjects : c.schema.ObjectsOnly) {below : Option (TypeDef → Plan Shape)} (type : TypeRef) (nullable : Bool)
    (hselect : ∀ select ∈ below, ∀ t, c.schema.type? type.base = some t → t.body.isObject = true →
      Gives c N (select t) (Writes c R written names t sels))
    (hnone : below = none → sels = []) :
    Gives c N (outputShape c.toConfig below type nullable) fun s => Conforms c R names type nullable s ∧
      ∀ path, s.Holds written path ↔ path = [] ∨
        ∃ t, (c.schema.type? type.base).filter (fun t => t.body.isObject) = some t ∧ Selects c t sels path := by
  induction type generalizing nullable with
  | nonNull type ih => exact gives_mono (ih false hselect) fun s hs => ⟨.nonNull hs.1, hs.2⟩
  | list type ih =>
    refine gives_bind (ih true hselect) fun s hs => gives_pure ⟨.list rfl hs.1, fun path => ?_⟩
    rw [Shape.holds_array]
    exact hs.2 path
  | named n =>
    refine gives_bind (gives_definition n) fun t ht => ?_
    have hname := Schema.name_of_type? ht
    have hleaf : ∀ code, leafCode? c.toConfig t = some code → t.body.isObject = false →
        Conforms c R names (.named n) nullable (.scalar code { nullable }) ∧
          ∀ path, (Shape.scalar code { nullable }).Holds written path ↔ path = [] ∨
            ∃ t, (c.schema.type? (TypeRef.named n).base).filter (fun t => t.body.isObject) = some t ∧ Selects c t sels path := by
      intro code hcode hobject
      refine ⟨.leaf rfl ht hcode, fun path => ?_⟩
      cases path with
      | nil => simp
      | cons k path => simp [Shape.not_holds_scalar, TypeRef.base, ht, Option.filter, hobject]
    cases hbody : t.body with
    | scalar => exact gives_pure (hleaf _ (by simp [leafCode?, hbody]) (by simp [hbody, GraphQL.TypeBody.isObject]))
    | enum values =>
      refine gives_bind (P := (· = c.naming.enum t.name)) (fun _ code hcode => (Except.ok.inj hcode).symm) fun code hcode => ?_
      exact gives_pure (hcode ▸ hleaf _ (by simp [leafCode?, hbody]) (by simp [hbody, GraphQL.TypeBody.isObject]))
    | input values =>
      refine gives_bind (P := (· = c.naming.input t.name)) (fun _ code hcode => (Except.ok.inj hcode).symm) fun code hcode => ?_
      exact gives_pure (hcode ▸ hleaf _ (by simp [leafCode?, hbody]) (by simp [hbody, GraphQL.TypeBody.isObject]))
    | interface | union =>
      have habstract := hobjects n t ht
      rw [hbody] at habstract
      cases habstract
    | object interfaces own =>
      have hobject : t.body.isObject = true := by simp [hbody, GraphQL.TypeBody.isObject]
      have hchild : (c.schema.type? (TypeRef.named n).base).filter (fun t => t.body.isObject) = some t := by
        simp [TypeRef.base, ht, Option.filter, hobject]
      cases below with
      | none =>
        refine gives_pure ⟨.object rfl ht hobject List.nodup_nil (by simp), fun path => ?_⟩
        rw [hnone rfl]
        cases path with
        | nil => simp
        | cons k path => simp [Shape.holds_object, not_selects_nil]
      | some select =>
        refine gives_bind (hselect select rfl t ht hobject) fun s hs => gives_pure ?_
        constructor
        · rw [hs.eq_object]
          exact .object rfl ht hobject hs.conforms.nodup hs.conforms.entries
        · intro path
          rw [Shape.withNullable, Shape.holds_withNote, hs.holds, hchild]
          constructor
          · exact fun h => Or.inr ⟨t, rfl, h⟩
          · rintro (rfl | ⟨t', ht', h⟩)
            · trivial
            · cases ht'
              exact h

theorem gives_typeTag_single (name : String) : Gives c N (typeTag name) (· = .single name) :=
  fun _ _ htag => (Except.ok.inj htag).symm

section Fields

variable {head : FieldHead} {below : List Selection}

/-- What a field holds that is no type tag. -/
theorem entryHolds_field (hkey : isFragmentKey head.key = false) (hname : head.name ≠ typenameKey) {f : GraphQL.FieldDef}
    (hf : t.field? head.name = some f)
    (hs : ∀ path, s.Holds written path ↔ path = [] ∨
      ∃ t', (c.schema.type? f.type.base).filter (fun t => t.body.isObject) = some t' ∧ Selects c t' below path) (path : List String) :
    EntryHolds written head.key s (k :: path) ↔ Selects c t [.field head below] (k :: path) := by
  rw [EntryHolds, if_neg (by simp [hkey]), selects_field, hs, Sources.child?, if_neg hname, hf]
  rfl

theorem entryHolds_tag (hkey : isFragmentKey head.key = false) (hname : head.name = typenameKey) {tag : TypeTag} {n : Note}
    (path : List String) : EntryHolds written head.key (.tag tag n) (k :: path) ↔ Selects c t [.field head below] (k :: path) := by
  rw [EntryHolds, if_neg (by simp [hkey]), selects_field, Sources.child?, if_pos hname]
  cases path with
  | nil => simp
  | cons j path => simp [Shape.not_holds_tag]

theorem fieldsConform_refFields {f : FragmentDef} (hR : R f.fragment.name) (hf : Assoc.get? c.fragments f.fragment.name = some f)
    (hcondition : f.fragment.condition = t.name) (hnamed : NamedBy c names t f.fragment.selections) :
    FieldsConform c R names t (refFields c.toConfig f t.name) :=
  fieldsConform_singleton (.spread rfl hR hf hcondition hnamed)

/-- A reference to a fragment that is written holds what the fragment asks for. -/
theorem entryHolds_ref {f : FragmentDef} {n : Note} {fs : Shape} (hkey : isFragmentKey key = true)
    (hsome : written f.fragment.name = some fs) (hs : Writes c R written names t f.fragment.selections fs) (path : List String) :
    EntryHolds written key (.ref (fragmentRef c.toConfig f t.name) n) (k :: path) ↔
      Selects c t f.fragment.selections (k :: path) := by
  have helement : fs.element = fs := by
    rw [hs.eq_object]
    rfl
  rw [EntryHolds, if_pos hkey, ← hs.holds, Shape.holds_cons, helement]
  refine exists_congr fun u => and_congr_left fun _ => ⟨fun hu => ?_, fun hu => .ref hsome List.not_mem_nil hu⟩
  cases hu with
  | ref hsome' _ hu =>
    cases hsome.symm.trans hsome'
    exact hu

theorem fieldsHold_refFields {f : FragmentDef} {fs : Shape} (hsome : written f.fragment.name = some fs)
    (hs : Writes c R written names t f.fragment.selections fs) (path : List String) :
    FieldsHold written (refFields c.toConfig f t.name) (k :: path) ↔ Selects c t f.fragment.selections (k :: path) := by
  rw [refFields, Shape.fieldsHold_cons, or_iff_left Shape.not_fieldsHold_nil]
  exact entryHolds_ref (isFragmentKey_fragmentKey _) hsome hs path

/-- The shape of a field conforms, and holds what is selected below the field. -/
theorem gives_fieldShape_conforms (hobjects : c.schema.ObjectsOnly) (hkey : isFragmentKey head.key = false)
    (hname : head.name ≠ typenameKey) (hnames : head.name = names [head.key])
    (hselect : ∀ t', c.child? t head.name = some t' → Known c.toConfig t' → t'.body.isObject = true →
      Gives c N (selection c.toConfig t' below) (Writes c R written (fun path => names (head.key :: path)) t' below)) :
    Gives c N (fieldShape c.toConfig t head false (if below.isEmpty then none else some (fun t' => selection c.toConfig t' below)))
      fun s => EntryConforms c R names t head.key s ∧
        ∀ k path, EntryHolds written head.key s (k :: path) ↔ Selects c t [.field head below] (k :: path) := by
  unfold fieldShape
  cases hf : t.field? head.name with
  | none => exact gives_lack
  | some f =>
    refine gives_bind (gives_outputShape_conforms R written (fun path => names (head.key :: path)) below
      hobjects f.type true (fun select hsel t' ht' hobject => ?_) fun hnone => ?_)
      fun s hs => gives_pure ?_
    · split at hsel
      · cases hsel
      · cases hsel
        have hknown : Known c.toConfig t' := (congrArg _ (Schema.name_of_type? ht')).trans ht'
        exact hselect t' (by simp [Sources.child?, hname, hf, ht', Option.filter, hobject]) hknown hobject
    · split at hnone
      · rename_i hempty
        exact List.isEmpty_iff.1 hempty
      · cases hnone
    · have hnote : ∀ path, (s.withNote ⟨s.nullable || false, f.description⟩).Holds written path ↔ _ := fun path =>
        (Shape.holds_withNote _).trans (hs.2 path)
      refine ⟨.field hkey (hnames ▸ hname) (hnames ▸ hf) (hs.1.withNote (Bool.or_false _)), fun k path => ?_⟩
      exact entryHolds_field hkey hname hf hnote path

end Fields

/-! ## Selections -/

mutual

/-- Compiling selections on an object type gives an object that conforms to it and holds what they ask for. -/
theorem selection_writes (hc : c.Named) (hsimple : c.Simple) (hN : ∀ name, N (.fragment name) → Supplied c R written name)
    (names : List String → String) {t : TypeDef} (ht : Known c.toConfig t) (hobject : t.body.isObject = true)
    (sels : List Selection) (hplain : areAllPlain sels = true) (hnamed : NamedBy c names t sels) :
    Gives c N (selection c.toConfig t sels) (Writes c R written names t sels) := by
  refine gives_kept (selection.eq_1 c.toConfig t sels) ?_
  change Gives c N (if t.body.isAbstract then _ else _) _
  rw [if_neg (GraphQL.TypeBody.not_isAbstract hobject), if_pos hobject]
  refine gives_mono (objectSelection_writes hc hsimple hN names ht hobject fieldsConform_nil false sels hplain hnamed) fun s hs => ?_
  refine ⟨hs.1, hs.2.1, fun path => ?_⟩
  cases path with
  | nil => simp [Selects]
  | cons k path =>
    rw [hs.1, Shape.holds_object, hs.2.2]
    simp
termination_by (sizeOf sels, 1)

theorem objectSelection_writes (hc : c.Named) (hsimple : c.Simple)
    (hN : ∀ name, N (.fragment name) → Supplied c R written name) (names : List String → String) {t : TypeDef}
    (ht : Known c.toConfig t) (hobject : t.body.isObject = true) {fields : Fields} (hfields : FieldsConform c R names t fields) (tagged : Bool)
    (sels : List Selection) (hplain : areAllPlain sels = true) (hnamed : NamedBy c names t sels) :
    Gives c N (objectSelection c.toConfig t fields tagged sels) fun s => s = .object t.name s.fields {} ∧
      FieldsConform c R names t s.fields ∧ ∀ k path, FieldsHold written s.fields (k :: path) ↔
        FieldsHold written fields (k :: path) ∨ Selects c t sels (k :: path) := by
  match sels with
  | [] =>
    rw [objectSelection, objectOf, hsimple.untagged]
    exact gives_pure ⟨rfl, hfields, fun k path => by simp [not_selects_nil, Shape.fields]⟩
  | .field head below :: rest =>
    rw [areAllPlain, isPlain, Bool.and_eq_true, Bool.and_eq_true, Bool.and_eq_true, Bool.not_eq_true', Bool.not_eq_true'] at hplain
    obtain ⟨⟨⟨hconditional, hkey⟩, hbelow⟩, hrest⟩ := hplain
    have hcollects : Collects c t.name (.field head below :: rest) head below := .field List.mem_cons_self
    have hname : head.name = names [head.key] := hnamed.name_eq hcollects
    have hnamedRest : NamedBy c names t rest := hnamed.mono fun _ _ h => collects_cons.2 (Or.inr h)
    have hadd : ∀ tagged s, EntryConforms c R names t head.key s →
        (∀ k path, EntryHolds written head.key s (k :: path) ↔ Selects c t [.field head below] (k :: path)) →
        Gives c N (objectSelection c.toConfig t (mergeField fields head.key s) tagged rest) fun s => s = .object t.name s.fields {} ∧
          FieldsConform c R names t s.fields ∧ ∀ k path, FieldsHold written s.fields (k :: path) ↔
            FieldsHold written fields (k :: path) ∨ Selects c t (.field head below :: rest) (k :: path) := by
      intro tagged s hs hholds
      obtain ⟨hconforms, hmerged⟩ := conforms_mergeField written hsimple.distinct hfields hs
      refine gives_mono (objectSelection_writes hc hsimple hN names ht hobject hconforms tagged rest hrest hnamedRest) fun s' hs' => ?_
      refine ⟨hs'.1, hs'.2.1, fun k path => ?_⟩
      rw [hs'.2.2, hmerged, hholds, selects_cons (l := rest), or_assoc]
    rw [objectSelection]
    simp only [hconditional]
    split
    · rename_i htypename
      refine gives_bind (gives_typeTag_single t.name) fun tag htag => hadd true _ (htag ▸ ?_) fun k path => ?_
      · exact .tag hkey (hname ▸ htypename) rfl
      · exact entryHolds_tag hkey htypename path
    · rename_i htypename
      refine gives_bind (gives_fieldShape_conforms hsimple.objects hkey htypename hname
        fun t' ht' hknown hobject' => ?_) fun s hs => hadd tagged s hs.1 hs.2
      exact selection_writes hc hsimple hN _ hknown hobject' below hbelow (hnamed.descend hcollects ht')
  | .spread name directives :: rest =>
    rw [areAllPlain, Bool.and_eq_true] at hplain
    have hnamedRest : NamedBy c names t rest := hnamed.mono fun _ _ h => collects_cons.2 (Or.inr h)
    rw [objectSelection]
    refine gives_bind (gives_and (gives_fragment name) (gives_spread hc name)) fun f ⟨hf, hneeded⟩ => ?_
    split
    · rename_i happlies
      rw [appliesTo_iff ht hobject] at happlies
      have hcondition := Schema.eq_of_applies hsimple.objects happlies
      have hnamedInner : NamedBy c names t f.fragment.selections :=
        hnamed.mono fun _ _ h => .spread List.mem_cons_self hf happlies h
      have hown : Assoc.get? c.fragments f.fragment.name = some f := (congrArg _ (hc name f hf)).trans hf
      obtain ⟨hR, hsupplied⟩ := hN _ hneeded f hown
      obtain ⟨fs, hsome, hs⟩ := hsupplied names t ((congrArg _ hcondition).trans ht) hobject hnamedInner
      obtain ⟨hconforms, hmerged⟩ := conforms_mergeFields written hsimple.distinct hfields
        (fieldsConform_refFields hR hown hcondition hnamedInner)
      refine gives_mono (objectSelection_writes hc hsimple hN names ht hobject hconforms tagged rest hplain.2 hnamedRest) fun s' hs' => ?_
      refine ⟨hs'.1, hs'.2.1, fun k path => ?_⟩
      rw [hs'.2.2, hmerged, fieldsHold_refFields hsome hs, selects_cons (l := rest), selects_spread hf, happlies, or_assoc]
      simp
    · rename_i happlies
      rw [appliesTo_iff ht hobject] at happlies
      refine gives_mono (objectSelection_writes hc hsimple hN names ht hobject hfields tagged rest hplain.2 hnamedRest) fun s' hs' => ?_
      refine ⟨hs'.1, hs'.2.1, fun k path => ?_⟩
      rw [hs'.2.2, selects_cons (l := rest), selects_spread hf]
      simp [happlies]
  | .inline condition directives below :: rest =>
    rw [areAllPlain, isPlain, Bool.and_eq_true, Bool.and_eq_true] at hplain
    obtain ⟨⟨-, hbelow⟩, hrest⟩ := hplain
    have hnamedRest : NamedBy c names t rest := hnamed.mono fun _ _ h => collects_cons.2 (Or.inr h)
    have happlies := appliesTo_getD_iff ht hobject condition
    rw [objectSelection]
    split
    · rename_i happlies'
      have hnamedInner : NamedBy c names t below :=
        hnamed.mono fun _ _ h => .inline List.mem_cons_self (happlies.1 happlies') h
      refine gives_bind (selection_writes hc hsimple hN names ht hobject below hbelow hnamedInner) fun s hs => ?_
      refine gives_bind (Plan.gives_inlineFields s) fun more hmore => ?_
      subst hmore
      obtain ⟨hconforms, hmerged⟩ := conforms_mergeFields written hsimple.distinct hfields hs.conforms
      refine gives_mono (objectSelection_writes hc hsimple hN names ht hobject hconforms tagged rest hrest hnamedRest) fun s' hs' => ?_
      refine ⟨hs'.1, hs'.2.1, fun k path => ?_⟩
      have hinner : FieldsHold written s.fields (k :: path) ↔ Selects c t below (k :: path) := by
        rw [← hs.holds, hs.eq_object, Shape.holds_object]
        rfl
      rw [hs'.2.2, hmerged, hinner, selects_cons (l := rest), selects_inline, or_assoc]
      exact or_congr_right (or_congr_left (and_iff_right (happlies.1 happlies')).symm)
    · rename_i happlies'
      refine gives_mono (objectSelection_writes hc hsimple hN names ht hobject hfields tagged rest hrest hnamedRest) fun s' hs' => ?_
      refine ⟨hs'.1, hs'.2.1, fun k path => ?_⟩
      rw [hs'.2.2, selects_cons (l := rest), selects_inline]
      exact or_congr_right (or_iff_right fun h => happlies' (happlies.2 h.1)).symm
termination_by (sizeOf sels, 0)

end

/-! ## Simplifying -/

theorem Conforms.simplify_eq_of_nesting_lt (m : Nat) {names : List String → String} {type : TypeRef} {nullable : Bool} {s : Shape}
    (h : Conforms c R names type nullable s) (hm : s.nesting < m) : s.simplify = s := by
  induction m generalizing names type nullable s with
  | zero => exact absurd hm (Nat.not_lt_zero _)
  | succ m ih =>
    induction type generalizing nullable with
    | nonNull type ihType =>
      cases h with
      | nonNull h => exact ihType h
    | list type =>
      cases h with
      | list _ h =>
        rw [Shape.nesting] at hm
        rw [Shape.simplify, ih h (by omega)]
    | named name =>
      cases h with
      | leaf => rfl
      | @object _ _ _ t fields n hn ht hobject hnodup hentries =>
        rw [Shape.nesting] at hm
        have hfield : ∀ e ∈ fields, (e.1, e.2.simplify) = e := by
          rintro ⟨k, s⟩ he
          have hlt : s.nesting < m := lt_of_le_of_lt (fieldsNesting_le he) (by omega)
          refine Prod.ext rfl ?_
          cases hentries _ he with
          | tag | spread => rfl
          | field _ _ _ h => exact ih h hlt
        rw [Shape.simplify, Shape.simplifyFields_eq, List.map_congr_left hfield, List.map_id']

/-- There is nothing to simplify in a shape that conforms. -/
theorem Conforms.simplify_eq {type : TypeRef} {nullable : Bool} (h : Conforms c R names type nullable s) : s.simplify = s :=
  h.simplify_eq_of_nesting_lt _ (Nat.lt_succ_self _)

theorem Writes.simplify_eq {sels : List Selection} (h : Writes c R written names t sels s)
    (ht : Known c.toConfig t) (hobject : t.body.isObject = true) : s.simplify = s := by
  rw [h.eq_object]
  exact (Conforms.object rfl ht hobject h.conforms.nodup h.conforms.entries).simplify_eq

/-! ## Fragments -/

/-- The shapes of fragments in `R` are what is compiled for them, and the fragments that these need are in `R` themselves. -/
def Wrote (c : Sources) (R : String → Prop) (written : String → Option Shape) : Prop :=
  ∀ name, R name → ∃ f t s, Assoc.get? c.fragments name = some f ∧ c.schema.type? f.fragment.condition = some t ∧
    (selection c.toConfig t f.fragment.selections).outcome c = .ok s ∧ written name = some s.simplify ∧
    ∀ other, .fragment other ∈ (selection c.toConfig t f.fragment.selections).needs c → R other

/-- Fragments that are in `R` are written. -/
theorem fragment_writes (hc : c.Named) (hsimple : c.Simple) (hwrote : Wrote c R written) (name : String) (hR : R name) :
    Supplied c R written name := by
  induction name using hsimple.acyclic.induction with
  | hstep name ih =>
    intro f hf
    obtain ⟨f', t, s, hf', ht, hs, hwritten, hneeds⟩ := hwrote name hR
    cases hf.symm.trans hf'
    refine ⟨hR, fun names t' ht' hobject hnamed => ⟨s, ?_⟩⟩
    cases ht.symm.trans ht'
    have hknown : Known c.toConfig t := (congrArg _ (Schema.name_of_type? ht)).trans ht
    have hinner : ∀ other, .fragment other ∈ (selection c.toConfig t f.fragment.selections).needs c → Supplied c R written other :=
      fun other hother => ih other ⟨f, hf, mem_spreadsInAll_of_needs hs hother⟩ (hneeds other hother)
    have hwrites : Writes c R written names t f.fragment.selections s :=
      selection_writes (N := fun n => ∀ other, n = .fragment other → Supplied c R written other) hc hsimple
        (fun other h => h other rfl) names hknown hobject _ (hsimple.plain name f hf) hnamed
        (fun n hn other hother => hinner other (hother ▸ hn)) s hs
    exact ⟨by rw [hwritten, hwrites.simplify_eq hknown hobject], hwrites⟩

end ResponseTypes.Compile
