import ResponseTypes.Proofs.Exact.Agreed
import ResponseTypes.Proofs.Exact.Finished
import ResponseTypes.Proofs.Exact.Joined

/-!
# Coherent shapes

The parts of a finished object may give one field several times, but not with shapes that contradict each other: one of
them has all that the others have, as the contribution that was first has all if none is disputed (`holds_first`).  Fields
that are disputed are moved to an object of their own, and every reference omits those of them that its fragment has
(`Coherent`).  So it is at all response paths, and in the shapes of fragments (`coherent_finished`).
-/

namespace ResponseTypes.Compile

set_option autoImplicit false

open GraphQL (TypeDef TypeRef)
open Shape (EntryHolds FieldsHold HasField contributions conflict? conflicts keepRef? merge objectOf?)

/-- The shape that is generated for a fragment has a field. -/
def Brings (generated : String → Option Shape) (r : FragmentRef) (k : String) : Prop :=
  ∃ s v, generated r.fragment = some s ∧ HasField generated s k v

/-- Where parts of a shape give one field several times, one of them has all that the others have. -/
def Covered (generated : String → Option Shape) (s : Shape) : Prop :=
  ∀ k u, HasField generated s k u → ∃ v, HasField generated s k v ∧
    ∀ w, HasField generated s k w → ∀ path, w.Holds generated path → v.Holds generated path

/-- An object is put together from fields that were moved since they are disputed, fields that were not, and references. -/
structure Coherent (generated : String → Option Shape) (typeName : String) (moved remaining : Fields)
    (kept : List (FragmentRef × Note)) (s : Shape) : Prop where
  eq_joined : s = (joinParts typeName moved remaining kept).withNote s.note
  nodup : (Assoc.keys (moved ++ remaining)).Nodup
  own : ∀ e ∈ moved ++ remaining, isFragmentKey e.1 = false
  /-- the fragments that are referred to were generated -/
  known : ∀ r ∈ kept, (generated r.1.fragment).isSome = true
  /-- a reference omits, once each, those fields of its fragment that were moved -/
  omitted : ∀ r ∈ kept, r.1.omitted.Nodup ∧ ∀ k, k ∈ r.1.omitted ↔ k ∈ Assoc.keys moved ∧ Brings generated r.1 k
  /-- but never all fields that its fragment has -/
  proper : ∀ r ∈ kept, (∃ k, Brings generated r.1 k) → ∃ k, Brings generated r.1 k ∧ k ∉ r.1.omitted
  /-- a field that was moved is given by nothing else -/
  once : ∀ k v w, (k, v) ∈ moved → HasField generated s k w → w = v
  covered : Covered generated s

/-- The shape is put together so from some fields and references. -/
def IsCoherent (generated : String → Option Shape) (s : Shape) : Prop :=
  ∃ typeName moved remaining kept, Coherent generated typeName moved remaining kept s

/-- The shapes of which an object is composed: its own, and those of the fragments that its parts refer to. -/
inductive ComposedOf (generated : String → Option Shape) : Shape → Shape → Prop
  | self {s : Shape} : ComposedOf generated s s
  | fragment {s f u : Shape} {r : FragmentRef} {n : Note} : .ref r n ∈ s.parts → generated r.fragment = some f →
      ComposedOf generated f u → ComposedOf generated s u

variable {c : Sources} {R : String → Prop} {written generated : String → Option Shape} {fieldsOf : String → Option Fields}
  {names : List String → String} {t : TypeDef} {type : TypeRef} {nullable : Bool} {fields : Fields} {depth : Nat}
  {key k : String} {r : FragmentRef} {n : Note} {s s' a b : Shape} {path : List String}

/-! ## Objects -/

section Objects

variable (hdistinct : c.DistinctNames) (hexact : ∀ name, R name → Exact c R written generated fieldsOf name)
include hdistinct hexact

/-- What is finished under a key holds what stood there before. -/
theorem EntryConforms.holds_finished (h : EntryConforms c R names t k a) (hk : isFragmentKey k = false)
    (hb : Finishes fieldsOf a b) : b.Holds generated path ↔ a.Holds written path := by
  cases h with
  | tag =>
    cases finishes_tag hb
    cases path with
    | nil => simp
    | cons j path => simp [Shape.not_holds_tag]
  | field _ _ _ h => exact Compile.holds_finished hdistinct hexact h hb
  | spread hkey =>
    rw [hkey, isFragmentKey_fragmentKey] at hk
    cases hk

/-- A finished object holds under a key what the object before held there. -/
theorem Matches.holds_iff (h : Matches c R written generated fieldsOf names t s s') :
    (∃ v, HasField generated s' k v ∧ v.Holds generated path) ↔ s.Holds written (k :: path) := by
  constructor
  · rintro ⟨v, hv, hpath⟩
    obtain ⟨hk, v₀, hfinish, hconforms, hheld⟩ := h.sound k v hv
    exact hheld path ((hconforms.holds_finished hdistinct hexact hk hfinish).1 hpath)
  · intro hpath
    obtain ⟨v₀, v, hv, hfinish, hconforms, hheld⟩ := h.complete k path hpath
    exact ⟨v, hv, (hconforms.holds_finished hdistinct hexact (h.sound k v hv).1 hfinish).2 hheld⟩

/-- The field map of a fragment tells what its generated shape holds under a key. -/
theorem RefHolds.holds_iff {m : Fields} (h : RefHolds c R written generated fieldsOf names t key r n m) {f : Shape}
    (hf : generated r.fragment = some f) : (∃ v, HasField generated f k v ∧ v.Holds generated path) ↔
      ∃ v, Assoc.get? m k = some v ∧ v.Holds written path := by
  obtain ⟨s, f', hf', hmatches, hholds⟩ := h.shapes
  cases hf.symm.trans hf'
  rw [hmatches.holds_iff hdistinct hexact, hholds, ← h.fields, fieldsHold_iff_get? h.conforms.nodup h.own]

/-- A fragment has the fields that stand in its field map. -/
theorem RefHolds.brings_iff {m : Fields} (h : RefHolds c R written generated fieldsOf names t key r n m) :
    Brings generated r k ↔ k ∈ Assoc.keys m := by
  obtain ⟨s, f, hf, -⟩ := h.shapes
  have hiff : (∃ v, HasField generated f k v ∧ v.Holds generated []) ↔
      ∃ v, Assoc.get? m k = some v ∧ v.Holds written [] := h.holds_iff hdistinct hexact hf
  simp only [Shape.holds_nil, and_true] at hiff
  constructor
  · rintro ⟨f', v, hf', hv⟩
    cases hf.symm.trans hf'
    obtain ⟨v, hv⟩ := hiff.1 ⟨v, hv⟩
    exact Assoc.mem_keys_of_get? hv
  · intro hk
    obtain ⟨v, hv⟩ := hiff.2 (Option.isSome_iff_exists.1 (Assoc.has_iff.2 hk))
    exact ⟨f, v, hf, hv⟩

/-- A fragment that has fields, not all of them in conflict, has one that is not. -/
theorem RefHolds.brings_left {m cs : Fields} (h : RefHolds c R written generated fieldsOf names t key r n m)
    (hleft : ¬Emptied cs m) (hbrings : ∃ k, Brings generated r k) : ∃ k, Brings generated r k ∧ k ∉ Assoc.keys cs := by
  by_contra hall
  have hiff := fun k => h.brings_iff (k := k) hdistinct hexact
  obtain ⟨k, hk⟩ := hbrings
  obtain ⟨e, he, -⟩ := List.mem_map.1 ((hiff k).1 hk)
  refine hleft ⟨List.ne_nil_of_mem he, fun k' hk' => ?_⟩
  by_contra hmoved
  exact hall ⟨k', (hiff k').2 hk', hmoved⟩

end Objects

theorem own_of_keys_eq {fs : Fields} (h : Assoc.keys fs = Assoc.keys fields)
    (hown : ∀ e ∈ fields, isFragmentKey e.1 = false) : ∀ e ∈ fs, isFragmentKey e.1 = false := by
  intro e he
  have hkey : e.1 ∈ Assoc.keys fields := h ▸ List.mem_map_of_mem he
  obtain ⟨e', he', heq⟩ := List.mem_map.1 hkey
  exact heq ▸ hown e' he'

theorem Covered.withNote (h : Covered generated s) (n : Note) : Covered generated (s.withNote n) := by
  simpa only [Covered, Shape.hasField_withNote] using h

/-- A finished object without references is coherent. -/
theorem coherent_plain (hnodup : (Assoc.keys fields).Nodup) (hown : ∀ e ∈ fields, isFragmentKey e.1 = false)
    (h : (finishWithin depth (.object t.name fields n)).answer fieldsOf = .ok s') :
    ∃ remaining, Coherent generated t.name [] remaining [] s' := by
  obtain ⟨fs, hfs, rfl⟩ := answer_finish_object hown h
  have hkeys := keys_finishFields hfs
  have hfsOwn := own_of_keys_eq hkeys hown
  have hmem : ∀ k v, HasField generated (.object t.name fs n) k v → (k, v) ∈ fs := by
    intro k v hv
    cases hv with
    | own hv => exact hv
    | brought hv hkey => exact absurd ((hfsOwn _ hv).symm.trans hkey) Bool.false_ne_true
  have hsame : ∀ k v w, HasField generated (.object t.name fs n) k v → HasField generated (.object t.name fs n) k w →
      w = v := by
    intro k v w hv hw
    have hget := fun u hu => Assoc.get?_of_mem (hkeys ▸ hnodup) (hmem k u hu)
    exact Option.some.inj ((hget w hw).symm.trans (hget v hv))
  refine ⟨fs, ?_⟩
  constructor
  case eq_joined => cases fs <;> rfl
  case nodup => exact hkeys ▸ hnodup
  case own => exact hfsOwn
  case known | omitted | proper => exact List.forall_mem_nil _
  case once => exact fun _ _ _ hmoved => absurd hmoved List.not_mem_nil
  case covered => exact fun k u hu => ⟨u, hu, fun w hw path hpath => hsame k u w hu hw ▸ hpath⟩

/-- Fields that conform are composed with the fields of the fragments that they refer to, and the composition is finished. -/
structure Composition (c : Sources) (R : String → Prop) (written generated : String → Option Shape)
    (fieldsOf : String → Option Fields) (names : List String → String) (t : TypeDef) (fields : Fields)
    (maps : Shape.FieldMaps) (depth : Nat) (s' : Shape) : Prop where
  conform : FieldsConform c R names t fields
  refs : ∀ key r n, (key, .ref r n) ∈ fields → isFragmentKey key = true →
    RefHolds c R written generated fieldsOf names t key r n (Shape.refFields maps r)
  finished : ∃ composed, Shape.compose t.name (directFields fields) (refsOf fields) maps = .ok composed ∧
    (finishWithin depth composed).answer fieldsOf = .ok s'

/-- What is in conflict among fields and the fields of the fragments that they refer to. -/
def conflictsAmong (maps : Shape.FieldMaps) (fields : Fields) : Fields :=
  conflicts (directFields fields) ((refsOf fields).map Prod.fst) maps

/-- What is kept are references of the fields, with what they omit, but for those all of whose fields are in conflict. -/
theorem exists_of_mem_keptRefs {cs : Fields} {maps : Shape.FieldMaps} {r : FragmentRef × Note}
    (h : r ∈ keptRefs cs maps (refsOf fields)) : ∃ key r' m, (key, .ref r' m) ∈ fields ∧ isFragmentKey key = true ∧
      r = ({ r' with omitted := omittedOf cs maps r' }, m) ∧ ¬Emptied cs (Shape.refFields maps r') := by
  obtain ⟨⟨r', m⟩, hr', rfl⟩ := List.mem_map.1 h
  obtain ⟨hr', hleft⟩ := List.mem_filter.1 hr'
  obtain ⟨key, he, hkey⟩ := mem_refsOf.1 hr'
  exact ⟨key, r', m, he, hkey, rfl, of_decide_eq_true hleft⟩

namespace Composition

variable {maps : Shape.FieldMaps}

theorem own_conflicts (h : Composition c R written generated fieldsOf names t fields maps depth s') :
    ∀ e ∈ conflictsAmong maps fields, isFragmentKey e.1 = false :=
  isFragmentKey_conflicts (fun _ he => (mem_directFields.1 he).2) fun r hr => (refFields_conform h.refs r hr).2

/-- A field of a finished composition is in conflict, is a direct one that is not, or comes from a fragment that is kept. -/
theorem hasField_iff (h : Composition c R written generated fieldsOf names t fields maps depth s') :
    (∀ e ∈ directFields fields, e.1 ∉ Assoc.keys (conflictsAmong maps fields) →
      ∃ v, (finishWithin depth e.2).answer fieldsOf = .ok v) ∧
    ∀ k v, HasField generated s' k v ↔
      (∃ v₀, (k, v₀) ∈ conflictsAmong maps fields ∧ (finishWithin depth v₀).answer fieldsOf = .ok v) ∨
      (∃ v₀, (k, v₀) ∈ directFields fields ∧ k ∉ Assoc.keys (conflictsAmong maps fields) ∧
        (finishWithin depth v₀).answer fieldsOf = .ok v) ∨
      ∃ r ∈ refsOf fields, ∃ u, keepRef? maps (conflictsAmong maps fields) r.1 r.2 = some u ∧
        HasField generated u k v := by
  obtain ⟨composed, hcompose, hfinish⟩ := h.finished
  exact (hasField_parts generated rfl h.own_conflicts (fun _ he => (mem_directFields.1 he).2) hcompose hfinish).2

section

variable (hdistinct : c.DistinctNames) (hexact : ∀ name, R name → Exact c R written generated fieldsOf name)
include hdistinct hexact

/-- A field that is in conflict comes from the conflicts alone. -/
theorem of_conflict (h : Composition c R written generated fieldsOf names t fields maps depth s') {w : Shape}
    (hk : k ∈ Assoc.keys (conflictsAmong maps fields)) (hw : HasField generated s' k w) :
    ∃ v₀, (k, v₀) ∈ conflictsAmong maps fields ∧ (finishWithin depth v₀).answer fieldsOf = .ok w := by
  rcases (h.hasField_iff.2 k w).1 hw with hw | ⟨_, -, hk', -⟩ | ⟨r, hr, u, hu, hw⟩
  · exact hw
  · exact absurd hk hk'
  · obtain ⟨key, he, hkey⟩ := mem_refsOf.1 hr
    rw [keepRef?_eq hu] at hw
    cases hw with
    | ref hs homitted hw =>
      have hbrings := ((h.refs key r.1 r.2 he hkey).brings_iff hdistinct hexact).1 ⟨_, w, hs, hw⟩
      exact absurd (List.mem_filter.2 ⟨hk, Assoc.has_iff.2 hbrings⟩) homitted

/-- So it is given once. -/
theorem once (h : Composition c R written generated fieldsOf names t fields maps depth s') {u v₀ w : Shape}
    (hv₀ : (k, v₀) ∈ conflictsAmong maps fields) (hu : (finishWithin depth v₀).answer fieldsOf = .ok u)
    (hw : HasField generated s' k w) : w = u := by
  obtain ⟨w₀, hw₀, hfinish⟩ := h.of_conflict hdistinct hexact (List.mem_map_of_mem hv₀) hw
  have hget : ∀ v, (k, v) ∈ conflictsAmong maps fields → Assoc.get? (conflictsAmong maps fields) k = some v :=
    fun v hv => Assoc.get?_of_mem nodup_conflicts hv
  cases Option.some.inj ((hget v₀ hv₀).symm.trans (hget w₀ hw₀))
  exact Except.ok.inj (hfinish.symm.trans hu)

/-- What a finished composition holds under a key is held by one of the contributions to the key. -/
theorem holds_contributions (h : Composition c R written generated fieldsOf names t fields maps depth s') {w : Shape}
    (hw : HasField generated s' k w) : isFragmentKey k = false ∧ ∀ path, w.Holds generated path →
      ∃ v ∈ contributions (directFields fields) maps ((refsOf fields).map Prod.fst) k, v.Holds written path := by
  obtain ⟨composed, hcompose, hfinish⟩ := h.finished
  have hmatches := matches_composed (n := {}) hdistinct h.conform h.refs hcompose hfinish
  have hw' := (Shape.hasField_withNote {}).2 hw
  refine ⟨(hmatches.sound k w hw').1, fun path hpath => (holds_object_iff (n := {}) h.conform h.refs).1 ?_⟩
  exact (hmatches.holds_iff hdistinct hexact).1 ⟨w, hw', hpath⟩

/-- A contribution to a field that is not in conflict has its place in a finished composition, if the shapes of the fragments are
covered that it refers to. -/
theorem given_of_contribution (h : Composition c R written generated fieldsOf names t fields maps depth s')
    (hcovered : ∀ key r n f, (key, .ref r n) ∈ fields → isFragmentKey key = true → generated r.fragment = some f →
      Covered generated f) (hk : isFragmentKey k = false) (hmoved : k ∉ Assoc.keys (conflictsAmong maps fields)) {u : Shape}
    (hu : u ∈ contributions (directFields fields) maps ((refsOf fields).map Prod.fst) k) :
    ∃ v, HasField generated s' k v ∧ ∀ path, u.Holds written path → v.Holds generated path := by
  rcases mem_contributions.1 hu with hget | ⟨r, hr, hget⟩
  · -- a direct field
    have hmem := Assoc.mem_of_get? hget
    obtain ⟨v, hfinish⟩ := h.hasField_iff.1 _ hmem hmoved
    refine ⟨v, (h.hasField_iff.2 k v).2 (Or.inr (Or.inl ⟨u, hmem, hmoved, hfinish⟩)), fun path hpath => ?_⟩
    have hentry := (directFields_conform h.conform).entries _ hmem
    exact (hentry.holds_finished hdistinct hexact hk ⟨depth, hfinish⟩).2 hpath
  · -- a field of a fragment, whose shape is covered
    obtain ⟨⟨r, m⟩, hr', rfl⟩ := List.mem_map.1 hr
    obtain ⟨key, he, hkey⟩ := mem_refsOf.1 hr'
    have hr := h.refs key r m he hkey
    obtain ⟨-, f, hf, -⟩ := hr.shapes
    have hholds : ∀ path, u.Holds written path → ∃ v, HasField generated f k v ∧ v.Holds generated path :=
      fun path hpath => (hr.holds_iff hdistinct hexact hf).2 ⟨u, hget, hpath⟩
    obtain ⟨v', hv', -⟩ := hholds [] Shape.holds_nil
    obtain ⟨v, hv, hcover⟩ := hcovered key r m f he hkey hf k v' hv'
    have hkept := keepRef?_of_get? m nodup_conflicts hget hmoved
    refine ⟨v, (h.hasField_iff.2 k v).2 (Or.inr (Or.inr ⟨(r, m), hr', _, hkept, ?_⟩)), fun path hpath => ?_⟩
    · exact .ref hf (fun homitted => hmoved (List.mem_filter.1 homitted).1) hv
    · obtain ⟨w, hw, hheld⟩ := hholds path hpath
      exact hcover w hw path hheld

/-- A finished composition is covered if the shapes of the fragments are that it refers to. -/
theorem covered (h : Composition c R written generated fieldsOf names t fields maps depth s')
    (hcovered : ∀ key r n f, (key, .ref r n) ∈ fields → isFragmentKey key = true → generated r.fragment = some f →
      Covered generated f) : Covered generated s' := by
  intro k u hu
  have hheld := fun w hw => (h.holds_contributions (k := k) (w := w) hdistinct hexact hw).2
  have hk := (h.holds_contributions hdistinct hexact hu).1
  by_cases hmoved : k ∈ Assoc.keys (conflictsAmong maps fields)
  · refine ⟨u, hu, fun w hw path hpath => ?_⟩
    obtain ⟨v₀, hv₀, hfinish⟩ := h.of_conflict hdistinct hexact hmoved hu
    rwa [← h.once hdistinct hexact hv₀ hfinish hw]
  · cases hshapes : contributions (directFields fields) maps ((refsOf fields).map Prod.fst) k with
    | nil =>
      obtain ⟨v, hv, -⟩ := hheld u hu [] Shape.holds_nil
      rw [hshapes] at hv
      cases hv
    | cons first rest =>
      have hagreed : conflict? (first :: rest) = none := by
        rw [← hshapes, ← get?_conflicts]
        exact Assoc.get?_eq_none.2 hmoved
      have hconforms : ∀ v ∈ first :: rest, EntryConforms c R names t k v := fun v hv =>
        conforms_contributions (directFields_conform h.conform) (fun r hr => (refFields_conform h.refs r hr).1) (hshapes ▸ hv)
      obtain ⟨v, hv, hgiven⟩ := h.given_of_contribution hdistinct hexact hcovered hk hmoved (hshapes ▸ List.mem_cons_self)
      refine ⟨v, hv, fun w hw path hpath => hgiven path ?_⟩
      exact holds_first hdistinct hk hconforms hagreed (hshapes ▸ hheld w hw path hpath)

/-- A finished composition is coherent if the shapes of the fragments are covered that it refers to.  What is kept are
references to them. -/
theorem coherent (h : Composition c R written generated fieldsOf names t fields maps depth s')
    (hcovered : ∀ key r n f, (key, .ref r n) ∈ fields → isFragmentKey key = true → generated r.fragment = some f →
      Covered generated f) :
    ∃ moved remaining kept, Coherent generated t.name moved remaining kept (s'.withNote n) ∧
      ∀ r ∈ kept, ∃ key r' m, (key, .ref r' m) ∈ fields ∧ isFragmentKey key = true ∧ r.1.fragment = r'.fragment := by
  obtain ⟨composed, hcompose, hfinish⟩ := h.finished
  have hdirect := directFields_conform h.conform
  have hnodup : ∀ r ∈ refsOf fields, (Assoc.keys (Shape.refFields maps r.1)).Nodup := fun r hr =>
    (refFields_conform h.refs r.1 (List.mem_map_of_mem hr)).1.nodup
  rw [compose_eq_joinParts hnodup hcompose] at hfinish
  have hremainingOwn : ∀ e ∈ remainingFields (conflictsAmong maps fields) (directFields fields),
      isFragmentKey e.1 = false :=
    fun e he => (mem_directFields.1 (List.mem_filter.1 he).1).2
  obtain ⟨moved, remaining, hmoved, hremaining, hs'⟩ := answer_finish_joinParts h.own_conflicts hremainingOwn hfinish
  have hkeys : Assoc.keys (moved ++ remaining) =
      Assoc.keys (conflictsAmong maps fields ++ remainingFields (conflictsAmong maps fields) (directFields fields)) := by
    rw [Assoc.keys, Assoc.keys, List.map_append, List.map_append]
    exact congrArg₂ _ (keys_finishFields hmoved) (keys_finishFields hremaining)
  refine ⟨moved, remaining, keptRefs (conflictsAmong maps fields) maps (refsOf fields), ?_, fun r hr => ?_⟩
  · constructor
    case eq_joined =>
      rw [Shape.note_withNote, hs']
      rfl
    case nodup => exact hkeys ▸ nodup_keys_remainingFields nodup_conflicts hdirect.nodup
    case own => exact own_of_keys_eq hkeys (List.forall_mem_append.2 ⟨h.own_conflicts, hremainingOwn⟩)
    case known =>
      intro r hr
      obtain ⟨key, r, m, he, hkey, rfl, -⟩ := exists_of_mem_keptRefs hr
      obtain ⟨-, f, hf, -⟩ := (h.refs key r m he hkey).shapes
      exact Option.isSome_iff_exists.2 ⟨f, hf⟩
    case omitted =>
      intro r hr
      obtain ⟨key, r, m, he, hkey, rfl, -⟩ := exists_of_mem_keptRefs hr
      refine ⟨nodup_conflicts.filter _, fun k => mem_omittedOf.trans ?_⟩
      rw [keys_finishFields hmoved]
      exact and_congr_right fun _ => ((h.refs key r m he hkey).brings_iff hdistinct hexact).symm
    case proper =>
      intro r hr hbrings
      obtain ⟨key, r, m, he, hkey, rfl, hleft⟩ := exists_of_mem_keptRefs hr
      obtain ⟨k, hk, hmoved⟩ := (h.refs key r m he hkey).brings_left hdistinct hexact hleft hbrings
      exact ⟨k, hk, fun homitted => hmoved (mem_omittedOf.1 homitted).1⟩
    case once =>
      intro k v w hv hw
      obtain ⟨v₀, hv₀, hfinish'⟩ := ((answer_finishFields hmoved).2 k v).1 hv
      exact h.once hdistinct hexact hv₀ hfinish' ((Shape.hasField_withNote n).1 hw)
    case covered => exact (h.covered hdistinct hexact hcovered).withNote n
  · obtain ⟨key, r', m, he, hkey, rfl, -⟩ := exists_of_mem_keptRefs hr
    exact ⟨key, r', m, he, hkey, rfl⟩

end

end Composition

/-- The references among the parts of a coherent shape are those that were kept. -/
theorem Coherent.mem_kept {typeName : String} {moved remaining : Fields} {kept : List (FragmentRef × Note)}
    (h : Coherent generated typeName moved remaining kept s) (hr : .ref r n ∈ s.parts) : ∃ m, (r, m) ∈ kept := by
  have hparts : ∀ p ∈ (objectOf? typeName moved).toList ++ (objectOf? typeName remaining).toList ++
      kept.map (fun r => Shape.ref r.1 r.2), (∃ fs, p = .object typeName fs {}) ∨ ∃ e ∈ kept, p = .ref e.1 e.2 := by
    have hobject : ∀ fs p, p ∈ (objectOf? typeName fs).toList → ∃ fs, p = .object typeName fs {} := by
      intro fs p hp
      unfold objectOf? at hp
      split at hp <;> simp_all
    intro p hp
    rcases List.mem_append.1 hp with hp | hp
    · exact Or.inl ((List.mem_append.1 hp).elim (hobject _ p) (hobject _ p))
    · obtain ⟨e, he, rfl⟩ := List.mem_map.1 hp
      exact Or.inr ⟨e, he, rfl⟩
  rw [h.eq_joined, joinParts_eq] at hr
  generalize (objectOf? typeName moved).toList ++ (objectOf? typeName remaining).toList ++
    kept.map (fun r => Shape.ref r.1 r.2) = parts at hparts hr
  match parts with
  | [] => simp [joinAll, Shape.withNote, Shape.parts] at hr
  | [p] =>
    rcases hparts p (List.mem_singleton_self p) with ⟨fs, rfl⟩ | ⟨e, he, rfl⟩
    · simp [joinAll, Shape.withNote, Shape.parts] at hr
    · simp only [joinAll, Shape.withNote, Shape.parts, List.mem_singleton, Shape.ref.injEq] at hr
      exact ⟨e.2, hr.1 ▸ he⟩
  | p :: q :: rest =>
    rcases hparts _ hr with ⟨fs, hfs⟩ | ⟨e, he, heq⟩
    · cases hfs
    · cases heq
      exact ⟨_, he⟩

/-- The shapes of which the generated shape of a fragment is composed are coherent. -/
def Coheres (c : Sources) (generated : String → Option Shape) (name : String) : Prop :=
  ∀ f names t s, Assoc.get? c.fragments name = some f → c.schema.type? f.fragment.condition = some t →
    t.body.isObject = true → NamedBy c names t f.fragment.selections → generated name = some s →
    ∀ u, ComposedOf generated s u → IsCoherent generated u

/-- References in fields that conform are to fragments in `R`. -/
theorem FieldsConform.mem_of_ref (h : FieldsConform c R names t fields) (he : (key, .ref r n) ∈ fields)
    (hkey : isFragmentKey key = true) : R r.fragment := by
  cases h.entries _ he with
  | field hk => exact absurd (hk.symm.trans hkey) Bool.false_ne_true
  | spread _ hR => exact hR

section

variable (hdistinct : c.DistinctNames) (hexact : ∀ name, R name → Exact c R written generated fieldsOf name)
include hdistinct hexact

/-- A finished object is coherent if the shapes of the fragments are covered that it refers to. -/
theorem coherent_finishes (ht : Known c.toConfig t) (hobject : t.body.isObject = true)
    (hfields : FieldsConform c R names t fields) (h : Finishes fieldsOf (.object t.name fields n) s')
    (hcovered : ∀ key r n f, (key, .ref r n) ∈ fields → isFragmentKey key = true → generated r.fragment = some f →
      Covered generated f) :
    ∃ moved remaining kept, Coherent generated t.name moved remaining kept s' ∧
      ∀ r ∈ kept, ∃ key r' m, (key, .ref r' m) ∈ fields ∧ isFragmentKey key = true ∧ r.1.fragment = r'.fragment := by
  obtain ⟨depth, h⟩ := h
  cases hany : fields.any (fun e => isFragmentKey e.1) with
  | false =>
    obtain ⟨remaining, hcoherent⟩ := coherent_plain hfields.nodup
      (fun e he => Bool.eq_false_of_not_eq_true (List.any_eq_false.1 hany e he)) h
    exact ⟨[], remaining, [], hcoherent, List.forall_mem_nil _⟩
  | true =>
    rw [finishWithin_object, if_pos hany] at h
    cases depth with
    | zero => cases h
    | succ depth =>
      obtain ⟨composed, hcomposed, h⟩ := Query.answer_bind_ok h
      obtain ⟨w, hw, h⟩ := Query.answer_bind_ok h
      cases h
      obtain ⟨maps, hmaps, hcompose⟩ := compose_of_composeRefs hcomposed
      have hrefs : ∀ key r m, (key, .ref r m) ∈ fields → isFragmentKey key = true →
          RefHolds c R written generated fieldsOf names t key r m (Shape.refFields maps r) := by
        intro key r m he hkey
        exact (hfields.entries _ he).refHolds hkey ht hobject (hexact _ (hfields.mem_of_ref he hkey))
          (hmaps (r, m) (mem_refsOf.2 ⟨key, he, hkey⟩))
      have hcomposition : Composition c R written generated fieldsOf names t fields maps depth w :=
        ⟨hfields, hrefs, composed, hcompose, hw⟩
      exact hcomposition.coherent hdistinct hexact hcovered

/-- A finished object is composed of coherent shapes if the fragments are that it refers to. -/
theorem coherent_object (ht : Known c.toConfig t) (hobject : t.body.isObject = true)
    (hfields : FieldsConform c R names t fields) (h : Finishes fieldsOf (.object t.name fields n) s')
    (hcoheres : ∀ key r n, (key, .ref r n) ∈ fields → isFragmentKey key = true → Coheres c generated r.fragment)
    {u : Shape} (hu : ComposedOf generated s' u) : IsCoherent generated u := by
  have hfragment : ∀ key r m f, (key, .ref r m) ∈ fields → isFragmentKey key = true → generated r.fragment = some f →
      ∀ u, ComposedOf generated f u → IsCoherent generated u := by
    intro key r m f he hkey hf
    have hcoh := hcoheres key r m he hkey
    cases hfields.entries _ he with
    | field hk => exact absurd (hk.symm.trans hkey) Bool.false_ne_true
    | @spread _ _ _ g _ _ _ hg hcondition hnamed =>
      exact hcoh g names t f hg ((congrArg _ hcondition).trans ht) hobject hnamed hf
  obtain ⟨moved, remaining, kept, hcoherent, hkept⟩ :=
    coherent_finishes hdistinct hexact ht hobject hfields h fun key r m f he hkey hf => by
      obtain ⟨_, _, _, _, hcoherent⟩ := hfragment key r m f he hkey hf f .self
      exact hcoherent.covered
  cases hu with
  | self => exact ⟨_, moved, remaining, kept, hcoherent⟩
  | fragment hr hf hu =>
    obtain ⟨m, hr⟩ := hcoherent.mem_kept hr
    obtain ⟨key, r', m', he, hkey, heq⟩ := hkept _ hr
    exact hfragment key r' m' _ he hkey (heq ▸ hf) u hu

section Values

variable {v₀ v w u : Shape} (hcoheres : ∀ name, R name → Coheres c generated name)
include hcoheres

/-- A finished shape that conforms is composed of coherent shapes if it is one of objects. -/
theorem coherent_value (h : Conforms c R names type nullable v₀) (hv : Finishes fieldsOf v₀ v)
    (hcomposite : v.element.IsComposite) (hu : ComposedOf generated v.element u) : IsCoherent generated u := by
  induction type generalizing nullable v₀ v with
  | nonNull type ih =>
    cases h with
    | nonNull h => exact ih h hv hcomposite hu
  | list type ih =>
    cases h with
    | list _ h =>
      obtain ⟨element, helement, rfl⟩ := finishes_array hv
      exact ih h helement hcomposite hu
  | named name =>
    cases h with
    | leaf =>
      cases finishes_scalar hv
      exact hcomposite.elim
    | object _ ht hobject hnodup hentries =>
      have hknown : Known c.toConfig _ := (congrArg _ (Schema.name_of_type? ht)).trans ht
      have hfields : FieldsConform c R names _ _ := ⟨hnodup, hentries⟩
      rw [(matches_of_conforms hdistinct hexact hknown hobject hfields hv).composite.element_eq] at hu
      exact coherent_object hdistinct hexact hknown hobject hfields hv
        (fun key r n he hkey => hcoheres _ (hfields.mem_of_ref he hkey)) hu

/-- What stands at a path of a finished shape is composed of coherent shapes if it is one of objects. -/
theorem coherent_finished (h : Conforms c R names type nullable v₀) (hv : Finishes fieldsOf v₀ v)
    (hw : v.At generated path w) (hcomposite : w.element.IsComposite) (hu : ComposedOf generated w.element u) :
    IsCoherent generated u := by
  induction path generalizing names type nullable v₀ v with
  | nil =>
    cases hw
    exact coherent_value hdistinct hexact hcoheres h hv hcomposite hu
  | cons k path ih =>
    induction type generalizing nullable v₀ v with
    | nonNull type ihType =>
      cases h with
      | nonNull h => exact ihType h hv hw
    | list type ihType =>
      cases h with
      | list _ h =>
        obtain ⟨element, helement, rfl⟩ := finishes_array hv
        exact ihType h helement hw
    | named name =>
      obtain ⟨x, hx, hpath⟩ := hw
      cases h with
      | leaf =>
        cases finishes_scalar hv
        cases hx
      | object _ ht hobject hnodup hentries =>
        have hknown : Known c.toConfig _ := (congrArg _ (Schema.name_of_type? ht)).trans ht
        have hmatches := matches_of_conforms hdistinct hexact hknown hobject ⟨hnodup, hentries⟩ hv
        rw [hmatches.composite.element_eq] at hx
        obtain ⟨hk, x₀, hfinish, hconforms, -⟩ := hmatches.sound k x hx
        cases hconforms with
        | tag =>
          cases finishes_tag hfinish
          cases path with
          | nil =>
            cases hpath
            exact hcomposite.elim
          | cons j path =>
            obtain ⟨y, hy, -⟩ := hpath
            cases hy
        | field _ _ _ hx₀ => exact ih hx₀ hfinish hpath
        | spread hkey =>
          rw [hkey, isFragmentKey_fragmentKey] at hk
          cases hk

end Values

end

/-- The shapes of fragments that are made are composed of coherent shapes. -/
theorem Stocked.coheres (h : Stocked c R written generated fieldsOf) (hc : c.Named) (hsimple : c.Simple) (name : String)
    (hR : R name) : Coheres c generated name := by
  induction name using hsimple.acyclic.induction with
  | hstep name ih =>
    intro f names t s' hf ht hobject hnamed hs' u hu
    have hknown : Known c.toConfig t := (congrArg _ (Schema.name_of_type? ht)).trans ht
    obtain ⟨s, hsome, hwrites⟩ := (fragment_writes hc hsimple h.wrote name hR f hf).2 names t ht hobject hnamed
    obtain ⟨s'', hs'', hfinish⟩ := h.finished name s hR hsome
    cases hs'.symm.trans hs''
    rw [hwrites.eq_object] at hfinish
    refine coherent_object hsimple.distinct (h.exact hc hsimple) hknown hobject hwrites.conforms hfinish
      (fun key r n hmem _ => ?_) hu
    obtain ⟨hspreads, hmade⟩ := h.wrote.spreads hc hR hsome hmem
    exact ih _ hspreads hmade

end ResponseTypes.Compile
