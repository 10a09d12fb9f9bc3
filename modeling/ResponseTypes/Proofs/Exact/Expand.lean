import ResponseTypes.Shape.Basic

/-!
# Expanded shapes

A shape is read with the generated shapes in the place of references to fragments, less the fields that these leave out; the
fields of an intersection are those of its parts.  What is below all fields of one key stands at a path together
(`Shape.At`).
-/

namespace ResponseTypes

set_option autoImplicit false

theorem isFragmentKey_fragmentKey (artifact : String) : isFragmentKey (fragmentKey artifact) = true := by
  unfold isFragmentKey fragmentKey
  rw [String.toList_append, List.isPrefixOf_iff_prefix]
  exact List.prefix_append _ _

theorem fragmentKey_inj {artifact other : String} (h : fragmentKey artifact = fragmentKey other) : artifact = other := by
  have hlist := congrArg String.toList h
  unfold fragmentKey at hlist
  rw [String.toList_append, String.toList_append] at hlist
  exact String.toList_inj.1 (List.append_cancel_left hlist)

namespace Shape

/-- What stands inside all arrays. -/
def element : Shape → Shape
  | array s _ _ => element s
  | s => s

/-- The shape is one of objects: an object, an intersection or a reference. -/
def IsComposite : Shape → Prop
  | object _ _ _ | inter _ _ | ref _ _ => True
  | scalar _ _ | tag _ _ | array _ _ _ | union _ _ => False

theorem IsComposite.element_eq {s : Shape} (h : s.IsComposite) : s.element = s := by
  cases s <;> first | rfl | exact h.elim

theorem IsComposite.withNote {s : Shape} (h : s.IsComposite) (n : Note) : (s.withNote n).IsComposite := by
  cases s <;> first | exact trivial | exact h.elim

variable (generated : String → Option Shape)

/-- A field of a shape, given the shapes that are generated for fragments. -/
inductive HasField : Shape → String → Shape → Prop
  | own {typeName : String} {fields : Fields} {n : Note} {k : String} {v : Shape} : (k, v) ∈ fields →
      isFragmentKey k = false → HasField (object typeName fields n) k v
  /-- a fragment that stands among fields brings its own -/
  | brought {typeName : String} {fields : Fields} {n : Note} {key k : String} {s v : Shape} : (key, s) ∈ fields →
      isFragmentKey key = true → HasField s k v → HasField (object typeName fields n) k v
  | part {parts : List Shape} {n : Note} {k : String} {s v : Shape} : s ∈ parts → HasField s k v → HasField (inter parts n) k v
  | ref {r : FragmentRef} {n : Note} {k : String} {s v : Shape} : generated r.fragment = some s → k ∉ r.omitted →
      HasField s k v → HasField (ref r n) k v

/-- What stands at a path in a shape. -/
def At : Shape → List String → Shape → Prop
  | s, [], v => v = s
  | s, k :: path, v => ∃ u, HasField generated s.element k u ∧ At u path v

/-- Something stands at a path in a shape. -/
def Holds (s : Shape) (path : List String) : Prop :=
  ∃ v, s.At generated path v

variable {generated} {s : Shape} {k : String} {path : List String}

@[simp] theorem holds_nil : s.Holds generated [] :=
  ⟨s, rfl⟩

theorem holds_cons : s.Holds generated (k :: path) ↔ ∃ u, HasField generated s.element k u ∧ u.Holds generated path :=
  ⟨fun ⟨v, u, hu, hv⟩ => ⟨u, hu, v, hv⟩, fun ⟨u, hu, v, hv⟩ => ⟨v, u, hu, hv⟩⟩

theorem holds_array {elementNullable : Bool} {n : Note} :
    (array s elementNullable n).Holds generated path ↔ s.Holds generated path := by
  cases path with
  | nil => simp
  | cons k path => rw [holds_cons, holds_cons, element]

theorem hasField_withNote (n : Note) {u : Shape} : HasField generated (s.withNote n) k u ↔ HasField generated s k u := by
  constructor
  all_goals
    intro h
    cases s with
    | scalar | tag | array | union => cases h
    | object =>
      cases h with
      | own h hk => exact .own h hk
      | brought h hkey hs => exact .brought h hkey hs
    | inter =>
      cases h with
      | part h hs => exact .part h hs
    | ref =>
      cases h with
      | ref h hk hs => exact .ref h hk hs

theorem holds_withNote (n : Note) : (s.withNote n).Holds generated path ↔ s.Holds generated path := by
  cases path with
  | nil => simp
  | cons k path =>
    rw [holds_cons, holds_cons]
    have helement : ∀ u, HasField generated (s.withNote n).element k u ↔ HasField generated s.element k u := by
      intro u
      cases s with
      | array => exact Iff.rfl
      | scalar | tag | object | union | inter | ref => exact hasField_withNote n
    simp only [helement]

theorem not_holds_scalar {code : String} {n : Note} : ¬(scalar code n).Holds generated (k :: path) := by
  rintro ⟨v, u, hu, -⟩
  cases hu

theorem not_holds_tag {t : TypeTag} {n : Note} : ¬(tag t n).Holds generated (k :: path) := by
  rintro ⟨v, u, hu, -⟩
  cases hu

theorem holds_ref {r : FragmentRef} {n : Note} :
    (ref r n).Holds generated (k :: path) ↔
      k ∉ r.omitted ∧ ∃ s, generated r.fragment = some s ∧ ∃ u, HasField generated s k u ∧ u.Holds generated path := by
  rw [holds_cons]
  constructor
  · rintro ⟨u, hu, hpath⟩
    cases hu with
    | ref hs hk hu => exact ⟨hk, _, hs, u, hu, hpath⟩
  · rintro ⟨hk, s, hs, u, hu, hpath⟩
    exact ⟨u, .ref hs hk hu, hpath⟩

/-! ## Fields -/

/-- What stands under a key among the fields of an object holds something at a path. -/
def EntryHolds (generated : String → Option Shape) (key : String) (s : Shape) : List String → Prop
  | [] => True
  | k :: path => if isFragmentKey key then ∃ u, HasField generated s k u ∧ u.Holds generated path
      else key = k ∧ s.Holds generated path

/-- The fields of an object hold something at a path. -/
def FieldsHold (generated : String → Option Shape) (fields : Fields) (path : List String) : Prop :=
  ∃ e ∈ fields, EntryHolds generated e.1 e.2 path

@[simp] theorem not_fieldsHold_nil : ¬FieldsHold generated [] path :=
  fun ⟨_, he, _⟩ => List.not_mem_nil he

theorem fieldsHold_cons {e : String × Shape} {rest : Fields} :
    FieldsHold generated (e :: rest) path ↔ EntryHolds generated e.1 e.2 path ∨ FieldsHold generated rest path := by
  simp only [FieldsHold, List.mem_cons, or_and_right, exists_or, exists_eq_left]

theorem holds_object {typeName : String} {fields : Fields} {n : Note} :
    (object typeName fields n).Holds generated (k :: path) ↔ FieldsHold generated fields (k :: path) := by
  rw [holds_cons]
  constructor
  · rintro ⟨u, hu, hpath⟩
    cases hu with
    | own hmem hk => exact ⟨_, hmem, by simpa [EntryHolds, hk] using hpath⟩
    | brought hmem hkey hs => exact ⟨_, hmem, by simpa [EntryHolds, hkey] using ⟨u, hs, hpath⟩⟩
  · rintro ⟨⟨key, s⟩, hmem, h⟩
    rw [EntryHolds] at h
    split at h
    · rename_i hkey
      obtain ⟨u, hu, hpath⟩ := h
      exact ⟨u, .brought hmem hkey hu, hpath⟩
    · rename_i hkey
      obtain ⟨rfl, hpath⟩ := h
      exact ⟨s, .own hmem (by simpa using hkey), hpath⟩

end Shape

end ResponseTypes
