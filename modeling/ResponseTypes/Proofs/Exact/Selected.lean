import Mathlib.Data.Fintype.Card
import Mathlib.Data.Set.Finite.Basic
import Mathlib.Logic.Relation
import ResponseTypes.Compile.Branches
import ResponseTypes.Proofs.Branch.Collected

/-!
# Selected fields

Field collection looks through inline fragments and spreads (`Collects`).  The fields that it reaches on a type stand at
response paths (`FieldAt`): what is selected below all fields of one key is collected together, so that a path is selected
if some selections on the way lead to it (`Selects`).  If fragments do not spread themselves, what holds of a fragment as
soon as it holds of those it spreads holds of all (`Sources.Acyclic.induction`).
-/

namespace ResponseTypes

set_option autoImplicit false

open GraphQL (FieldHead Selection TypeDef)

namespace Schema

/-- No type is an interface or a union. -/
def ObjectsOnly (s : Schema) : Prop :=
  ∀ name t, s.type? name = some t → t.body.isAbstract = false

/-- Then type conditions apply to the types that they name. -/
theorem eq_of_applies {s : Schema} (h : s.ObjectsOnly) {condition concrete : String}
    (happlies : s.doesFragmentTypeApply condition concrete = true) : condition = concrete := by
  cases ht : s.type? condition with
  | none => simp [doesFragmentTypeApply, ht] at happlies
  | some t =>
    by_cases hobject : t.body.isObject = true
    · exact (applies_of_isObject ht hobject concrete).1 happlies
    · have hpossible := (applies_of_not_isObject ht hobject concrete).1 happlies
      exact absurd (isAbstract_of_mem_possible ht hpossible) (by simp [h condition t ht])

end Schema

namespace Compile

/-! ## Plain selections -/

mutual

/-- Neither `@skip` nor `@include` stands anywhere in a selection, and no response key looks like the key of a fragment. -/
def isPlain : Selection → Bool
  | .field head below => !(Selection.field head below).isConditional && !isFragmentKey head.key && areAllPlain below
  | .spread name directives => !(Selection.spread name directives).isConditional
  | .inline condition directives below => !(Selection.inline condition directives below).isConditional && areAllPlain below

/-- All selections are plain. -/
def areAllPlain : List Selection → Bool
  | [] => true
  | s :: rest => isPlain s && areAllPlain rest

end

/-! ## Field collection -/

/-- A field, with what is selected below it, that selections reach for values of a concrete type. -/
inductive Collects (c : Sources) (n : String) : List Selection → FieldHead → List Selection → Prop
  | field {sels below : List Selection} {head : FieldHead} : .field head below ∈ sels → Collects c n sels head below
  | spread {sels below : List Selection} {head : FieldHead} {name : String} {directives : List GraphQL.Directive}
      {f : FragmentDef} : .spread name directives ∈ sels → Assoc.get? c.fragments name = some f →
      c.schema.doesFragmentTypeApply f.fragment.condition n = true → Collects c n f.fragment.selections head below →
      Collects c n sels head below
  | inline {sels inner below : List Selection} {head : FieldHead} {condition : Option String}
      {directives : List GraphQL.Directive} : .inline condition directives inner ∈ sels →
      (∀ name ∈ condition, c.schema.doesFragmentTypeApply name n = true) → Collects c n inner head below →
      Collects c n sels head below

/-- The object type of what a field of a type holds, in whatever lists. -/
def Sources.child? (c : Sources) (t : TypeDef) (name : String) : Option TypeDef :=
  if name = typenameKey then none
  else (t.field? name).bind fun f => (c.schema.type? f.type.base).filter fun t' => t'.body.isObject

/-- A field of the type `parent` that selections on a type ask for at a response path. -/
inductive FieldAt (c : Sources) : TypeDef → List Selection → List String → TypeDef → FieldHead → Prop
  | here {t : TypeDef} {sels below : List Selection} {head : FieldHead} : Collects c t.name sels head below →
      FieldAt c t sels [head.key] t head
  | deeper {t t' parent : TypeDef} {sels below : List Selection} {head last : FieldHead} {path : List String} :
      Collects c t.name sels head below → c.child? t head.name = some t' → FieldAt c t' below path parent last →
      FieldAt c t sels (head.key :: path) parent last

/-- Selections on a type ask for something at a response path. -/
def Selects (c : Sources) : TypeDef → List Selection → List String → Prop
  | _, _, [] => True
  | t, sels, k :: path => ∃ head below, Collects c t.name sels head below ∧ head.key = k ∧
      (path = [] ∨ ∃ t', c.child? t head.name = some t' ∧ Selects c t' below path)

variable {c : Sources} {n : String} {sels rest below inner : List Selection} {head : FieldHead} {t : TypeDef}

theorem selects_iff {path : List String} (h : path ≠ []) :
    Selects c t sels path ↔ ∃ parent last, FieldAt c t sels path parent last := by
  induction path generalizing t sels with
  | nil => exact absurd rfl h
  | cons k path ih =>
    constructor
    · rintro ⟨head, below, hcollects, rfl, rfl | ⟨t', ht', hbelow⟩⟩
      · exact ⟨t, head, .here hcollects⟩
      · by_cases hpath : path = []
        · subst hpath
          exact ⟨t, head, .here hcollects⟩
        · obtain ⟨parent, last, hlast⟩ := (ih hpath).1 hbelow
          exact ⟨parent, last, .deeper hcollects ht' hlast⟩
    · rintro ⟨parent, last, hlast⟩
      cases hlast with
      | here hcollects => exact ⟨_, _, hcollects, rfl, Or.inl rfl⟩
      | deeper hcollects ht' hlast =>
        have hpath : path ≠ [] := by
          rintro rfl
          cases hlast
        exact ⟨_, _, hcollects, rfl, Or.inr ⟨_, ht', (ih hpath).2 ⟨parent, last, hlast⟩⟩⟩

theorem not_collects_nil : ¬Collects c n [] head below := by
  intro h
  cases h with
  | field h | spread h | inline h => cases h

theorem collects_append : Collects c n (sels ++ rest) head below ↔ Collects c n sels head below ∨ Collects c n rest head below := by
  constructor
  · intro h
    cases h with
    | field h => exact (List.mem_append.1 h).imp .field .field
    | spread h hf happlies hinner =>
      exact (List.mem_append.1 h).imp (.spread · hf happlies hinner) (.spread · hf happlies hinner)
    | inline h happlies hinner => exact (List.mem_append.1 h).imp (.inline · happlies hinner) (.inline · happlies hinner)
  · rintro (h | h)
    · cases h with
      | field h => exact .field (List.mem_append_left _ h)
      | spread h hf happlies hinner => exact .spread (List.mem_append_left _ h) hf happlies hinner
      | inline h happlies hinner => exact .inline (List.mem_append_left _ h) happlies hinner
    · cases h with
      | field h => exact .field (List.mem_append_right _ h)
      | spread h hf happlies hinner => exact .spread (List.mem_append_right _ h) hf happlies hinner
      | inline h happlies hinner => exact .inline (List.mem_append_right _ h) happlies hinner

theorem collects_cons {s : Selection} {l : List Selection} :
    Collects c n (s :: l) head below ↔ Collects c n [s] head below ∨ Collects c n l head below :=
  show Collects c n ([s] ++ l) head below ↔ _ from collects_append

theorem collects_field {first : FieldHead} :
    Collects c n [.field first inner] head below ↔ first = head ∧ inner = below := by
  constructor
  · intro h
    cases h with
    | field h =>
      cases List.mem_singleton.1 h
      exact ⟨rfl, rfl⟩
    | spread h | inline h => cases List.mem_singleton.1 h
  · rintro ⟨rfl, rfl⟩
    exact .field (List.mem_singleton_self _)

theorem collects_spread {name : String} {directives : List GraphQL.Directive} {f : FragmentDef}
    (hf : Assoc.get? c.fragments name = some f) :
    Collects c n [.spread name directives] head below ↔
      c.schema.doesFragmentTypeApply f.fragment.condition n = true ∧ Collects c n f.fragment.selections head below := by
  constructor
  · intro h
    cases h with
    | spread h hf' happlies hinner =>
      cases List.mem_singleton.1 h
      cases hf.symm.trans hf'
      exact ⟨happlies, hinner⟩
    | field h | inline h => cases List.mem_singleton.1 h
  · rintro ⟨happlies, hinner⟩
    exact .spread (List.mem_singleton_self _) hf happlies hinner

theorem collects_inline {condition : Option String} {directives : List GraphQL.Directive} :
    Collects c n [.inline condition directives inner] head below ↔
      (∀ name ∈ condition, c.schema.doesFragmentTypeApply name n = true) ∧ Collects c n inner head below := by
  constructor
  · intro h
    cases h with
    | inline h happlies hinner =>
      cases List.mem_singleton.1 h
      exact ⟨happlies, hinner⟩
    | field h | spread h => cases List.mem_singleton.1 h
  · rintro ⟨happlies, hinner⟩
    exact .inline (List.mem_singleton_self _) happlies hinner

theorem selects_cons {s : Selection} {l : List Selection} {k : String} {path : List String} :
    Selects c t (s :: l) (k :: path) ↔ Selects c t [s] (k :: path) ∨ Selects c t l (k :: path) := by
  simp only [Selects, collects_cons (l := l), or_and_right, exists_or]

theorem not_selects_nil {k : String} {path : List String} : ¬Selects c t [] (k :: path) := by
  rintro ⟨head, below, h, -⟩
  exact not_collects_nil h

theorem selects_field {k : String} {path : List String} :
    Selects c t [.field head inner] (k :: path) ↔
      head.key = k ∧ (path = [] ∨ ∃ t', c.child? t head.name = some t' ∧ Selects c t' inner path) := by
  simp only [Selects, collects_field, and_assoc, exists_and_left, exists_eq_left']

theorem selects_spread {name : String} {directives : List GraphQL.Directive} {f : FragmentDef}
    (hf : Assoc.get? c.fragments name = some f) {k : String} {path : List String} :
    Selects c t [.spread name directives] (k :: path) ↔
      c.schema.doesFragmentTypeApply f.fragment.condition t.name = true ∧ Selects c t f.fragment.selections (k :: path) := by
  simp only [Selects, collects_spread hf, and_assoc, exists_and_left]

theorem selects_inline {condition : Option String} {directives : List GraphQL.Directive} {k : String} {path : List String} :
    Selects c t [.inline condition directives inner] (k :: path) ↔
      (∀ name ∈ condition, c.schema.doesFragmentTypeApply name t.name = true) ∧ Selects c t inner (k :: path) := by
  simp only [Selects, collects_inline, and_assoc, exists_and_left]

/-- Selections that collect the same ask for the same. -/
theorem selects_congr {more : List Selection}
    (h : ∀ head below, Collects c t.name sels head below ↔ Collects c t.name more head below) (path : List String) :
    Selects c t sels path ↔ Selects c t more path := by
  cases path with
  | nil => exact Iff.rfl
  | cons k path => simp only [Selects, h]

/-! ## Names of fields -/

/-- The field names that selections on a type ask for at response paths. -/
def NamedBy (c : Sources) (names : List String → String) (t : TypeDef) (sels : List Selection) : Prop :=
  ∀ path parent last, FieldAt c t sels path parent last → last.name = names path

theorem NamedBy.mono {names : List String → String} {more : List Selection} (h : NamedBy c names t more)
    (hsels : ∀ head below, Collects c t.name sels head below → Collects c t.name more head below) :
    NamedBy c names t sels := by
  intro path parent last hlast
  refine h path parent last ?_
  cases hlast with
  | here hcollects => exact .here (hsels _ _ hcollects)
  | deeper hcollects ht' hlast => exact .deeper (hsels _ _ hcollects) ht' hlast

theorem NamedBy.name_eq {names : List String → String} (h : NamedBy c names t sels)
    (hcollects : Collects c t.name sels head below) : head.name = names [head.key] :=
  h _ _ _ (.here hcollects)

theorem NamedBy.descend {names : List String → String} (h : NamedBy c names t sels)
    (hcollects : Collects c t.name sels head below) {t' : TypeDef} (ht' : c.child? t head.name = some t') :
    NamedBy c (fun path => names (head.key :: path)) t' below :=
  fun _ _ _ hlast => h _ _ _ (.deeper hcollects ht' hlast)

/-- Fields that share a response key are the same field. -/
def SameFields (c : Sources) (t : TypeDef) (sels : List Selection) : Prop :=
  ∀ path parent last parent' last', FieldAt c t sels path parent last → FieldAt c t sels path parent' last' →
    last.name = last'.name

theorem SameFields.namedBy (h : SameFields c t sels) : ∃ names, NamedBy c names t sels := by
  classical
  refine ⟨fun path => if hpath : ∃ parent last, FieldAt c t sels path parent last then hpath.choose_spec.choose.name else "",
    fun path parent last hlast => ?_⟩
  have hpath : ∃ parent last, FieldAt c t sels path parent last := ⟨parent, last, hlast⟩
  dsimp only
  rw [dif_pos hpath]
  exact h path _ _ _ _ hlast hpath.choose_spec.choose_spec

mutual

/-- No field is given another response key than its name. -/
def isUnlabelled : Selection → Bool
  | .field head below => head.label.isNone && areUnlabelled below
  | .spread _ _ => true
  | .inline _ _ below => areUnlabelled below

def areUnlabelled : List Selection → Bool
  | [] => true
  | s :: rest => isUnlabelled s && areUnlabelled rest

end

theorem isUnlabelled_of_mem {s : Selection} (h : areUnlabelled sels = true) (hs : s ∈ sels) : isUnlabelled s = true := by
  induction sels with
  | nil => cases hs
  | cons first rest ih =>
    rw [areUnlabelled, Bool.and_eq_true] at h
    rcases List.mem_cons.1 hs with rfl | hs
    · exact h.1
    · exact ih h.2 hs

theorem Collects.unlabelled (h : Collects c n sels head below)
    (hfragments : ∀ name f, Assoc.get? c.fragments name = some f → areUnlabelled f.fragment.selections = true)
    (hsels : areUnlabelled sels = true) : head.key = head.name ∧ areUnlabelled below = true := by
  induction h with
  | field hmem =>
    have hfield := isUnlabelled_of_mem hsels hmem
    rw [isUnlabelled, Bool.and_eq_true, Option.isNone_iff_eq_none] at hfield
    exact ⟨by rw [FieldHead.key, hfield.1]; rfl, hfield.2⟩
  | spread _ hf _ _ ih => exact ih (hfragments _ _ hf)
  | inline hmem _ _ ih =>
    have hinline := isUnlabelled_of_mem hsels hmem
    rw [isUnlabelled] at hinline
    exact ih hinline

/-- Without labels, fields that share a response key have its name. -/
theorem sameFields_of_unlabelled
    (hfragments : ∀ name f, Assoc.get? c.fragments name = some f → areUnlabelled f.fragment.selections = true)
    (hsels : areUnlabelled sels = true) : SameFields c t sels := by
  have hlast : ∀ path parent last, FieldAt c t sels path parent last → path.getLast? = some last.name := by
    intro path parent last h
    induction h with
    | here hcollects => rw [List.getLast?_singleton, (hcollects.unlabelled hfragments hsels).1]
    | @deeper _ _ _ _ _ _ _ path hcollects _ hbelow ih =>
      have hpath := ih (hcollects.unlabelled hfragments hsels).2
      rw [List.getLast?_cons, hpath]
      rfl
  intro path parent last parent' last' h h'
  exact Option.some.inj ((hlast path parent last h).symm.trans (hlast path parent' last' h'))

/-! ## Fragments -/

mutual

/-- The fragments that a selection spreads at any depth. -/
def spreadsIn : Selection → List String
  | .field _ below => spreadsInAll below
  | .spread name _ => [name]
  | .inline _ _ below => spreadsInAll below

/-- The fragments that selections spread at any depth. -/
def spreadsInAll : List Selection → List String
  | [] => []
  | s :: rest => spreadsIn s ++ spreadsInAll rest

end

/-- A fragment spreads another one. -/
def Sources.Spreading (c : Sources) (name other : String) : Prop :=
  ∃ f, Assoc.get? c.fragments name = some f ∧ other ∈ spreadsInAll f.fragment.selections

/-- No fragment spreads itself, directly or through others. -/
def Sources.Acyclic (c : Sources) : Prop :=
  ∀ name, ¬Relation.TransGen c.Spreading name name

/-- What holds of a fragment if it holds of those it spreads holds of all. -/
theorem Sources.Acyclic.induction (h : c.Acyclic) {P : String → Prop}
    (hstep : ∀ name, (∀ other, c.Spreading name other → P other) → P name) (name : String) : P name := by
  have hwf : WellFounded fun a b : { name // name ∈ Assoc.keys c.fragments } => Relation.TransGen c.Spreading b.1 a.1 := by
    have hfinite : Finite { name // name ∈ Assoc.keys c.fragments } := (List.finite_toSet (Assoc.keys c.fragments)).to_subtype
    have htrans : IsTrans { name // name ∈ Assoc.keys c.fragments } fun a b => Relation.TransGen c.Spreading b.1 a.1 :=
      ⟨fun _ _ _ hab hbc => hbc.trans hab⟩
    have hirrefl : Std.Irrefl fun a b : { name // name ∈ Assoc.keys c.fragments } => Relation.TransGen c.Spreading b.1 a.1 :=
      ⟨fun a => h a.1⟩
    exact Finite.wellFounded_of_trans_of_irrefl _
  have hknown : ∀ a : { name // name ∈ Assoc.keys c.fragments }, P a.1 := by
    intro a
    induction a using hwf.induction with
    | h a ih =>
      refine hstep a.1 fun other hother => ?_
      by_cases hmem : other ∈ Assoc.keys c.fragments
      · exact ih ⟨other, hmem⟩ (.single hother)
      · exact hstep other fun _ ⟨_, hf, _⟩ => absurd (Assoc.mem_keys_of_get? hf) hmem
  by_cases hmem : name ∈ Assoc.keys c.fragments
  · exact hknown ⟨name, hmem⟩
  · exact hstep name fun _ ⟨_, hf, _⟩ => absurd (Assoc.mem_keys_of_get? hf) hmem

end Compile

end ResponseTypes
