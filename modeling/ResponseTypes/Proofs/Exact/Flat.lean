import ResponseTypes.Proofs.Exact.Compiled
import ResponseTypes.Proofs.Plan.Queries

/-!
# Flat fields conform

The field map of a fragment, in which the fields of the fragments that it spreads stand among its own, conforms to the
fragment's type and holds what the fragment asks for (`fragment_flattens`).
-/

namespace ResponseTypes.Compile

set_option autoImplicit false

open GraphQL (Selection TypeDef)
open Shape (EntryHolds FieldsHold RefsIn fieldRefsIn_iff mergeFields)

/-- The fields that are kept for a fragment conform to its type and hold what it asks for; there are no references among
them. -/
def Flattens (c : Sources) (R : String → Prop) (written : String → Option Shape) (fieldsOf : String → Option Fields)
    (name : String) : Prop :=
  ∀ f m names t, Assoc.get? c.fragments name = some f → fieldsOf name = some m →
    c.schema.type? f.fragment.condition = some t → t.body.isObject = true → NamedBy c names t f.fragment.selections →
    FieldsConform c R names t m ∧ (∀ e ∈ m, isFragmentKey e.1 = false) ∧
      ∀ k path, FieldsHold written m (k :: path) ↔ Selects c t f.fragment.selections (k :: path)

variable {c : Sources} {R : String → Prop} {written : String → Option Shape} {fieldsOf : String → Option Fields}
  {names : List String → String} {t : TypeDef} {fields before m : Fields}

theorem isFragmentKey_mergeFields {a b : Fields} (ha : ∀ e ∈ a, isFragmentKey e.1 = false)
    (hb : ∀ e ∈ b, isFragmentKey e.1 = false) : ∀ e ∈ mergeFields a b, isFragmentKey e.1 = false := by
  intro e he
  rcases List.mem_append.1 he with he | he
  · obtain ⟨e', he', rfl⟩ := List.mem_map.1 he
    exact ha e' he'
  · exact hb e (List.mem_filter.1 he).1

/-- Fields of fragments take the places of the references among fields that conform. -/
theorem flatOwnFields_conform (hdistinct : c.DistinctNames) (ht : Known c.toConfig t) (hobject : t.body.isObject = true)
    (hentries : ∀ e ∈ fields, EntryConforms c R names t e.1 e.2)
    (hrefs : ∀ key r n, (key, .ref r n) ∈ fields → Supplied c R written r.fragment ∧ Flattens c R written fieldsOf r.fragment)
    (hbefore : FieldsConform c R names t before) (hown : ∀ e ∈ before, isFragmentKey e.1 = false)
    (h : (flatOwnFields before fields).answer fieldsOf = .ok m) :
    FieldsConform c R names t m ∧ (∀ e ∈ m, isFragmentKey e.1 = false) ∧
      ∀ k path, FieldsHold written m (k :: path) ↔ FieldsHold written before (k :: path) ∨ FieldsHold written fields (k :: path) := by
  induction fields generalizing before with
  | nil =>
    cases h
    exact ⟨hbefore, hown, fun k path => by simp⟩
  | cons e rest ih =>
    obtain ⟨key, s⟩ := e
    have hnext : ∀ more, FieldsConform c R names t more → (∀ e ∈ more, isFragmentKey e.1 = false) →
        (∀ k path, FieldsHold written more (k :: path) ↔ EntryHolds written key s (k :: path)) →
        (flatOwnFields (mergeFields before more) rest).answer fieldsOf = .ok m →
        FieldsConform c R names t m ∧ (∀ e ∈ m, isFragmentKey e.1 = false) ∧ ∀ k path, FieldsHold written m (k :: path) ↔
          FieldsHold written before (k :: path) ∨ FieldsHold written ((key, s) :: rest) (k :: path) := by
      intro more hmore hmoreOwn hholds hanswer
      obtain ⟨hconforms, hmerged⟩ := conforms_mergeFields written hdistinct hbefore hmore
      obtain ⟨hm, hmOwn, hmHolds⟩ := ih (fun e he => hentries e (List.mem_cons_of_mem _ he))
        (fun key r n he => hrefs key r n (List.mem_cons_of_mem _ he)) hconforms (isFragmentKey_mergeFields hown hmoreOwn) hanswer
      refine ⟨hm, hmOwn, fun k path => ?_⟩
      rw [hmHolds, hmerged, hholds, Shape.fieldsHold_cons, or_assoc]
    have hentry := hentries _ List.mem_cons_self
    rw [flatOwnFields] at h
    by_cases hkey : isFragmentKey key = true
    · rw [if_pos hkey, Query.answer_bind] at h
      cases hentry with
      | tag hk | field hk =>
        rw [hk] at hkey
        cases hkey
      | @spread _ _ _ f n _ hR hf hcondition hnamed =>
        obtain ⟨hsupplied, hflattens⟩ := hrefs _ _ _ List.mem_cons_self
        have htype : c.schema.type? f.fragment.condition = some t := (congrArg _ hcondition).trans ht
        obtain ⟨fs, hsome, hwrites⟩ := (hsupplied f hf).2 names t htype hobject hnamed
        simp only [flatFields, Query.answer, fragmentRef] at h
        cases hfields : fieldsOf f.fragment.name with
        | none => simp [hfields] at h
        | some more =>
          rw [hfields] at h
          obtain ⟨hmore, hmoreOwn, hmoreHolds⟩ := hflattens f more names t hf hfields htype hobject hnamed
          refine hnext more hmore hmoreOwn (fun k path => ?_) h
          rw [hmoreHolds, entryHolds_ref hkey hsome hwrites]
    · rw [if_neg hkey, Query.answer_bind] at h
      refine hnext [(key, s)] (fieldsConform_singleton hentry) (by simpa using hkey) (fun k path => ?_) h
      rw [Shape.fieldsHold_cons, or_iff_left Shape.not_fieldsHold_nil]

/-- The references in the shape of a fragment are to fragments that it spreads, which are made as well. -/
theorem Wrote.spreads (hwrote : Wrote c R written) (hc : c.Named) {name : String} (hR : R name) {s : Shape}
    (hs : written name = some s) {key : String} {r : FragmentRef} {n : Note} (hmem : (key, .ref r n) ∈ s.fields) :
    c.Spreading name r.fragment ∧ R r.fragment := by
  obtain ⟨f, t, s', hf, ht, hs', hwritten, hneeds⟩ := hwrote name hR
  cases hwritten.symm.trans hs
  have hrefs := selection_refs (N := (· ∈ (selection c.toConfig t f.fragment.selections).needs c)) hc t f.fragment.selections
    (fun _ hn => hn) s' hs'
  have hneeded := (fieldRefsIn_iff.1 (Shape.refsIn_fields (Shape.refsIn_simplify s' hrefs)) _ hmem).1
  exact ⟨⟨f, hf, mem_spreadsInAll_of_needs hs' hneeded⟩, hneeds _ hneeded⟩

/-- The fields that are kept for a fragment are those of its shape, with the fields of the fragments that it spreads. -/
theorem fragment_flattens (hc : c.Named) (hsimple : c.Simple) (hwrote : Wrote c R written)
    (hflat : ∀ name s m, R name → written name = some s → fieldsOf name = some m → (flatFields s).answer fieldsOf = .ok m)
    (name : String) (hR : R name) : Flattens c R written fieldsOf name := by
  induction name using hsimple.acyclic.induction with
  | hstep name ih =>
    intro f m names t hf hm ht hobject hnamed
    have hknown : Known c.toConfig t := (congrArg _ (Schema.name_of_type? ht)).trans ht
    obtain ⟨s, hsome, hwrites⟩ := (fragment_writes hc hsimple hwrote name hR f hf).2 names t ht hobject hnamed
    have hinner : ∀ key r n, (key, .ref r n) ∈ s.fields →
        Supplied c R written r.fragment ∧ Flattens c R written fieldsOf r.fragment := by
      intro key r n hmem
      obtain ⟨hspreads, hmade⟩ := hwrote.spreads hc hR hsome hmem
      exact ⟨fragment_writes hc hsimple hwrote _ hmade, ih _ hspreads hmade⟩
    have hanswer := hflat name s m hR hsome hm
    rw [hwrites.eq_object, flatFields] at hanswer
    obtain ⟨hconforms, hown, hholds⟩ := flatOwnFields_conform hsimple.distinct hknown hobject hwrites.conforms.entries hinner
      fieldsConform_nil (by simp) hanswer
    refine ⟨hconforms, hown, fun k path => ?_⟩
    rw [hholds, or_iff_right Shape.not_fieldsHold_nil, ← hwrites.holds, hwrites.eq_object, Shape.holds_object]
    rfl

end ResponseTypes.Compile
