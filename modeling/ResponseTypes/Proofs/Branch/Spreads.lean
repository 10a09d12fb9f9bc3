import ResponseTypes.Proofs.Branch.Keys
import ResponseTypes.Proofs.Branch.Tags
import ResponseTypes.Proofs.Exact.Expand
import ResponseTypes.Proofs.Plan.Ending

/-!
# References to fragments

Each fragment that is spread for a concrete type is referred to in the object of that type, under a key of its own
(`references_of_spread`).  Only selections that are nothing but spreads take the fast path to other shapes than objects, and
on it one fragment at most is spread for each type (`eq_of_fastPath`).
-/

namespace ResponseTypes.Compile

set_option autoImplicit false

open GraphQL (Selection TypeDef)
open GraphQL.Selection (ListKeysNamed)
open Plan (Gives gives_bind gives_mono gives_pure gives_trivial)

variable {c : Sources} {N : Need → Prop} {n k k' : String} {t : TypeDef} {sels : List Selection} {f g : FragmentDef}
  {shape : Shape}

/-! ## Spreads -/

/-- A fragment is spread for values of a concrete type, in selections or in inline fragments among them. -/
inductive SpreadFor (c : Sources) (n : String) : List Selection → FragmentDef → Prop
  | here {sels : List Selection} {name : String} {directives : List GraphQL.Directive} {f : FragmentDef} :
      .spread name directives ∈ sels → Assoc.get? c.fragments name = some f →
      c.schema.doesFragmentTypeApply f.fragment.condition n = true → SpreadFor c n sels f
  | inline {sels inner : List Selection} {condition : Option String} {directives : List GraphQL.Directive} {f : FragmentDef} :
      .inline condition directives inner ∈ sels → (∀ name ∈ condition, c.schema.doesFragmentTypeApply name n = true) →
      SpreadFor c n inner f → SpreadFor c n sels f

theorem mem_collectKeys {s : Selection} (hs : s ∈ sels) (hk : k ∈ selectionKeys c n s) : k ∈ collectKeys c n sels := by
  induction sels with
  | nil => cases hs
  | cons first rest ih =>
    rw [collectKeys_cons, List.mem_append]
    rcases List.mem_cons.1 hs with rfl | hs
    · exact Or.inl hk
    · exact Or.inr (ih hs)

theorem SpreadFor.mem_collectKeys (h : SpreadFor c n sels f) : spreadKey c f ∈ collectKeys c n sels := by
  induction h with
  | here hmem hf happlies => exact Compile.mem_collectKeys hmem ((mem_selectionKeys_spread hf).2 ⟨happlies, rfl⟩)
  | inline hmem happlies _ ih =>
    exact Compile.mem_collectKeys hmem (mem_selectionKeys_inline.2 ⟨(Option.all_eq_true _ _).2 happlies, ih⟩)

/-- The key of a fragment is not that of type tags. -/
theorem tells_spreadKey (c : Sources) (f : FragmentDef) : c.Tells (spreadKey c f) := by
  intro _ heq
  have hkey := isFragmentKey_fragmentKey (c.naming.fragment f.fragment.name)
  rw [← spreadKey, heq] at hkey
  exact absurd hkey (by decide)

/-! ## The fast path -/

/-- Groups of spreads alone that take a short cut hold one key at most for each type. -/
theorem eq_of_shortcut? {small : List Selection → Prop} {g : Groups small} {possible : List String}
    (hspreads : (g.base.isEmpty && g.concreteInlines.isEmpty && g.abstractInlines.isEmpty) = true)
    (hnodup : (Assoc.keys g.concreteSpreads).Nodup) (hshort : shortcut? c.toConfig t possible g = some shape)
    (hk : g.Holds c false n k) (hk' : g.Holds c false n k') : k = k' := by
  simp only [Bool.and_eq_true, List.isEmpty_iff] at hspreads
  obtain ⟨⟨hbase, hinlines⟩, habstract⟩ := hspreads
  unfold shortcut? at hshort
  split at hshort
  · rename_i own hown
    split at hshort
    · rename_i hempty
      simp only [Bool.and_eq_true, List.isEmpty_iff] at hempty
      have hsingle : ∀ k, g.Holds c false n k → k = spreadKey c own := by
        intro k hk
        simpa [Groups.Holds, Groups.Shares, Groups.Targets, At, not_hasKey_nil, hbase, hinlines, habstract, hown, hempty.1,
          hempty.2] using hk
      rw [hsingle k hk, hsingle k' hk']
    · cases hshort
  · cases hshort
  · rename_i hown
    split at hshort
    · cases hshort
    · rename_i hsingle
      simp only [Bool.or_eq_true, Bool.not_eq_true', List.isEmpty_eq_false_iff, not_or, not_not, Bool.not_eq_true,
        List.any_eq_false, decide_eq_true_eq, not_lt] at hsingle
      have hat : ∀ k, g.Holds c false n k → ∃ f, At g.concreteSpreads n f ∧ k = spreadKey c f := by
        intro k hk
        simpa [Groups.Holds, Groups.Shares, Groups.Targets, At, not_hasKey_nil, hbase, hinlines, habstract, hown,
          hsingle.1] using hk
      obtain ⟨f, ⟨e, he, hname, hf⟩, rfl⟩ := hat k hk
      obtain ⟨f', ⟨e', he', hname', hf'⟩, rfl⟩ := hat k' hk'
      obtain rfl := List.inj_on_of_nodup_map hnodup he he' (hname.trans hname'.symm)
      obtain ⟨f₀, heq⟩ := List.length_eq_one_iff.1 (le_antisymm (hsingle.2 e he) (List.length_pos_of_mem hf))
      rw [heq, List.mem_singleton] at hf hf'
      rw [hf, hf']

/-- On the fast path one key at most is collected for each type. -/
theorem eq_of_fastPath (ht : Known c.toConfig t) (hfast : fastPath? c t sels = some shape) (hn : n ∈ c.schema.possible t.name)
    (hk : c.Tells k) (hk' : c.Tells k') (hmem : k ∈ collectKeys c n sels) (hmem' : k' ∈ collectKeys c n sels) : k = k' := by
  unfold fastPath? at hfast
  split at hfast
  · cases hfast
  · rename_i g hg
    split at hfast
    · rename_i hspreads
      have hholds : ∀ k, c.Tells k → k ∈ collectKeys c n sels → g.Holds c false n k := fun k hk hmem =>
        (groups_gather (N := fun _ => True) false hk ht sels _ {} (fun _ _ => trivial) g hg n hn).2
          (Or.inr ((keysIf_false n t sels).symm ▸ hmem))
      have hnodup := groups_nodup (c := c) (N := fun _ => True) t sels (fun _ h => h) {} List.nodup_nil
        (fun _ _ => trivial) g hg
      exact eq_of_shortcut? hspreads hnodup hfast (hholds k hk hmem) (hholds k' hk' hmem')
    · cases hfast

/-! ## Objects -/

/-- Selections on an object type form an object of it. -/
theorem objectSelection_typed (t : TypeDef) (fields : Fields) (tagged : Bool) (sels : List Selection) :
    Gives c N (objectSelection c.toConfig t fields tagged sels) fun s => s = .object t.name s.fields {} := by
  induction sels generalizing fields tagged with
  | nil =>
    rw [objectSelection, objectOf]
    split
    · exact gives_bind gives_trivial fun _ _ => gives_pure rfl
    · exact gives_pure rfl
  | cons s rest ih =>
    cases s with
    | field head below =>
      rw [objectSelection]
      split <;> exact gives_bind gives_trivial fun _ _ => ih _ _
    | spread name directives =>
      rw [objectSelection]
      refine gives_bind gives_trivial fun f _ => ?_
      split <;> exact ih _ tagged
    | inline condition directives below =>
      rw [objectSelection]
      split
      · exact gives_bind gives_trivial fun _ _ => gives_bind gives_trivial fun _ _ => ih _ tagged
      · exact ih _ tagged

theorem selection_typed (hobject : t.body.isObject = true) (sels : List Selection) :
    Gives c N (selection c.toConfig t sels) fun s => s = .object t.name s.fields {} := by
  refine gives_kept (selection.eq_1 c.toConfig t sels) ?_
  change Gives c N (if t.body.isAbstract then _ else _) _
  rw [if_neg (GraphQL.TypeBody.not_isAbstract hobject), if_pos hobject]
  exact objectSelection_typed t [] false sels

/-- What is compiled for values of a type. -/
theorem outcome_regular (ht : Known c.toConfig t) (hsels : ListKeysNamed sels)
    (h : (selection c.toConfig t sels).outcome c = .ok shape) : shape.Regular := by
  have hsettles := Plan.ensures_outcome (selection_ensures (D := .harmless Need.Anything) t sels ht hsels)
  rw [h] at hsettles
  exact hsettles.regular

/-- Some fields have a reference to a fragment under its key. -/
def Refers (c : Sources) (fields : Fields) (f : FragmentDef) : Prop :=
  ∃ r n, Assoc.get? fields (spreadKey c f) = some (.ref r n) ∧ r.artifact = c.naming.fragment f.fragment.name

/-- In regular fields the key of a fragment has a reference to it. -/
theorem refers_of_mem {fields : Fields} (h : Shape.FieldsRegular fields) (hkey : spreadKey c f ∈ Assoc.keys fields) :
    Refers c fields f := by
  cases hget : Assoc.get? fields (spreadKey c f) with
  | none => exact absurd hkey (Assoc.get?_eq_none.1 hget)
  | some s =>
    obtain ⟨r, n, rfl, heq⟩ := Shape.exists_ref_of_refersAs ((Shape.suits_get? h hget).1 (isFragmentKey_fragmentKey _))
    exact ⟨r, n, hget, (fragmentKey_inj heq).symm⟩

theorem regular_of_mem_branches {s b : Shape} (hs : s.Regular) (hb : b ∈ s.branches) : b.Regular := by
  cases s with
  | union shapes note => exact Shape.listRegular_iff.1 hs b hb
  | scalar | tag | object | array | inter | ref => exact List.mem_singleton.1 hb ▸ hs

theorem mem_branches_ofBranches {branches : List Shape} {typeName : String} {fields : Fields}
    (h : .object typeName fields {} ∈ branches) : .object typeName fields {} ∈ (ofBranches t branches).branches := by
  match branches, h with
  | [s], h =>
    obtain rfl := List.mem_singleton.1 h
    exact List.mem_singleton_self _
  | _ :: _ :: _, h => exact h

/-- The object of a type that selections are compiled to refers to each of two fragments with different names that are
spread for the type. -/
theorem references_of_spread (ht : Known c.toConfig t) (hsels : ListKeysNamed sels)
    (h : (selection c.toConfig t sels).outcome c = .ok shape) (hn : c.schema.doesFragmentTypeApply t.name n = true)
    (hf : SpreadFor c n sels f) (hg : SpreadFor c n sels g)
    (hne : c.naming.fragment f.fragment.name ≠ c.naming.fragment g.fragment.name) :
    ∃ fields, .object n fields {} ∈ shape.branches ∧ Refers c fields f ∧ Refers c fields g := by
  have hregular := outcome_regular ht hsels h
  have hgives : ∀ {P : Shape → Prop}, Gives c (fun _ => True) (selection c.toConfig t sels) P → P shape := fun hP =>
    hP (fun _ _ => trivial) shape h
  by_cases hobject : t.body.isObject = true
  · obtain rfl := (Schema.applies_of_isObject ht hobject n).1 hn
    have heq := hgives (selection_typed hobject sels)
    have hkeys : ∀ f, SpreadFor c t.name sels f → Refers c shape.fields f := by
      intro f hf
      refine refers_of_mem ?_ ((hgives (selection_collects (tells_spreadKey c f) ht hobject sels)).2 hf.mem_collectKeys)
      rw [heq] at hregular
      exact hregular
    refine ⟨shape.fields, ?_, hkeys f hf, hkeys g hg⟩
    rw [heq]
    exact List.mem_singleton_self _
  · have hpossible := (Schema.applies_of_not_isObject ht hobject n).1 hn
    have habstract := Schema.isAbstract_of_mem_possible ht hpossible
    cases hfast : fastPath? c t sels with
    | some fast =>
      refine absurd (fragmentKey_inj ?_) hne
      exact eq_of_fastPath ht hfast hpossible (tells_spreadKey c f) (tells_spreadKey c g) hf.mem_collectKeys hg.mem_collectKeys
    | none =>
      obtain ⟨fields, rfl, hkeys⟩ := exists_branches ht habstract h hfast
      have hmem : .object n (fields n) {} ∈
          (ofBranches t ((c.schema.possible t.name).map fun n => .object n (fields n) {})).branches :=
        mem_branches_ofBranches (List.mem_map.2 ⟨n, hpossible, rfl⟩)
      have hkeys : ∀ f, SpreadFor c n sels f → Refers c (fields n) f := fun f hf =>
        refers_of_mem (regular_of_mem_branches hregular hmem)
          (hasKey_false.1 ((hkeys n hpossible false _ (tells_spreadKey c f)).2 ((keysIf_false n t sels).symm ▸ hf.mem_collectKeys)))
      exact ⟨fields n, hmem, hkeys f hf, hkeys g hg⟩

end ResponseTypes.Compile
