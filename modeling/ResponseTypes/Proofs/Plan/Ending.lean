import ResponseTypes.Proofs.Plan.Agreeing
import ResponseTypes.Proofs.Plan.Depths
import ResponseTypes.Proofs.Plan.Ordered

/-!
# Runs come to an end

Fragments are put in each other's places, and composed, again and again; a failure stands for doing that without end.

`Solid` : the fragments that were made are in order, and have the heights that they are said to have.  A run keeps them so
(`Run.solid`), and no run among them fails for want of an end (`Run.ends`): a fragment that is put in the place of its spread
stands lower than those around it.
-/

namespace ResponseTypes.Compile

set_option autoImplicit false

open GraphQL (Selection TypeDef TypeRef)
open GraphQL.Selection (ListKeysNamed)
open Shape (FieldRefsIn)

/-! ## What plans and queries lack -/

/-- What is lacking may be anything but an end. -/
def Terms.ending : Terms :=
  ⟨Need.Anything, Lack.Ends⟩

instance : Terms.ending.Open where
  asks _ := trivial
  lacks e he file hend := by
    have hfile := he file
    rw [hend] at hfile
    exact hfile

section Lacks

variable {c : Sources} {L : Lack → Prop} {α β : Type} {P : α → Prop} {Q : β → Prop}

/-- It comes to a result that satisfies `P`, or lacks something in `L`. -/
def Settles (L : Lack → Prop) (P : α → Prop) : Except Lack α → Prop
  | .ok a => P a
  | .error e => L e

theorem settles_bind {x : Except Lack α} {f : α → Except Lack β} (hx : Settles L P x)
    (hf : ∀ a, x = .ok a → P a → Settles L Q (f a)) : Settles L Q (x >>= f) := by
  cases x with
  | error e => exact hx
  | ok a => exact hf a rfl hx

theorem Plan.settles_bind {p : Plan α} {f : α → Plan β} (hp : Settles L P (p.outcome c))
    (hf : ∀ a, p.outcome c = .ok a → P a → Settles L Q ((f a).outcome c)) : Settles L Q ((p >>= f).outcome c) := by
  rw [Plan.outcome_bind]
  cases ha : p.outcome c with
  | error e =>
    rw [ha] at hp
    exact hp
  | ok a =>
    rw [ha] at hp
    exact hf a ha hp

/-- What a plan comes to is as it ensures. -/
theorem Plan.ensures_outcome {D : Terms} [D.Lenient] {p : Plan α} (h : p.Ensures c D P) :
    Settles D.lacks P (p.outcome c) := by
  induction p with
  | done a | lack e => exact h
  | declare d next ih => exact ih h.2
  | code type next ih => exact ih _ (h.2 _)
  | spread name next ih =>
    cases hf : Assoc.get? c.fragments name with
    | none =>
      simp only [Plan.outcome, hf]
      exact Terms.Lenient.lacks _ fun _ => id
    | some f =>
      simp only [Plan.outcome, hf]
      exact ih f (h f hf)
  | keep typeName sels body next ihb ih =>
    have hbody := ihb h.1
    cases hs : body.outcome c with
    | error e =>
      simp only [Plan.outcome, hs]
      rwa [hs] at hbody
    | ok s =>
      simp only [Plan.outcome, hs]
      rw [hs] at hbody
      exact ih s (h.2 s hbody)
  | count thing next ih => exact ih h

/-- What a query is answered is as it ensures, if fields are answered on its terms. -/
theorem Query.ensures_answer {D : Query.Terms} {q : Query α} (h : q.Ensures D P) {fieldsOf : String → Option Fields}
    (hfields : ∀ name fields, fieldsOf name = some fields → D.answers name fields)
    (hmissing : ∀ name, D.lacks (.breach (.fieldsMissing name))) : Settles D.lacks P (q.answer fieldsOf) := by
  induction q with
  | done a | lack e => exact h
  | fields fragment next ih =>
    cases hf : fieldsOf fragment with
    | none =>
      simp only [Query.answer, hf]
      exact hmissing fragment
    | some found =>
      simp only [Query.answer, hf]
      exact ih found (h found (hfields fragment found hf))

end Lacks

/-! ## What is spread -/

section Spreading

variable {c : Sources} {α β : Type} {name : String} {directives : List GraphQL.Directive} {sels : List Selection}

/-- What the second of two plans needs, both need. -/
theorem Plan.mem_needs_bind {p : Plan α} {f : α → Plan β} {b : β} {n : Need} (hok : (p >>= f).outcome c = .ok b)
    (h : ∀ a, (f a).outcome c = .ok b → n ∈ (f a).needs c) : n ∈ (p >>= f).needs c := by
  obtain ⟨a, ha, hb⟩ := Plan.outcome_bind_ok hok
  rw [Plan.needs_bind, ha]
  exact List.mem_append_right _ (h a hb)

/-- A fragment that is spread is needed first. -/
theorem Plan.mem_needs_spread {p : FragmentDef → Plan α} {a : α} {n : Need}
    (hok : (Plan.spread name p).outcome c = .ok a)
    (h : ∀ f, (p f).outcome c = .ok a → n = .fragment name ∨ n ∈ (p f).needs c) : n ∈ (Plan.spread name p).needs c := by
  simp only [Plan.outcome] at hok
  simp only [Plan.needs]
  cases hf : Assoc.get? c.fragments name with
  | none => simp [hf] at hok
  | some f => simpa [hf] using h f (by simpa [hf] using hok)

theorem spread_mem_objectSelection {t : TypeDef} {fields : Fields} {tagged : Bool} {s : Shape}
    (hok : (objectSelection c.toConfig t fields tagged sels).outcome c = .ok s) (h : .spread name directives ∈ sels) :
    .fragment name ∈ (objectSelection c.toConfig t fields tagged sels).needs c := by
  induction sels generalizing fields tagged with
  | nil => cases h
  | cons first rest ih =>
    cases first with
    | field head below =>
      have h : .spread name directives ∈ rest := by simpa using h
      rw [objectSelection] at hok ⊢
      split at hok <;> rename_i htag
      · rw [if_pos htag]
        exact Plan.mem_needs_bind hok fun _ hrest => ih hrest h
      · rw [if_neg htag]
        exact Plan.mem_needs_bind hok fun _ hrest => ih hrest h
    | spread other directives' =>
      rw [objectSelection] at hok ⊢
      refine Plan.mem_needs_spread hok fun f hrest => ?_
      rcases List.mem_cons.1 h with h | h
      · cases h
        exact Or.inl rfl
      · refine Or.inr ?_
        change Plan.outcome c (if appliesTo c.toConfig f.fragment.condition t.name then _ else _) = _ at hrest
        change _ ∈ Plan.needs c (if appliesTo c.toConfig f.fragment.condition t.name then _ else _)
        split at hrest <;> rename_i happlies
        · rw [if_pos happlies]
          exact ih hrest h
        · rw [if_neg happlies]
          exact ih hrest h
    | inline condition directives' below =>
      have h : .spread name directives ∈ rest := by simpa using h
      rw [objectSelection] at hok ⊢
      split at hok <;> rename_i happlies
      · rw [if_pos happlies]
        exact Plan.mem_needs_bind hok fun _ hrest => Plan.mem_needs_bind hrest fun _ hrest => ih hrest h
      · rw [if_neg happlies]
        exact ih hok h

theorem spread_mem_groups {small : List Selection → Prop} {t : TypeDef}
    (hsmall : ∀ l, sizeOf l < sizeOf sels → small l) {g g' : Groups small}
    (hok : (groups c.toConfig t sels hsmall g).outcome c = .ok g') (h : .spread name directives ∈ sels) :
    .fragment name ∈ (groups c.toConfig t sels hsmall g).needs c := by
  induction sels generalizing g with
  | nil => cases h
  | cons first rest ih =>
    cases first with
    | field head below =>
      have h : .spread name directives ∈ rest := by simpa using h
      rw [groups] at hok ⊢
      split at hok <;> rename_i htag
      · rw [if_pos htag]
        exact Plan.mem_needs_bind hok fun _ hrest => ih _ hrest h
      · rw [if_neg htag]
        exact Plan.mem_needs_bind hok fun _ hrest => ih _ hrest h
    | spread other directives' =>
      rw [groups] at hok ⊢
      refine Plan.mem_needs_spread hok fun f hrest => ?_
      rcases List.mem_cons.1 h with h | h
      · cases h
        exact Or.inl rfl
      · refine Or.inr ?_
        change Plan.outcome c (if f.fragment.condition = t.name then _ else _) = _ at hrest
        change _ ∈ Plan.needs c (if f.fragment.condition = t.name then _ else _)
        split at hrest <;> rename_i hown
        · rw [if_pos hown]
          exact ih _ hrest h
        · rw [if_neg hown]
          refine Plan.mem_needs_bind hrest fun t' hrest => ?_
          split at hrest <;> rename_i hobject
          · rw [if_pos hobject]
            exact ih _ hrest h
          · rw [if_neg hobject]
            exact ih _ hrest h
    | inline condition directives' below =>
      have h : .spread name directives ∈ rest := by simpa using h
      rw [groups] at hok ⊢
      refine Plan.mem_needs_bind hok fun t' hrest => ?_
      split at hrest <;> rename_i hown
      · rw [if_pos hown]
        exact Plan.mem_needs_bind hrest fun _ hrest => ih _ hrest h
      · rw [if_neg hown]
        split at hrest <;> rename_i hobject
        · rw [if_pos hobject]
          exact ih _ hrest h
        · rw [if_neg hobject]
          exact ih _ hrest h

/-- Fragments that are spread in selections that can be compiled are needed for them. -/
theorem spread_mem_selection {t : TypeDef} {s : Shape} (hok : (selection c.toConfig t sels).outcome c = .ok s)
    (h : .spread name directives ∈ sels) : .fragment name ∈ (selection c.toConfig t sels).needs c := by
  have hbody : ∀ body, selection c.toConfig t sels = .keep t.name sels body .done →
      (∀ s, body.outcome c = .ok s → .fragment name ∈ body.needs c) →
      .fragment name ∈ (selection c.toConfig t sels).needs c := by
    intro body hbody hmem
    rw [hbody] at hok ⊢
    simp only [Plan.outcome] at hok
    simp only [Plan.needs]
    cases hs : body.outcome c with
    | error e => simp [hs] at hok
    | ok s => simpa using hmem s hs
  refine hbody _ (selection.eq_1 c.toConfig t sels) fun s hs => ?_
  change Plan.outcome c (if t.body.isAbstract then _ else _) = _ at hs
  change _ ∈ Plan.needs c (if t.body.isAbstract then _ else _)
  split at hs <;> rename_i habstract
  · rw [if_pos habstract]
    obtain ⟨g, hg, -⟩ := Plan.outcome_bind_ok hs
    rw [Plan.needs_bind]
    exact List.mem_append_left _ (spread_mem_groups _ hg h)
  · rw [if_neg habstract]
    split at hs <;> rename_i hobject
    · rw [if_pos hobject]
      exact spread_mem_objectSelection hs h
    · cases hs

/-- A fragment that can be compiled spreads what is spread in its selections. -/
theorem spreads_of_mem {f : FragmentDef} {fragment : String} (hf : Assoc.get? c.fragments fragment = some f) {s : Shape}
    (hok : (fragmentPlan c.toConfig f).outcome c = .ok s) (h : .spread name directives ∈ f.fragment.selections) :
    Spreads c fragment name := by
  rw [Spreads, needs_fragment hf]
  refine Plan.mem_needs_bind hok fun _ hrest => Plan.mem_needs_bind hrest fun t hrest => ?_
  obtain ⟨s, hs, -⟩ := Plan.outcome_bind_ok hrest
  rw [Plan.needs_bind]
  exact List.mem_append_left _ (spread_mem_selection hs h)

end Spreading

/-! ## Fragments that were made -/

/-- A fragment that was made can be compiled, and the height of its fields is right. -/
structure Upright (c : Sources) (p : Progress) (name : String) (piece : Piece) : Prop where
  compiled : ∃ f s, Assoc.get? c.fragments name = some f ∧ (fragmentPlan c.toConfig f).outcome c = .ok s
  fields : ∃ fields h, piece.fields = some (fields, h) ∧ LevelFields p.heightOf h fields ∧
    FieldRefsIn (c.leaves (Deep c ((Need.fragment name).needs c))) fields

/-- The fragments that were made are in order and upright. -/
structure Solid (c : Sources) (p : Progress) : Prop where
  ordered : Ordered c p
  made : ∀ name piece, Assoc.get? p (fragmentNode name) = some piece → Upright c p name piece

section Solid

variable {c : Sources} {late : TypeRef → Prop} {stack : Stack} {file : String} {p p' : Progress} {name : String}

theorem Solid.level (h : Solid c p) {fields : Fields} (hfields : p.fieldsOf name = some fields) :
    LevelFields p.heightOf (p.heightOf name) fields := by
  cases hpiece : Assoc.get? p (fragmentNode name) with
  | none => simp [Progress.fieldsOf, hpiece] at hfields
  | some piece =>
    obtain ⟨fields', height, hboth, hlevel, -⟩ := (h.made name piece hpiece).fields
    have hheight : p.heightOf name = height := by simp [Progress.heightOf, hpiece, hboth]
    have hsame : fields' = fields := by simpa [Progress.fieldsOf, hpiece, hboth] using hfields
    rw [hheight, ← hsame]
    exact hlevel

theorem Solid.closed (h : Solid c p) (needs : List Need) : Closed (c.leaves (Deep c needs)) p.fieldsOf := by
  intro name fields hname hfields
  cases hpiece : Assoc.get? p (fragmentNode name) with
  | none => simp [Progress.fieldsOf, hpiece] at hfields
  | some piece =>
    obtain ⟨fields', height, hboth, -, hrefs⟩ := (h.made name piece hpiece).fields
    have hsame : fields' = fields := by simpa [Progress.fieldsOf, hpiece, hboth] using hfields
    rw [← hsame]
    exact hrefs.mono (Config.leaves_le fun _ => Deep.trans (deep_fragment.1 (fragment_leaves.1 hname))) fields'

/-- Fields keep their height while more is made. -/
theorem LevelFields.extend {k : Nat} {fields : Fields} {needs : List Need} (h : LevelFields p.heightOf k fields)
    (hrefs : FieldRefsIn (c.leaves (Deep c needs)) fields) (hle : p.Le p')
    (hmade : ∀ other, Reached c (fragmentsIn needs) other → Assoc.has p (fragmentNode other)) :
    LevelFields p'.heightOf k fields := by
  have hsame : p.SameFields (c.leaves (Deep c needs)) p' :=
    hle.sameFields fun other hother => hmade other (deep_fragment.1 (fragment_leaves.1 hother))
  intro e he
  rw [Compile.height_congr (fun other hother => (hsame other hother).2) e.2 (Shape.fieldRefsIn_iff.1 hrefs e he)]
  exact h e he

/-- What meeting the need for a fragment adds. -/
theorem Need.piece_of_complete {piece : Piece}
    (h : (Need.fragment name).complete c file p = .ok (p ++ [(fragmentNode name, piece)])) :
    ∃ f s fields, Assoc.get? c.fragments name = some f ∧ (fragmentPlan c.toConfig f).outcome c = .ok s ∧
      (flatFields s).answer p.fieldsOf = .ok fields ∧ piece.fields = some (fields, fieldsHeight p.heightOf fields) := by
  obtain ⟨f, hf⟩ := Need.known_of_complete h
  simp only [Need.complete, hf] at h
  obtain ⟨s, hs, h⟩ := except_bind_ok h
  obtain ⟨piece', hpiece, h⟩ := except_bind_ok h
  obtain ⟨fields, hfields, hpiece⟩ := except_bind_ok hpiece
  obtain ⟨shape, -, hpiece⟩ := except_bind_ok hpiece
  cases List.append_cancel_left (Except.ok.inj h)
  cases hpiece
  exact ⟨f, s, fields, hf, hs, hfields, rfl⟩

/-- If no fragment is among the fields of the fragments that a shape refers to, none is among its own. -/
theorem own_of_flatFields {s : Shape} {L : Shape.Leaves} {fieldsOf : String → Option Fields} (closed : Closed L fieldsOf)
    (hs : s.RefsIn L) (hown : ∀ name fields, L.Fragment name → fieldsOf name = some fields → Own fields) {fields : Fields}
    (hfields : (flatFields s).answer fieldsOf = .ok fields) : Own fields := by
  classical
  let among := fun name => if L.Fragment name then fieldsOf name else none
  have hsame : (flatFields s).answer fieldsOf = (flatFields s).answer among :=
    Query.answer_congr (flatFields_within closed s hs) fun name hname => (if_pos hname).symm
  have hsettles : Settles (fun _ => True) Own ((flatFields s).answer among) :=
    Query.ensures_answer (D := ⟨fun _ => Own, fun _ => True⟩) (flatFields_own (fun _ _ => id) s)
      (fun name fields hname => ?_) fun _ => trivial
  · rw [← hsame, hfields] at hsettles
    exact hsettles
  · by_cases hL : L.Fragment name
    · exact hown name fields hL ((if_pos hL).symm.trans hname)
    · cases (if_neg hL).symm.trans hname

/-- A fragment is upright once it is made. -/
theorem Need.solid_complete {n : Need} (hc : c.Named) (h : n.complete c file p = .ok p')
    (hneeds : ∀ m ∈ n.needs c, m.Done c late stack p) (hp : Solid c p) : Solid c p' := by
  refine ⟨Need.ordered_complete h hneeds hp.ordered, fun name piece hget => ?_⟩
  rcases Need.complete_eq h with ⟨-, rfl⟩ | ⟨node, piece', hnode, -, rfl⟩
  · exact hp.made name piece hget
  have hle := Progress.le_append p [(node, piece')]
  cases hold : Assoc.get? p (fragmentNode name) with
  | some old =>
    rw [Assoc.get?_append_left hold] at hget
    cases hget
    obtain ⟨hcompiled, fields, height, hboth, hlevel, hrefs⟩ := hp.made name _ hold
    obtain ⟨rank, hrank⟩ := hp.ordered
    refine ⟨hcompiled, fields, height, hboth, hlevel.extend hrefs hle fun other hother => ?_, hrefs⟩
    exact (hrank.reached_lt (by rw [Assoc.has, hold]; rfl) hother).1
  | none =>
    rw [Assoc.get?_append_right hold, Assoc.get?_cons] at hget
    split at hget
    · rename_i heq
      subst heq
      cases hget
      obtain rfl := Need.eq_fragment_of_node hnode
      obtain ⟨f, s, fields, hf, hs, hfields, hboth⟩ := Need.piece_of_complete h
      have hmade : ∀ other, Reached c (fragmentsIn ((Need.fragment name).needs c)) other →
          Assoc.has p (fragmentNode other) := fun other hother =>
        hp.ordered.reached (fun first hfirst => (hneeds _ (mem_fragmentsIn.1 hfirst)).has_fragment) hother
      have hclosed := hp.closed ((Need.fragment name).needs c)
      have hrefs : s.RefsIn (c.leaves (Deep c ((Need.fragment name).needs c))) := by
        rw [needs_fragment hf]
        exact (refsIn_fragmentPlan hc hs).mono (Config.leaves_le fun _ => Or.inl) s
      have hfieldRefs := Query.within_answer (flatFields_within hclosed s hrefs) hfields
      have hown := own_of_flatFields hclosed hrefs (fun other fields _ hother e he => (hp.level hother e he).1) hfields
      exact ⟨⟨f, s, hf, hs⟩, fields, _, hboth, (level_of_own hown le_rfl).extend hfieldRefs hle hmade, hfieldRefs⟩
    · cases hget

/-- A run keeps what was made solid. -/
theorem Run.solid {needs : List Need} (hc : c.Named) (h : Run c late stack file p needs (.ok p')) (hp : Solid c p) :
    Solid c p' := by
  generalize ho : Except.ok p' = o at h
  induction h generalizing p' with
  | nil =>
    cases ho
    exact hp
  | later _ _ ih | settled _ _ ih => exact ih hp ho
  | circular | broken | lacking => cases ho
  | built _ _ hinner hcomplete _ ih ihr => exact ihr (Need.solid_complete hc hcomplete hinner.done (ih hp rfl)) ho

end Solid

/-! ## What a run lacks -/

/-- The root type of an operation is known, and its response keys are names. -/
def Need.Proper (c : Config) : Need → Prop
  | operation j => Compile.Known c j.root ∧ ListKeysNamed j.op.selections
  | _ => True

theorem Need.Inner.proper {c : Config} {n : Need} (h : n.Inner) : n.Proper c := by
  cases n with
  | operation j => exact h.elim
  | declared d | code type | fragment name | arguments j => trivial

section Ends

variable {c : Sources} {late : TypeRef → Prop} {stack : Stack} {file : String} {p : Progress}

/-- No fragment is put in its own place: what is spread in a fragment stands lower. -/
theorem inlineRoot_ends (hp : Solid c p) {rank : String → Nat} (hrank : Ranked c p rank) (root : String)
    (inside : List String) (sels : List Selection)
    (hneeds : ∀ name, .fragment name ∈ (inlineRoot c root inside sels).needs c → Assoc.has p (fragmentNode name))
    (hbelow : ∀ name directives, .spread name directives ∈ sels → ∀ above ∈ inside, rank name < rank above) :
    Settles Lack.Ends (fun _ => True) ((inlineRoot c root inside sels).outcome c) := by
  induction inside, sels using inlineRoot.induct c with
  | case1 inside =>
    rw [inlineRoot]
    trivial
  | case2 inside name directives rest ihf ih =>
    have hrest : ∀ other directives, .spread other directives ∈ rest → ∀ above ∈ inside, rank other < rank above :=
      fun other directives h => hbelow other directives (List.mem_cons_of_mem _ h)
    cases hf : Assoc.get? c.fragments name with
    | none =>
      rw [inlineRoot]
      simp only [Plan.outcome, hf]
      exact fun _ h => by cases h
    | some f =>
      rw [inlineRoot_spread hf] at hneeds ⊢
      simp only [Plan.outcome, hf]
      simp only [Plan.needs, hf, List.mem_cons] at hneeds
      by_cases hroot : f.fragment.condition = root
      · have hnew : name ∉ inside := fun hi => lt_irrefl _ (hbelow name directives List.mem_cons_self name hi)
        simp only [if_pos hroot, if_neg hnew] at hneeds ⊢
        have hname : Assoc.has p (fragmentNode name) := hneeds name (Or.inl rfl)
        obtain ⟨piece, hpiece⟩ := Option.isSome_iff_exists.1 hname
        obtain ⟨f', s, hf', hs⟩ := (hp.made name piece hpiece).compiled
        cases hf.symm.trans hf'
        have hinner : ∀ other directives, .spread other directives ∈ f.fragment.selections →
            ∀ above ∈ name :: inside, rank other < rank above := by
          intro other directives' hother
          have hlt := (hrank name hname other (spreads_of_mem hf hs hother)).2
          exact List.forall_mem_cons.2
            ⟨hlt, fun above habove => hlt.trans (hbelow name directives List.mem_cons_self above habove)⟩
        rw [Plan.needs_bind] at hneeds
        have hfirst := ihf f hf hnew (fun other hother => hneeds other (Or.inr (List.mem_append_left _ hother))) hinner
        refine Plan.settles_bind hfirst fun inlined hinlined _ => ?_
        rw [hinlined] at hneeds
        dsimp only at hneeds
        rw [Plan.needs_bind] at hneeds
        refine Plan.settles_bind (ih (fun other hother => ?_) hrest) fun _ _ _ => trivial
        exact hneeds other (Or.inr (List.mem_append_right _ (List.mem_append_left _ hother)))
      · simp only [if_neg hroot] at hneeds ⊢
        rw [Plan.needs_bind] at hneeds
        refine Plan.settles_bind (ih (fun other hother => ?_) hrest) fun _ _ _ => trivial
        exact hneeds other (Or.inr (List.mem_append_left _ hother))
  | case3 inside s rest hs ih =>
    rw [inlineRoot] at hneeds ⊢
    · rw [Plan.needs_bind] at hneeds
      refine Plan.settles_bind (ih (fun other hother => hneeds other (List.mem_append_left _ hother)) ?_)
        fun _ _ _ => trivial
      exact fun other directives h => hbelow other directives (List.mem_cons_of_mem _ h)
    all_goals exact hs

/-- Finishing a shape comes to an end. -/
theorem finished_ends (hp : Solid c p) (s : Shape) : Settles Lack.Ends (fun _ => True) (finished p s) :=
  Query.ensures_answer (finishWithin_ends _ s le_rfl) (fun _ _ => hp.level) fun _ _ h => by cases h

theorem operationPlan_ends (hc : c.KeysNamed) (hp : Solid c p) {j : Job} (hj : (Need.operation j).Proper c.toConfig)
    (hneeds : ∀ name, .fragment name ∈ (operationPlan c j.op j.root).needs c → Assoc.has p (fragmentNode name)) :
    Settles Lack.Ends (fun _ => True) ((operationPlan c j.op j.root).outcome c) := by
  obtain ⟨hroot, hop⟩ := hj
  obtain ⟨rank, hrank⟩ := hp.ordered
  unfold operationPlan at hneeds ⊢
  rw [Plan.needs_bind] at hneeds
  have hinlined := inlineRoot_ends hp hrank j.root.name [] j.op.selections
    (fun name hname => hneeds name (List.mem_append_left _ hname)) fun _ _ _ _ h => absurd h List.not_mem_nil
  refine Plan.settles_bind hinlined fun sels hsels _ => ?_
  have hnamed : ListKeysNamed sels := by
    have hsettles := Plan.ensures_outcome (inlineRoot_ensures (D := .harmless Need.Anything) (fun _ => id) hc
      j.root.name [] j.op.selections hop)
    rw [hsels] at hsettles
    exact hsettles
  exact Plan.ensures_outcome (D := .ending) (Plan.ensures_bind (selection_ensures j.root sels hroot hnamed) fun _ _ =>
    Plan.ensures_pure trivial)

/-- Meeting a need after all that it needs was made does not fail for want of an end. -/
theorem Need.complete_ends (hc : c.KeysNamed) (hp : Solid c p) {n : Need} (hn : n.Proper c.toConfig)
    (hneeds : ∀ m ∈ n.needs c, m.Done c late stack p) (file : String) :
    Settles Lack.Ends (fun _ => True) (n.complete c file p) := by
  cases n with
  | declared d => exact settles_bind (Plan.ensures_outcome (D := .ending) (draft_ensures d)) fun _ _ _ => trivial
  | code type => exact settles_bind (Plan.ensures_outcome (D := .ending) (codePlan_ensures type)) fun _ _ _ => trivial
  | fragment name =>
    simp only [Need.complete]
    cases hf : Assoc.get? c.fragments name with
    | none => exact fun _ h => by cases h
    | some f =>
      refine settles_bind (Plan.ensures_outcome (D := .ending) (fragmentPlan_ensures (hc name f hf))) fun s _ _ => ?_
      have hflat : Settles Lack.Ends Own ((flatFields s).answer p.fieldsOf) :=
        Query.ensures_answer (D := .level p.heightOf) (flatFields_own (fun _ _ h e he => (h e he).1) s)
          (fun _ _ => hp.level) fun _ _ h => by cases h
      refine settles_bind (P := fun _ => True) (settles_bind hflat fun fields _ _ => ?_) fun _ _ _ => trivial
      exact settles_bind (finished_ends hp s) fun _ _ _ => trivial
  | operation j =>
    refine settles_bind (operationPlan_ends hc hp hn fun name hname => ?_) fun s _ _ => ?_
    · exact (hneeds _ (List.mem_append_right _ hname)).has_fragment
    · exact settles_bind (finished_ends hp s) fun _ _ _ => trivial
  | arguments j =>
    exact settles_bind (Plan.ensures_outcome (D := .ending) (variablesPlan_ensures j)) fun _ _ _ => trivial

/-- A run does not fail for want of an end. -/
theorem Run.ends {needs : List Need} {o : Except Failure Progress} (h : Run c late stack file p needs o) (hc : c.Named)
    (hkeys : c.KeysNamed) (hp : Solid c p) (hneeds : ∀ n ∈ needs, n.Proper c.toConfig) : o ≠ .error .endless := by
  induction h with
  | nil => exact fun h => by cases h
  | later _ _ ih | settled _ _ ih => exact ih hp (List.forall_mem_cons.1 hneeds).2
  | @circular _ _ _ n => cases n <;> exact fun h => by cases h
  | @broken _ _ _ n _ _ _ _ _ ih =>
    exact fun h => ih hp (fun m hm => (n.inner_needs m hm).proper) (congrArg _ (Except.error.inj h))
  | @lacking _ file _ _ n _ _ _ _ hinner hcomplete =>
    have hsettles := Need.complete_ends hkeys (hinner.solid hc hp) (hneeds n List.mem_cons_self) hinner.done
      (n.fileWithin c file)
    rw [hcomplete] at hsettles
    exact fun h => hsettles _ (Except.error.inj h)
  | built _ _ hinner hcomplete _ _ ihr =>
    exact ihr (Need.solid_complete hc hcomplete hinner.done (hinner.solid hc hp)) (List.forall_mem_cons.1 hneeds).2

end Ends

/-! ## Sound states -/

section Sound

variable {c : Sources} {late : TypeRef → Prop} {jobOf : String → Option Job} {stack : Stack} {s : State}

/-- What a sound state keeps of a fragment comes from what is selected in it. -/
theorem Sound.piece (h : Sound c late jobOf stack s) {name : String} {piece : Piece}
    (hpiece : Assoc.get? s.progress (fragmentNode name) = some piece) :
    ∃ f shape fields, Assoc.get? c.fragments name = some f ∧ (fragmentPlan c.toConfig f).outcome c = .ok shape ∧
      (flatFields shape).answer s.progress.fieldsOf = .ok fields ∧
      piece.fields = some (fields, fieldsHeight s.progress.heightOf fields) ∧
      shape.RefsIn (c.leaves (Deep c ((Need.fragment name).needs c))) := by
  have hget := hpiece
  rw [get?_progress] at hget
  obtain ⟨a, ha, rfl⟩ := Option.map_eq_some_iff.1 hget
  obtain ⟨n, hn, hmet⟩ := (h.made _ a ha).met
  cases hn
  obtain ⟨f, shape, fields, hf, hshape, hfields, hboth⟩ := Need.piece_of_complete hmet
  refine ⟨f, shape, fields, hf, hshape, hfields, hboth, ?_⟩
  rw [needs_fragment hf]
  exact (refsIn_fragmentPlan h.named hshape).mono (Config.leaves_le fun _ => Or.inl) shape

/-- In a sound state no fragment is among the fields that are kept. -/
theorem Sound.own (h : Sound c late jobOf stack s) {rank : String → Nat} (hrank : Ranked c s.progress rank) {name : String}
    {fields : Fields} (hfields : s.progress.fieldsOf name = some fields) : Own fields := by
  induction hk : rank name using Nat.strong_induction_on generalizing name fields with
  | _ k ih =>
    cases hpiece : Assoc.get? s.progress (fragmentNode name) with
    | none => simp [Progress.fieldsOf, hpiece] at hfields
    | some piece =>
      obtain ⟨f, shape, fields', hf, hshape, hflat, hboth, hrefs⟩ := h.piece hpiece
      have hsame : fields' = fields := by simpa [Progress.fieldsOf, hpiece, hboth] using hfields
      subst hsame
      refine own_of_flatFields (h.closed _) hrefs (fun other fields hother hother' => ?_) hflat
      have hlt := (hrank.reached_lt (by rw [Assoc.has, hpiece]; rfl) (deep_fragment.1 (fragment_leaves.1 hother))).2
      exact ih _ (hk ▸ hlt) hother' rfl

/-- What is kept in a sound state is solid, if fragments are in order. -/
theorem Sound.solid (h : Sound c late jobOf stack s) (ho : Ordered c s.progress) : Solid c s.progress := by
  refine ⟨ho, fun name piece hpiece => ?_⟩
  obtain ⟨rank, hrank⟩ := ho
  obtain ⟨f, shape, fields, hf, hshape, hflat, hboth, hrefs⟩ := h.piece hpiece
  have hfields : s.progress.fieldsOf name = some fields := by simp [Progress.fieldsOf, hpiece, hboth]
  refine ⟨⟨f, shape, hf, hshape⟩, fields, _, hboth, level_of_own (h.own hrank hfields) le_rfl, ?_⟩
  exact Query.within_answer (flatFields_within (h.closed _) shape hrefs) hflat

end Sound

end ResponseTypes.Compile
