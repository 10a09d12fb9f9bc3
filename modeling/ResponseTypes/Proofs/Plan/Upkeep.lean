import ResponseTypes.Proofs.Plan.Orderly

/-!
# Generating keeps the books in order

Every step of a build is safe: hosts that answer plans (`Host.Serves`), plans that are carried out (`safe_perform`), queries
(`safe_query`), declared types (`safe_declare`), fragments (`leads_generateFragment`) and operations.  A fragment that is
asked for was generated, so its fields are there; one that is being generated is met by a failure of its own kind.
-/

namespace ResponseTypes.Compile

set_option autoImplicit false

open GraphQL (Document Operation TypeRef)
open GraphQL.Selection (ListKeysNamed)
open Shape (Regular FieldsRegular)

/-! ## Carrying out plans and queries -/

/-- The host answers what is in `D`, and answers it safely. -/
structure Host.Serves (c : Sources) (p : Books) (D : Need → Prop) (host : Host) : Prop where
  declare : ∀ d, D (.declared d) → Safe c p (host.declare d) fun _ => True
  code : ∀ type, D (.code type) → Safe c p (host.code type) fun _ => True
  spread : ∀ name, Safe c p (host.spread name) fun f => Assoc.get? c.fragments name = some f

section Plans

variable {c : Sources} {p : Books} {D : Need → Prop} {α : Type} {P : α → Prop}

theorem safe_perform {host : Host} (hhost : host.Serves c p D) (cached : Bool) {plan : Plan α} (h : plan.Ensures c (.harmless D) P) :
    Safe c p (plan.perform cached host) P := by
  induction plan with
  | done a => exact safe_pure h
  | lack e => exact safe_failHere h
  | declare d next ih => exact safe_bind (hhost.declare d h.1) fun _ _ => ih h.2
  | code type next ih => exact safe_bind (hhost.code type h.1) fun text _ => ih text (h.2 text)
  | spread name next ih => exact safe_bind (hhost.spread name) fun f hf => ih f (h f hf)
  | keep typeName sels body next ihb ih =>
    exact safe_bind (safe_memoized orderlyMemo_shapes cached (typeName, sels) (ihb h.1)) fun s hs => ih s (h.2 s hs)
  | count thing next ih => exact safe_bind (safe_count thing) fun _ _ => ih h

theorem safe_query {fieldsOf : String → Step Fields} (hfields : ∀ name, Safe c p (fieldsOf name) FieldsRegular)
    {q : Query α} (h : q.Ensures .regular P) : Safe c p (q.perform fieldsOf) P := by
  induction q with
  | done a => exact safe_pure h
  | lack e => exact safe_failHere h
  | fields name next ih => exact safe_bind (hfields name) fun fields hfields => ih fields (h fields hfields)

end Plans

/-! ## Declared types -/

section Declaring

variable {c : Setup} {p : Books} {D : Need → Prop} {inner : Declared → Step Unit}

/-- Type expressions are written from declared types. -/
theorem serves_inputHost (hinner : ∀ d, D (.declared d) → Safe c.toSources p (inner d) fun _ => True)
    (hcode : ∀ type, D (.code type) → (codePlan c.toConfig type).Ensures c.toSources (.harmless D) fun _ => True) :
    (inputHost c inner).Serves c.toSources p D := by
  have hdeclaring : (declaring inner).Serves c.toSources p D :=
    ⟨hinner, fun _ _ => safe_failHere fun _ => id, fun _ => safe_failHere fun _ => id⟩
  exact ⟨hinner, fun type htype =>
    safe_memoized orderlyMemo_inputs c.cached type (safe_perform hdeclaring c.cached (hcode type htype)),
    fun _ => safe_failHere fun _ => id⟩

theorem safe_declareWith {d : Declared} (hd : ∀ name, d = .input name → name ∉ p.inputs)
    (hdraft : (draft c.toConfig d).Ensures c.toSources (.harmless D) fun _ => True)
    (hhost : (inputHost c inner).Serves c.toSources (p.declaring d) D) :
    Safe c.toSources p (declareWith c inner d) fun _ => True := by
  have hkind : d.kind ≠ .fragment := by cases d <;> simp [Declared.kind]
  exact safe_bind (safe_artifact hkind (safe_markingInput hd (safe_perform hhost c.cached hdraft))) fun _ _ =>
    safe_pure trivial

/-- Unions of tags ask for tags, and these ask for nothing. -/
theorem safe_declareFlat {d : Declared} (hd : ∀ name, d = .input name → c.schema.type? name = none ∧ name ∉ p.inputs) :
    Safe c.toSources p (declareFlat c d) fun _ => True := by
  have hflat : ∀ type, Need.Flat (.code type) →
      (codePlan c.toConfig type).Ensures c.toSources (.harmless Need.Flat) fun _ => True := fun _ h => h.elim
  refine safe_declareWith (fun name h => (hd name h).2) (draft_ensures_flat (fun _ => id) fun name h => (hd name h).1)
    (serves_inputHost (fun tag htag => ?_) hflat)
  have htag' : ∀ name, tag ≠ .input name := by
    rintro name rfl
    exact htag
  exact safe_declareWith (fun name h => absurd h (htag' name)) (draft_ensures_flat (fun _ => id) fun name h => absurd h (htag' name))
    (serves_inputHost (fun _ _ => safe_pure trivial) hflat)

/-- An input type that is being generated is referred to by its name. -/
theorem safe_declare (building : List String) (d : Declared) (hp : p.inputs = building) :
    Safe c.toSources p (declare c building d) fun _ => True := by
  refine declare_rec (H := fun building _ act => ∀ p : Books, p.inputs = building → Safe c.toSources p act fun _ => True)
    (fun _ _ _ _ _ => safe_add _) (fun building n hb ih p hp => ?_) (fun building d hd p hp => ?_) building d p hp
  · have hnew : ∀ name, Declared.input n = .input name → name ∉ p.inputs := by
      rintro name ⟨⟩
      exact hp ▸ hb
    exact safe_declareWith (D := Need.Anything) hnew (inputDraft_ensures n)
      (serves_inputHost (fun d _ => ih d _ (congrArg (n :: ·) hp)) fun type _ => codePlan_ensures type)
  · exact safe_declareFlat fun name hname => ⟨(hd name hname).2, hp ▸ (hd name hname).1⟩

theorem serves_host (hp : p.inputs = []) {spread : Spread}
    (hspread : ∀ name, Safe c.toSources p (spread name) fun f => Assoc.get? c.fragments name = some f) :
    (host c spread).Serves c.toSources p Need.Anything :=
  { serves_inputHost (fun d _ => safe_declare [] d hp) (fun type _ => codePlan_ensures type) with spread := hspread }

end Declaring

/-! ## Fragments -/

/-- Fragments stand under their names and come from files that define them and have names, and their response keys are
names. -/
structure Sources.Proper (c : Sources) (homes : String → String → Prop) : Prop where
  named : c.Named
  filed : ∀ name f, Assoc.get? c.fragments name = some f → homes name f.file ∧ f.file ≠ ""
  keys : c.KeysNamed

/-- Generating fragments keeps the books in order, and what was to be generated was. -/
def SafelyGenerates (c : Sources) (p : Books) (generate : Generator) : Prop :=
  ∀ name n, Leads (Orderly c p (n + 1)) (generate name) fun _ s =>
    Orderly c p (n + 1) s ∧ ∃ a, Assoc.get? s.store (fragmentNode name) = some a

section Fragments

variable {c : Setup} {p : Books} {generate : Generator}

theorem safe_useFragment (h : SafelyGenerates c.toSources p generate) (name : String) :
    Safe c.toSources p (useFragment c generate name) fun f => Assoc.get? c.fragments name = some f := by
  unfold useFragment
  split
  · exact safe_failHere fun _ => id
  · rename_i f hf
    refine safe_bind (safe_add _) fun _ _ => safe_bind (P := fun _ => True) (fun n => ?_) fun _ _ => safe_pure hf
    exact leads_mono (h name n) (fun _ hs => hs) fun _ _ hs => ⟨hs.1, trivial⟩

theorem serves_fragments (hp : p.inputs = []) (h : SafelyGenerates c.toSources p generate) :
    (host c (useFragment c generate)).Serves c.toSources p Need.Anything :=
  serves_host hp (safe_useFragment h)

/-- The fields of a fragment are there, since it was generated. -/
theorem safe_fragmentFields (h : SafelyGenerates c.toSources p generate) (name : String) :
    Safe c.toSources p (fragmentFields generate name) FieldsRegular := by
  refine fun n => leads_bind (h name n) fun _ => leads_bind leads_read fun maps => ?_
  intro s hs
  obtain ⟨⟨hs, a, ha⟩, rfl⟩ := hs
  obtain ⟨m, hm, -⟩ := hs.fields name a ha
  have hget : Assoc.get? (State.fieldMapsPart.get s) name = some m := hm
  rw [hget]
  exact ⟨hs, hs.regular _ (Assoc.mem_of_get? hm)⟩

theorem safe_finish (h : SafelyGenerates c.toSources p generate) {s : Shape} (hs : s.Regular) :
    Safe c.toSources p (finish generate s) fun _ => True := by
  refine safe_bind (P := fun _ => True) (fun n => ?_) fun maps _ =>
    safe_query (safe_fragmentFields h) (finishWithin_ensures _ s hs)
  exact leads_mono leads_read (fun _ h => h) fun _ _ h => ⟨h.1, trivial⟩

/-- The fields that a fragment gets while it is being generated. -/
theorem leads_keepFields {name : String} {f : FragmentDef} {n : Nat} (hnamed : f.fragment.name = name)
    (hf : Assoc.get? c.fragments name = some f) (hhome : p.homes name f.file) {fields : Fields}
    (hfields : FieldsRegular fields) :
    Leads (Orderly c.toSources (p.within name false) n) (keepFields f fields) fun _ =>
      Orderly c.toSources (p.within name true) n := by
  subst hnamed
  refine leads_bind leads_read fun maps => leads_modify ?_
  rintro s ⟨hs, -⟩
  refine hs.keep hfields hhome rfl rfl rfl (fun other hother => ?_) fun a ha => ?_
  · by_cases hne : other = f.fragment.name
    · exact Or.inl ⟨hne, _, f, Assoc.get?_insert_self _ _ _, hf, rfl⟩
    · refine Or.inr ⟨hne, List.mem_cons_of_mem _ ((List.mem_cons.1 hother).resolve_left fun h => hne ?_)⟩
      exact congrArg Prod.fst h
  · cases (hs.unmade _ List.mem_cons_self).symm.trans ha

theorem leads_buildFragment {name : String} {f : FragmentDef} {n : Nat} (hp : p.inputs = [])
    (hnamed : f.fragment.name = name) (hf : Assoc.get? c.fragments name = some f) (hhome : p.homes name f.file)
    (hkeys : ListKeysNamed f.fragment.selections)
    (hgenerate : ∀ kept, SafelyGenerates c.toSources (p.within name kept) generate) :
    Leads (Orderly c.toSources (p.within name false) (n + 1)) (buildFragment c f generate) fun _ =>
      Orderly c.toSources (p.within name true) (n + 1) := by
  have hhost := serves_fragments (p := p.within name false) hp (hgenerate false)
  have hplan := safe_perform hhost c.cached (fragmentPlan_ensures hkeys)
  refine leads_bind (hplan n) fun s st hst => ?_
  have hflat := safe_query (safe_fragmentFields (hgenerate false)) (flatFields_ensures s hst.2)
  refine leads_bind (hflat n) (fun fields st hst' => ?_) st hst.1
  refine leads_bind (leads_keepFields hnamed hf hhome hst'.2) (fun _ => ?_) st hst'.1
  exact leads_bind (safe_finish (hgenerate true) hst.2 n) fun _ => leads_pure fun _ h => h.1

/-- The fields of a fragment that was generated get the keys of its artifact. -/
theorem leads_attributeFields {name : String} {n : Nat} :
    Leads (fun s => Orderly c.toSources p n s ∧ ∃ a, Assoc.get? s.store (fragmentNode name) = some a)
      (attributeFields name)
      fun _ s => Orderly c.toSources p n s ∧ ∃ a, Assoc.get? s.store (fragmentNode name) = some a := by
  refine leads_bind leads_read fun maps => leads_bind leads_read fun store => ?_
  split
  · rename_i m a hm ha
    split
    · refine leads_modify ?_
      rintro s ⟨⟨⟨hs, hstored⟩, rfl⟩, rfl⟩
      have hmem := Assoc.mem_of_get? hm
      refine ⟨hs.keep (hs.regular _ hmem) (hs.homes _ hmem) rfl rfl rfl (fun other hother => Or.inr ⟨?_, hother⟩) ?_,
        hstored⟩
      · rintro rfl
        cases (hs.unmade other (List.mem_map_of_mem hother)).symm.trans ha
      · intro b hb
        obtain ⟨m', hm', hfile, -⟩ := hs.fields name b hb
        cases hm.symm.trans hm'
        cases ha.symm.trans hb
        exact ⟨hfile, fun _ h => h⟩
    · exact leads_pure fun _ hs => hs.1.1
  · exact leads_pure fun _ hs => hs.1.1

theorem leads_fragmentInProgress {name : String} {n : Nat} (hname : name ∈ Assoc.keys p.fragments)
    {Q : String → State → Prop} : Leads (Orderly c.toSources p n) (fragmentInProgress name) Q := by
  refine leads_bind leads_read fun store => ?_
  split
  · exact leads_failHere fun _ => id
  · rename_i a ha
    rintro s ⟨hs, rfl⟩
    cases (hs.unmade name hname).symm.trans ha

/-- A fragment is generated when it is needed first, and its fields are kept as long as its artifact. -/
theorem leads_generateFragment (hc : c.toSources.Proper p.homes) (building : List String) (name : String)
    (hbuilding : Assoc.keys p.fragments = building) (hp : p.inputs = []) {n : Nat} :
    Leads (Orderly c.toSources p (n + 1)) (generateFragment c building name) fun _ s =>
      Orderly c.toSources p (n + 1) s ∧ ∃ a, Assoc.get? s.store (fragmentNode name) = some a := by
  induction building, name using generateFragment.induct c generalizing p n with
  | case1 building name hf =>
    rw [generateFragment]
    split
    · exact leads_failHere fun _ => id
    · rename_i hf'
      cases hf.symm.trans hf'
  | case2 building name f hf ih =>
    rw [generateFragment]
    split
    · exact leads_failHere fun _ => id
    · rename_i f' hf'
      cases hf.symm.trans hf'
      refine leads_bind ?_ fun _ => leads_bind leads_attributeFields fun _ => leads_pure fun _ h => h
      split
      · rename_i hb
        exact leads_fragmentInProgress (hbuilding ▸ hb)
      · rename_i hb
        have hgenerate : ∀ kept, SafelyGenerates c.toSources (p.within name kept) fun other =>
            discard (generateFragment c (name :: building) other) :=
          fun kept other n => leads_discard (ih hb other (p := p.within name kept) hc (congrArg (name :: ·) hbuilding) hp)
        refine leads_artifact (J := fun s => Kept c.toSources s.fieldMaps name) (fun _ _ h => h)
          (leads_markingFragment (hbuilding ▸ hb) (leads_buildFragment hp (hc.named name f hf) hf (hc.filed name f hf).1
            (hc.keys name f hf) hgenerate)) fun s a hs hkept hfile => ?_
        refine hs.store (fun other hother h => ?_) fun other h => ?_
        · cases h
          exact hb (hbuilding ▸ hother)
        · cases h
          obtain ⟨m, f', hm, hf', horigin⟩ := hkept
          cases hf.symm.trans hf'
          refine ⟨m, hm, ?_, ?_⟩
          · rw [horigin]
            exact (hfile f.file rfl (hc.filed name f hf).2).symm
          · rw [horigin]
            exact fun _ hk => absurd hk List.not_mem_nil

theorem safelyGenerates_generator {homes : String → String → Prop} (hc : c.toSources.Proper homes) :
    SafelyGenerates c.toSources (.idle homes) (generator c) :=
  fun name _ => leads_discard (leads_generateFragment (p := .idle homes) hc [] name rfl rfl)

end Fragments

/-! ## Operations -/

section Operations

variable {c : Setup} {homes : String → String → Prop} (hc : c.toSources.Proper homes)

include hc

theorem safe_buildOperation {j : Job} (hroot : Known c.toConfig j.root) (hop : ListKeysNamed j.op.selections) :
    Safe c.toSources (.idle homes) (buildOperation c j) fun _ => True := by
  have hhost := serves_fragments rfl (safelyGenerates_generator hc)
  refine safe_bind (safe_count _) fun _ _ => ?_
  refine safe_bind (safe_perform hhost c.cached ensureHelpers_ensures) fun _ _ => ?_
  refine safe_bind (P := fun _ => True) ?_ fun _ _ => safe_pure trivial
  exact safe_bind (safe_perform hhost c.cached (operationPlan_ensures (fun _ => id) hc.keys hroot hop)) fun s hs =>
    safe_finish (safelyGenerates_generator hc) hs

theorem safe_buildVariables (j : Job) : Safe c.toSources (.idle homes) (buildVariables c j) fun _ => True :=
  safe_perform (serves_fragments rfl (safelyGenerates_generator hc)) c.cached (variablesPlan_ensures j)

theorem safe_generateJob {j : Job} (hroot : Known c.toConfig j.root) (hop : ListKeysNamed j.op.selections) :
    Safe c.toSources (.idle homes) (generateJob c j) fun _ => True := by
  intro n
  refine leads_bind (leads_start none) fun _ => ?_
  have hresponse : Safe c.toSources (.idle homes) (artifact .operation j.name none (buildOperation c j)) fun _ => True :=
    safe_artifact (by decide) (safe_buildOperation hc hroot hop)
  have hvariables : Safe c.toSources (.idle homes) (artifact .operationVariables j.name none (buildVariables c j)) fun _ => True :=
    safe_artifact (by decide) (safe_buildVariables hc j)
  refine leads_bind (hresponse (n + 1)) fun _ s hs => ?_
  refine leads_bind (hvariables (n + 1)) (fun _ s hs => ?_) s hs.1
  exact leads_bind leads_finish (fun _ => leads_pure fun _ h => ⟨h, trivial⟩) s hs.1

theorem safe_generateOperation {op : Operation} (hop : ListKeysNamed op.selections) (file : String) :
    Safe c.toSources (.idle homes) (generateOperation c op file) fun _ => True := by
  unfold generateOperation
  split
  · exact safe_bind (safe_note _ _) fun _ _ => safe_pure trivial
  · split
    · exact fun _ => leads_fail id
    · rename_i root hroot
      exact safe_bind (safe_generateJob hc (known_root hroot) hop) fun _ _ => safe_pure trivial

/-! ## Builds -/

/-- The response keys of the operations of some documents are names. -/
abbrev OperationsNamed (documents : Assoc String Document) : Prop :=
  ∀ e ∈ documents, ∀ op ∈ e.2.operations, ListKeysNamed op.selections

theorem leads_generateFragments (documents : Assoc String Document) :
    Leads (Orderly c.toSources (.idle homes) 0) (Workspace.generateFragments c documents) fun _ =>
      Orderly c.toSources (.idle homes) 0 := by
  refine leads_forM fun e _ => leads_bind (leads_start _) fun _ => ?_
  refine leads_bind (leads_forM fun f _ => ?_) fun _ => leads_discard leads_finish
  exact leads_mono (safelyGenerates_generator hc f.name 0) (fun _ h => h) fun _ _ h => h.1

theorem leads_generateOperations {documents : Assoc String Document} (h : OperationsNamed documents)
    (operations : Assoc String CollectedOperation) :
    Leads (Orderly c.toSources (.idle homes) 0) (Workspace.generateOperations c documents operations) fun _ =>
      Orderly c.toSources (.idle homes) 0 := by
  refine leads_foldlM (fun e he operations => leads_bind (leads_start _) fun _ => ?_) operations
  refine leads_bind (leads_foldlM (fun op hop operations => ?_) operations) fun _ =>
    leads_bind (leads_discard leads_finish) fun _ => leads_pure fun _ h => h
  refine leads_bind (safe_generateOperation hc (h e he op hop) e.1 0) fun collected => ?_
  split <;> exact leads_pure fun _ h => h.1

/-- Generating all that is not generated yet keeps the books in order; that no scope is open in the end is found out by
looking. -/
theorem leads_generateAll {documents : Assoc String Document} (h : OperationsNamed documents) (skipUnused : Bool)
    (operations : Assoc String CollectedOperation) :
    Leads (Orderly c.toSources (.idle homes) 0) (Workspace.generateAll c skipUnused documents operations) fun _ =>
      Orderly c.toSources (.idle homes) 0 := by
  have hlast : Leads (Orderly c.toSources (.idle homes) 0) (Workspace.generateOperations c documents operations >>= fun after =>
      Tracks.tracker.read >>= fun tracker =>
        if tracker.hasOpenScope then Action.fail (.scopesLeftOpen (some tracker.currentFile)) else pure after)
      fun _ => Orderly c.toSources (.idle homes) 0 := by
    refine leads_bind (leads_generateOperations hc h operations) fun after => leads_bind leads_read fun tracker => ?_
    rintro s ⟨hs, rfl⟩
    have hnone : (Tracks.tracker.get s : Tracker).hasOpenScope = false := by
      have hscopes : s.tracker.scopes = [] := List.length_eq_zero_iff.1 hs.scopes
      change (!s.tracker.scopes.isEmpty) = false
      rw [hscopes]
      rfl
    rw [if_neg (by simp [hnone])]
    exact hs
  unfold Workspace.generateAll
  split
  · exact leads_bind (leads_generateFragments hc documents) fun _ => hlast
  · exact hlast

end Operations

end ResponseTypes.Compile
