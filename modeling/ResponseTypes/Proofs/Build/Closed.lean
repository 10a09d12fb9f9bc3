import ResponseTypes.Proofs.Build.History
import ResponseTypes.Proofs.Output.References

/-!
# Closed outputs

A build leaves nothing that refers to a type that was not made: what is referred to strongly was kept or made again, and
what stems from an operation was made with it.  So the output of every build is closed (`Workspace.build_closed`).
-/

namespace ResponseTypes

set_option autoImplicit false

open Compile
open GraphQL (Document TypeRef VariableDef)
open Shape (RefsIn)

namespace Compile

/-! ## What is needed was made -/

section Complete

variable {c : Sources} {late : TypeRef → Prop} {jobOf : String → Option Job} {stack : Stack} {s : State} {node : Node}
  {a : Artifact ArtifactKind}

/-- What is needed was made. -/
def Need.Present (c : Sources) (s : State) : Need → Prop
  | declared d => Assoc.has s.store d.node
  | code type => ∀ d, .declared d ∈ (Need.code type).needs c → Assoc.has s.store d.node
  | fragment name => Assoc.has s.store (fragmentNode name)
  | operation _ | arguments _ => True

/-- What is needed for what was made was made. -/
def Complete (c : Sources) (jobOf : String → Option Job) (s : State) : Prop :=
  ∀ node a, Assoc.get? s.store node = some a → ∀ n ∈ needsAt c jobOf node, n.Present c s

theorem Need.Backed.present {n : Need} {o : Origin} (h : n.Backed s o) : n.Present c s := by
  cases n with
  | declared d | fragment name =>
    obtain ⟨a, ha, -⟩ := h
    change (Assoc.get? s.store _).isSome
    rw [ha]
    rfl
  | code type | operation j | arguments j => exact h.elim

/-- After the operations of all documents were made, all is there that was kept and made refers to. -/
theorem Keeping.complete {c : Setup} {documents : Assoc String Document} (h : Keeping c documents jobOf s)
    (hall : ∀ j ∈ allJobs c.toConfig documents, Generated s j.name) : Complete c.toSources jobOf s := by
  intro node a ha n hn
  have hbacked := (h.idle.sound.made node a ha).backed n hn
  cases n with
  | declared d | fragment name => exact (hbacked trivial).present
  | code type => exact (h.rooted.made node a ha type hn).made fun j hj => (hall j hj).2
  | operation j | arguments j => trivial

theorem Complete.deep (h : Complete c jobOf s) (hs : Sound c late jobOf stack s) (ha : Assoc.get? s.store node = some a)
    {n : Need} (hn : Deep c (needsAt c jobOf node) n) : n.Present c s := by
  rcases hn with hn | ⟨name, hname, hn⟩
  · exact h node a ha n hn
  · have hhas := hs.reached hname fun first hfirst => by
      obtain ⟨b, hb, -⟩ := hs.spread node a ha first hfirst
      rw [Assoc.has, hb]
      rfl
    obtain ⟨b, hb⟩ := Option.isSome_iff_exists.1 hhas
    exact h _ b hb n hn

end Complete

/-! ## Names -/

section Names

variable {c : Sources}

/-- The name under which a type is declared. -/
def Declared.typeName (c : Config) : Declared → String
  | .helper name | .tag name | .tagUnion name => name
  | .enum name => c.naming.enum name
  | .input name => c.naming.input name

/-- A declaration that exports a type of a name. -/
inductive Exports (t : Script.Templates) (name : String) : String → Prop
  | alias (code : String) (doc : Option String) : Exports t name (t.typeAlias name code doc true)
  | enum (members : List Script.EnumMember) (doc : Option String) : Exports t name (t.enum name members doc)

/-- What is drafted for a declared type has its name, and exports it unless it is a helper. -/
theorem names_draft {d : Declared} {dr : Draft} (h : (draft c.toConfig d).outcome c = .ok dr) :
    dr.name = d.typeName c.toConfig ∧ ((∀ name, d ≠ .helper name) → Exports c.templates dr.name dr.code) := by
  cases d with
  | helper name =>
    cases h
    exact ⟨rfl, fun hd => absurd rfl (hd name)⟩
  | tag name =>
    obtain ⟨t, -, h⟩ := Plan.outcome_bind_ok h
    cases h
    exact ⟨rfl, fun _ => .alias _ _⟩
  | tagUnion name =>
    obtain ⟨-, -, h⟩ := Plan.outcome_bind_ok h
    obtain ⟨t, -, h⟩ := Plan.outcome_bind_ok h
    cases h
    exact ⟨rfl, fun _ => .alias _ _⟩
  | enum name =>
    obtain ⟨t, -, h⟩ := Plan.outcome_bind_ok h
    cases h
    exact ⟨rfl, fun _ => .enum _ _⟩
  | input name =>
    simp only [draft, inputDraft] at h
    split at h
    · obtain ⟨-, -, h⟩ := Plan.outcome_bind_ok h
      obtain ⟨entries, -, h⟩ := Plan.outcome_bind_ok h
      cases h
      exact ⟨rfl, fun _ => .alias _ _⟩
    · cases h

theorem name_draft {d : Declared} {dr : Draft} (h : (draft c.toConfig d).outcome c = .ok dr) :
    dr.name = d.typeName c.toConfig :=
  (names_draft h).1

end Names

/-! ## What is written -/

section Written

variable {c : Sources} {jobOf : String → Option Job} {s : State} {out : Output} {a : Artifact ArtifactKind}

theorem piece_eq {p : Progress} {node node' : Node} {piece piece' : Piece}
    (h : p ++ [(node, piece)] = p ++ [(node', piece')]) : piece = piece' := by
  cases List.append_cancel_left h
  rfl

/-- The output has what was made in a sound state, where nothing is missing. -/
structure Shown (c : Sources) (jobOf : String → Option Job) (s : State) (out : Output) : Prop where
  sound : ∃ late stack, Sound c late jobOf stack s
  complete : Complete c jobOf s
  artifacts : ∀ node a, Assoc.get? s.store node = some a → a ∈ out.artifacts

namespace Shown

theorem met (h : Shown c jobOf s out) {node : Node} (ha : Assoc.get? s.store node = some a) :
    ∃ n, needOf jobOf node = some n ∧ n.Meets c s node a ∧ n.node? = some node ∧ a.kind = node.1 ∧
      ∀ m ∈ n.needs c, m.Present c s := by
  obtain ⟨late, stack, hs⟩ := h.sound
  obtain ⟨⟨n, hn, hmet⟩, -⟩ := hs.made node a ha
  exact ⟨n, hn, hmet, Need.node_of_complete hmet, hs.kinds _ (Assoc.mem_of_get? ha),
    fun m hm => h.complete node a ha m (needsAt_eq hn ▸ hm)⟩

/-- What meeting the need of a declared type came to. -/
theorem draft_of_declared (h : Shown c jobOf s out) {d : Declared} (ha : Assoc.get? s.store d.node = some a) :
    (draft c.toConfig d).outcome c = .ok a.toDraft ∧ a.kind = d.kind ∧
      ∀ n ∈ (draft c.toConfig d).needs c, n.Present c s := by
  obtain ⟨n, hn, hmet, -, hkind, hneeds⟩ := h.met ha
  cases hn.symm.trans (needOf_declared jobOf d)
  obtain ⟨dr, hdr, hmet⟩ := except_bind_ok hmet
  have hdraft : dr = a.toDraft := congrArg Piece.draft (piece_eq (Except.ok.inj hmet))
  exact ⟨hdraft ▸ hdr, hkind, hneeds⟩

/-- What meeting the need of a fragment came to. -/
theorem draft_of_fragment (h : Shown c jobOf s out) {name : String}
    (ha : Assoc.get? s.store (fragmentNode name) = some a) :
    ∃ f s₀ shape, Assoc.get? c.fragments name = some f ∧ (fragmentPlan c.toConfig f).outcome c = .ok s₀ ∧
      finished s.progress s₀ = .ok shape ∧ a.toDraft = fragmentDraft c.toConfig f shape := by
  obtain ⟨n, hn, hmet, -⟩ := h.met ha
  cases hn
  obtain ⟨f, hf⟩ := Need.known_of_complete hmet
  simp only [Need.Meets, Need.complete, hf] at hmet
  obtain ⟨s₀, hs₀, hmet⟩ := except_bind_ok hmet
  obtain ⟨piece, hpiece, hmet⟩ := except_bind_ok hmet
  obtain ⟨fields, -, hpiece⟩ := except_bind_ok hpiece
  obtain ⟨shape, hshape, hpiece⟩ := except_bind_ok hpiece
  cases hpiece
  exact ⟨f, s₀, shape, hf, hs₀, hshape, congrArg Piece.draft (piece_eq (Except.ok.inj hmet)).symm⟩

/-- A declared type that was made is declared in the output. -/
theorem declares (h : Shown c jobOf s out) {d : Declared} (hd : Assoc.has s.store d.node) :
    out.Declares d.kind (d.typeName c.toConfig) := by
  obtain ⟨a, ha⟩ := Option.isSome_iff_exists.1 hd
  obtain ⟨hout, hkind, -⟩ := h.draft_of_declared ha
  exact ⟨a, h.artifacts _ a ha, hkind, name_draft hout⟩

theorem declares_fragment (h : Shown c jobOf s out) {name : String} (hname : Assoc.has s.store (fragmentNode name)) :
    out.Declares .fragment (c.naming.fragment name) := by
  obtain ⟨a, ha⟩ := Option.isSome_iff_exists.1 hname
  obtain ⟨n, -, -, -, hkind, -⟩ := h.met ha
  obtain ⟨f, s₀, shape, hf, -, -, hdraft⟩ := h.draft_of_fragment ha
  obtain ⟨late, stack, hs⟩ := h.sound
  refine ⟨a, h.artifacts _ a ha, hkind, ?_⟩
  rw [hdraft, ← hs.named name f hf]
  rfl

/-- The tags of possible types are made with the tag of an abstract type. -/
theorem possible_tag (h : Shown c jobOf s out) (abstractName : String) {name : String}
    (hmade : Assoc.has s.store (Declared.tagUnion abstractName).node) (hname : name ∈ c.schema.possible abstractName) :
    Assoc.has s.store (Declared.tag name).node := by
  obtain ⟨a, ha⟩ := Option.isSome_iff_exists.1 hmade
  obtain ⟨-, -, hneeds⟩ := h.draft_of_declared ha
  refine hneeds (.declared (.tag name)) ?_
  simp only [draft, tagUnionDraft]
  rw [Plan.needs_bind, Plan.needs_forM_tag]
  exact List.mem_append_left _ (List.mem_map.2 ⟨name, Text.mem_sorted.2 hname, rfl⟩)

/-- Shapes refer to what the output declares, if they refer to what was made. -/
theorem leaves_le (h : Shown c jobOf s out) : (c.leaves (Need.Present c s)).Le (out.leaves c.toConfig) where
  scalar code hcode := by
    rcases hcode with hcode | ⟨name, hname, rfl⟩ | ⟨name, hname, rfl⟩
    · exact Or.inl hcode
    · exact Or.inr (Or.inl (h.declares (d := .enum name) hname))
    · exact Or.inr (Or.inr (h.declares (d := .input name) hname))
  tag name hname := by
    rcases hname with hname | ⟨abstractName, hmade, hname⟩
    · exact h.declares (d := .tag name) hname
    · exact h.declares (d := .tag name) (h.possible_tag abstractName hmade hname)
  tagUnion name hname := h.declares (d := .tagUnion name) hname
  ref name artifact := by
    rintro ⟨hname, rfl⟩
    exact h.declares_fragment hname

theorem hasHelpers (h : Shown c jobOf s out) (hneeds : ∀ n ∈ (ensureHelpers c.toConfig).needs c, n.Present c s) :
    out.HasHelpers c.toConfig := by
  intro hmaybe
  refine h.declares (d := .helper Script.maybeName) (hneeds (.declared (.helper Script.maybeName)) ?_)
  rw [ensureHelpers, if_pos hmaybe]
  exact List.mem_cons_self

theorem hasInput (h : Shown c jobOf s out) {type : TypeRef} (htype : (Need.code type).Present c s) :
    out.HasInput c.toConfig type where
  input name fields description ht := by
    refine h.declares (d := .input type.base) (htype _ ?_)
    simp [Need.needs, codePlan, ht]
  enum name values description ht := by
    refine h.declares (d := .enum type.base) (htype _ ?_)
    simp [Need.needs, codePlan, ht]

/-- Declared types refer to what the output declares. -/
theorem written_declared (h : Shown c jobOf s out) {d : Declared} (ha : Assoc.get? s.store d.node = some a) :
    out.Written c.toConfig a := by
  obtain ⟨hout, hkind, hneeds⟩ := h.draft_of_declared ha
  have hname := name_draft hout
  cases d with
  | helper name =>
    refine .helper hkind ?_
    rw [hname, ← Except.ok.inj hout]
    rfl
  | tag name =>
    obtain ⟨t, -, hout⟩ := Plan.outcome_bind_ok hout
    refine .tag (schemaDoc c.toConfig t.description) hkind ?_
    rw [hname, ← Except.ok.inj hout]
    rfl
  | tagUnion name =>
    obtain ⟨-, -, hout⟩ := Plan.outcome_bind_ok hout
    obtain ⟨t, -, hout⟩ := Plan.outcome_bind_ok hout
    refine .tagUnion (Text.sorted (c.schema.possible name)) (schemaDoc c.toConfig t.description) hkind ?_ fun member hmember => ?_
    · rw [hname, ← Except.ok.inj hout]
      rfl
    · refine h.declares (d := .tag member) (h.possible_tag name ?_ (Text.mem_sorted.1 hmember))
      rw [Assoc.has, ha]
      rfl
  | enum name =>
    obtain ⟨t, -, hout⟩ := Plan.outcome_bind_ok hout
    refine .enum (t.body.values.map fun v => ⟨v.name, v.name, v.description⟩) (schemaDoc c.toConfig t.description) hkind ?_
    rw [hname, ← Except.ok.inj hout]
    rfl
  | input name =>
    have hinput : (inputDraft c.toConfig name).outcome c = .ok a.toDraft := hout
    simp only [draft, inputDraft] at hout
    split at hout
    · rename_i name' fields description ht
      obtain ⟨hok, hasked⟩ := inputDraft_eq ht
      rw [draft, hasked] at hneeds
      refine .input (fields.map (inputEntry c.toConfig)) (schemaDoc c.toConfig description) hkind ?_ (fun e he => ?_)
        (h.hasHelpers fun n hn => hneeds n (List.mem_append_left _ hn))
      · rw [hname, ← Except.ok.inj (hok.symm.trans hinput)]
        rfl
      · obtain ⟨f, hf, rfl⟩ := List.mem_map.1 he
        exact ⟨f.type, rfl, h.hasInput (hneeds _ (List.mem_append_right _ (List.mem_map_of_mem hf)))⟩
    · cases hout

/-- A finished shape refers to what the output declares. -/
theorem refsIn_finished (h : Shown c jobOf s out) {node : Node} (ha : Assoc.get? s.store node = some a) {s₀ shape : Shape}
    (hs₀ : s₀.RefsIn (c.leaves (Deep c (needsAt c jobOf node)))) (hshape : finished s.progress s₀ = .ok shape) :
    shape.RefsIn (out.leaves c.toConfig) := by
  obtain ⟨late, stack, hs⟩ := h.sound
  have hrefs := Query.within_answer (finishWithin_within (hs.closed (needsAt c jobOf node)) _ s₀ hs₀) hshape
  refine RefsIn.mono h.leaves_le _ (RefsIn.mono (Config.leaves_le fun n hn => ?_) _ hrefs)
  exact h.complete.deep hs ha hn

/-- The types of fragments refer to what the output declares. -/
theorem written_fragment (h : Shown c jobOf s out) {name : String}
    (ha : Assoc.get? s.store (fragmentNode name) = some a) : out.Written c.toConfig a := by
  obtain ⟨n, hn, -, -, hkind, hneeds⟩ := h.met ha
  cases hn
  obtain ⟨f, s₀, shape, hf, hs₀, hshape, hdraft⟩ := h.draft_of_fragment ha
  obtain ⟨late, stack, hs⟩ := h.sound
  rw [needs_fragment hf] at hneeds
  refine .shape shape (Script.typeDoc c.output none (linkable f.file) f.fragment.source) (Or.inl hkind) ?_
    (h.refsIn_finished ha ?_ hshape) (h.hasHelpers fun n hn => hneeds n ?_)
  · rw [hdraft]
    rfl
  · refine (refsIn_fragmentPlan hs.named hs₀).mono (Config.leaves_le fun n hn => Or.inl ?_) s₀
    rwa [needsAt_eq (n := .fragment name) rfl, needs_fragment hf]
  · change n ∈ ((ensureHelpers c.toConfig) >>= _).needs c
    rw [Plan.needs_bind]
    exact List.mem_append_left _ hn

/-- The types of responses refer to what the output declares. -/
theorem written_operation (h : Shown c jobOf s out) {node : Node} {j : Job} (ha : Assoc.get? s.store node = some a)
    (hn : needOf jobOf node = some (.operation j)) : out.Written c.toConfig a := by
  obtain ⟨n, hn', hmet, hnode, hkind, hneeds⟩ := h.met ha
  cases hn.symm.trans hn'
  cases hnode
  obtain ⟨late, stack, hs⟩ := h.sound
  obtain ⟨s₀, hs₀, hmet⟩ := except_bind_ok hmet
  obtain ⟨shape, hshape, hmet⟩ := except_bind_ok hmet
  have hdraft : operationDraft c.toConfig j shape = a.toDraft :=
    congrArg Piece.draft (piece_eq (Except.ok.inj hmet))
  refine .shape shape (Script.typeDoc c.output none (linkable j.file) j.op.source) (Or.inr hkind) ?_ (h.refsIn_finished ha ?_ hshape)
    (h.hasHelpers fun n hn => hneeds n (List.mem_append_left _ hn))
  · rw [← hdraft]
    rfl
  · refine (refsIn_operationPlan hs.named hs₀).mono (Config.leaves_le fun n hn => Or.inl ?_) s₀
    rw [needsAt_eq hn']
    exact List.mem_append_right _ hn

/-- The types of variables refer to what the output declares. -/
theorem written_variables (h : Shown c jobOf s out) {node : Node} {j : Job} (ha : Assoc.get? s.store node = some a)
    (hn : needOf jobOf node = some (.arguments j)) : out.Written c.toConfig a := by
  obtain ⟨n, hn', hmet, hnode, hkind, hneeds⟩ := h.met ha
  cases hn.symm.trans hn'
  cases hnode
  obtain ⟨dr, hdr, hmet⟩ := except_bind_ok hmet
  have hdraft : dr = a.toDraft := congrArg Piece.draft (piece_eq (Except.ok.inj hmet))
  rw [hdraft] at hdr
  have hgives : Plan.Gives c (Need.Present c s) (variablesPlan c.toConfig j) (fun dr => ∃ entries : List Script.Entry,
      dr.code = c.templates.typeAlias dr.name (Script.exactName ++ "<" ++ (if entries.isEmpty then Script.noVariables
        else Script.renderInputFields c.output entries) ++ ">") none true ∧ out.HasInputs c.toConfig entries) := by
    refine Plan.gives_bind Plan.gives_trivial fun _ _ => Plan.gives_bind Plan.gives_trivial fun _ _ => ?_
    refine Plan.gives_bind (Plan.gives_mapM (P := fun e => ∃ type, e.code = codeText c.toConfig type ∧
      out.HasInput c.toConfig type) fun v _ => ?_) fun entries hentries => Plan.gives_pure ⟨_, rfl, fun e he => ?_⟩
    · unfold variableEntry
      split
      · exact Plan.gives_lack
      · intro hpresent e he
        cases he
        exact ⟨v.type, rfl, h.hasInput (hpresent _ (List.mem_cons_self))⟩
    · obtain ⟨⟨key, e'⟩, hmem, rfl⟩ := List.mem_map.1 he
      obtain ⟨e'', he'', heq⟩ := List.mem_map.1 (Assoc.mem_of_mem_ofList hmem)
      cases heq
      exact hentries _ he''
  obtain ⟨entries, hcode, hinputs⟩ := hgives hneeds _ hdr
  refine .variables entries hkind hcode hinputs ?_ (h.hasHelpers fun n hn => hneeds n ?_)
  · refine h.declares (d := .helper Script.exactName) (hneeds (.declared (.helper Script.exactName)) ?_)
    change _ ∈ ((ensureHelpers c.toConfig) >>= _).needs c
    rw [Plan.needs_bind, outcome_ensureHelpers]
    exact List.mem_append_right _ List.mem_cons_self
  · change n ∈ ((ensureHelpers c.toConfig) >>= _).needs c
    rw [Plan.needs_bind]
    exact List.mem_append_left _ hn

/-- What was made refers to what the output declares. -/
theorem written (h : Shown c jobOf s out) {node : Node} (ha : Assoc.get? s.store node = some a) :
    out.Written c.toConfig a := by
  obtain ⟨n, hn, -, hnode, -⟩ := h.met ha
  cases n with
  | declared d =>
    cases hnode
    exact h.written_declared ha
  | code type => cases hnode
  | fragment name =>
    cases hnode
    exact h.written_fragment ha
  | operation j => exact h.written_operation ha hn
  | arguments j => exact h.written_variables ha hn

end Shown

end Written

end Compile

namespace Workspace

/-- The output of a build refers to nothing but what it declares, whatever calls came before it. -/
theorem build_closed {w : Workspace} (hw : w.Reachable) (hu : UniqueNames w.documents) {out : Output}
    (h : w.build.1 = .ok out) : out.Closed w.setup.toConfig := by
  rcases hw.consistent.builds hu with ⟨e, he⟩ | ⟨after, s, hrun, hkept, -, hall⟩
  · rw [build_error he] at h
    cases h
  · rw [build_ok hrun] at h
    cases h
    have hmem : ∀ a, a ∈ (Output.ofParts (Assoc.values s.store) (Assoc.values after) w.options.templates w.options.hooks).artifacts ↔
        a ∈ Assoc.values s.store := fun a => (Text.sortBy_perm _ _).mem_iff
    have hshown : Shown w.collecting.setup.toSources (firstJob (allJobs w.setup.toConfig w.documents)) s
        (.ofParts (Assoc.values s.store) (Assoc.values after) w.options.templates w.options.hooks) := by
      refine ⟨⟨_, _, hkept.idle.sound⟩, hkept.complete hall, fun node a ha => (hmem a).2 ?_⟩
      exact List.mem_map.2 ⟨_, Assoc.mem_of_get? ha, rfl⟩
    intro a ha
    obtain ⟨e, he, rfl⟩ := List.mem_map.1 ((hmem a).1 ha)
    exact hshown.written (Assoc.get?_of_mem hkept.idle.sound.distinct.store he)

/-- The forum after a build and a change of the fragment that all others depend on. -/
def forumChanged : Workspace :=
  let contact : Document := ⟨[.fragment ⟨"Contact", "User", [],
    [asked "__typename" [], asked "friend" [asked "name" [], asked "role" []]], none⟩]⟩
  (forum.build.2.update [("contact", contact)]).2

/-- The change discards the fragments, both operations and the tag.  The next build makes them again beside the enum, the input
type and the types of variables that stayed, and its output is closed. -/
theorem build_closed_forumChanged :
    forumChanged.Reachable ∧ UniqueNames forumChanged.documents ∧
      Assoc.keys forumChanged.state.store = [(.enum, "Role"), (.typeHelper, "Exact"), (.inputType, "Filter"),
        (.operationVariables, "Me"), (.operationVariables, "Names")] ∧
      ∃ out, forumChanged.build.1 = .ok out ∧ out.artifacts.map (fun a => (a.kind, a.name)) = forumTypes ∧
        out.Closed forumChanged.setup.toConfig := by
  have hreachable : forumChanged.Reachable := .update (.build reachable_forum uniqueNames_forum) (by decide)
  have hunique : UniqueNames forumChanged.documents := by
    constructor <;> decide +kernel
  have hbuild : forumChanged.build.1.map (fun out => out.artifacts.map fun a => (a.kind, a.name)) = .ok forumTypes := by
    decide +kernel
  obtain ⟨out, hout, hnames⟩ := except_map_ok hbuild
  exact ⟨hreachable, hunique, by decide +kernel, out, hout, hnames, build_closed hreachable hunique hout⟩

end Workspace

end ResponseTypes
