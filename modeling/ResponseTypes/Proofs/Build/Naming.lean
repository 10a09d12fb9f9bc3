import ResponseTypes.Proofs.Branch.Spreads
import ResponseTypes.Proofs.Build.Again
import ResponseTypes.Proofs.Build.Closed
import ResponseTypes.Proofs.Text.Letters

/-!
# Generated names

An artifact is named by what it stands for (`Sound.name_eq`).  With the default conventions that is its name in GraphQL with
the ending of its kind, up to the case of letters and underscores (`letters_name`).  So artifacts have one name only if they
are spelled alike, and fragments with different names have two references where both are spread (`Workspace.names_told_apart`).
-/

namespace ResponseTypes

set_option autoImplicit false

open GraphQL (Document Selection TypeDef TypeRef isName)
open GraphQL.Selection (ListKeysNamed)
open Naming (Conventions letters letters_append letters_pascal pascal)

/-! ## Conventions -/

namespace Naming

variable {name : String}

theorem letters_fragment (h : isName name = true) :
    letters (({} : Conventions).fragment name) = letters (name ++ "Fragment") := by
  rw [Conventions.fragment, letters_append, letters_append, letters_pascal h, letters_append]
  rfl

theorem letters_operation (h : isName name = true) (root : String) :
    letters (({} : Conventions).operation name root) = letters (name ++ root) := by
  rw [Conventions.operation, letters_append, letters_append, letters_pascal h, letters_append]
  rfl

theorem letters_operationVariables (h : isName name = true) (root : String) :
    letters (({} : Conventions).operationVariables name root) = letters (name ++ (root ++ "Variables")) := by
  rw [Conventions.operationVariables, letters_append, letters_operation h, letters_append, letters_append, letters_append,
    List.append_assoc]

theorem letters_enum (h : isName name = true) : letters (({} : Conventions).enum name) = letters name := by
  rw [Conventions.enum, letters_append, letters_pascal h]
  rfl

/-- The ending of the name of an input type, which it may have already. -/
def inputEnding (name : String) : String :=
  if "Input".toList.isSuffixOf (pascal name).toList then "" else "Input"

theorem letters_input (h : isName name = true) :
    letters (({} : Conventions).input name) = letters (name ++ inputEnding name) := by
  rw [Conventions.input, letters_append, letters_append, inputEnding]
  dsimp only
  split
  · rw [letters_pascal h]
    simp [letters]
  · rw [letters_append, letters_pascal h]
    rfl

end Naming

namespace Compile

/-! ## Names of artifacts -/

section Names

variable {c : Sources} {late : TypeRef → Prop} {jobOf : String → Option Job} {stack : Stack} {s : State} {node : Node}
  {a : Artifact ArtifactKind}

/-- The generated name of what is needed. -/
def Need.typeName (c : Config) : Need → String
  | declared d => d.typeName c
  | fragment name => c.naming.fragment name
  | operation j => j.typeName c
  | arguments j => j.variablesTypeName c
  | code type => codeText c type

/-- A draft has the name of what is needed, and exports a type of it unless it is a helper. -/
structure Need.Names (c : Config) (n : Need) (dr : Draft) : Prop where
  name : dr.name = n.typeName c
  exported : (∀ name, n ≠ .declared (.helper name)) → Exports c.templates dr.name dr.code

theorem names_arguments {j : Job} {dr : Draft} (h : (variablesPlan c.toConfig j).outcome c = .ok dr) :
    (Need.arguments j).Names c.toConfig dr := by
  obtain ⟨-, -, h⟩ := Plan.outcome_bind_ok h
  obtain ⟨-, -, h⟩ := Plan.outcome_bind_ok h
  obtain ⟨entries, -, h⟩ := Plan.outcome_bind_ok h
  cases h
  exact ⟨rfl, fun _ => .alias _ _⟩

theorem Need.Meets.names {n : Need} (hc : c.Named) (h : n.Meets c s node a) : n.Names c.toConfig a.toDraft := by
  cases n with
  | declared d =>
    obtain ⟨dr, hdr, hmet⟩ := except_bind_ok h
    obtain rfl : dr = a.toDraft := congrArg Piece.draft (piece_eq (Except.ok.inj hmet))
    exact ⟨(names_draft hdr).1, fun hn => (names_draft hdr).2 fun name hd => hn name (congrArg Need.declared hd)⟩
  | code type => cases Need.node_of_complete h
  | fragment name =>
    obtain ⟨f, hf⟩ := Need.known_of_complete h
    simp only [Need.Meets, Need.complete, hf] at h
    obtain ⟨s₀, -, hmet⟩ := except_bind_ok h
    obtain ⟨piece, hpiece, hmet⟩ := except_bind_ok hmet
    obtain ⟨fields, -, hpiece⟩ := except_bind_ok hpiece
    obtain ⟨shape, -, hpiece⟩ := except_bind_ok hpiece
    cases hpiece
    have hdraft : fragmentDraft c.toConfig f shape = a.toDraft := congrArg Piece.draft (piece_eq (Except.ok.inj hmet))
    rw [← hdraft, ← hc name f hf]
    exact ⟨rfl, fun _ => .alias _ _⟩
  | operation j =>
    obtain ⟨s₀, -, hmet⟩ := except_bind_ok h
    obtain ⟨shape, -, hmet⟩ := except_bind_ok hmet
    have hdraft : operationDraft c.toConfig j shape = a.toDraft := congrArg Piece.draft (piece_eq (Except.ok.inj hmet))
    rw [← hdraft]
    exact ⟨rfl, fun _ => .alias _ _⟩
  | arguments j =>
    obtain ⟨dr, hdr, hmet⟩ := except_bind_ok h
    obtain rfl : dr = a.toDraft := congrArg Piece.draft (piece_eq (Except.ok.inj hmet))
    exact names_arguments hdr

/-- The generated name of what an artifact stands for. -/
def nameOf (c : Config) (jobOf : String → Option Job) (node : Node) : String :=
  ((needOf jobOf node).map (·.typeName c)).getD ""

/-- An artifact has the name of what it stands for. -/
theorem Sound.name_eq (hs : Sound c late jobOf stack s) (ha : Assoc.get? s.store node = some a) :
    a.name = nameOf c.toConfig jobOf node := by
  obtain ⟨⟨n, hn, hmet⟩, -⟩ := hs.made node a ha
  rw [nameOf, hn]
  exact (hmet.names hs.named).name

/-- All artifacts but helpers export a type of their name. -/
theorem Sound.exports (hs : Sound c late jobOf stack s) (ha : Assoc.get? s.store node = some a)
    (hnode : node.1 ≠ .typeHelper) : Exports c.templates a.name a.code := by
  obtain ⟨⟨n, -, hmet⟩, -⟩ := hs.made node a ha
  refine (hmet.names hs.named).exported fun name hn => ?_
  have hhelper := Need.node_of_complete hmet
  rw [hn] at hhelper
  cases hhelper
  exact hnode rfl

/-- The ending that tells the kind of an artifact: that of operations is the name of the root type. -/
def endingOf (jobOf : String → Option Job) : Node → String
  | (.typeHelper, _) | (.typeTag, _) | (.typeTagUnion, _) | (.enum, _) => ""
  | (.inputType, name) => Naming.inputEnding name
  | (.fragment, _) => "Fragment"
  | (.operation, name) => ((jobOf name).map (·.root.name)).getD ""
  | (.operationVariables, name) => ((jobOf name).map (·.root.name)).getD "" ++ "Variables"

/-- A name in GraphQL with the ending of its kind. -/
def spelled (jobOf : String → Option Job) (node : Node) : String :=
  node.2 ++ endingOf jobOf node

/-- Types, fragments and operations have names for names. -/
structure Sources.Spelled (c : Sources) (jobOf : String → Option Job) : Prop where
  types : ∀ name ∈ Assoc.keys c.schema.types, isName name = true
  fragments : ∀ name f, Assoc.get? c.fragments name = some f → isName name = true
  jobs : ∀ name j, jobOf name = some j → isName name = true

/-- The type of a declared type that was drafted is a type of the schema, if it is named by a convention. -/
theorem known_of_draft {name : String} {dr : Draft} (d : Declared) (hd : d = .enum name ∨ d = .input name)
    (h : (draft c.toConfig d).outcome c = .ok dr) : name ∈ Assoc.keys c.schema.types := by
  rcases hd with rfl | rfl
  · obtain ⟨t, ht, -⟩ := Plan.outcome_bind_ok h
    exact Assoc.mem_keys_of_get? (Plan.outcome_typeOf ht)
  · simp only [draft, inputDraft] at h
    split at h
    · rename_i ht
      exact Assoc.mem_keys_of_get? ht
    · cases h

/-- With the default conventions a generated name has the letters of the name in GraphQL with its ending. -/
theorem letters_name (hs : Sound c late jobOf stack s) (hc : c.Spelled jobOf) (hnaming : c.naming = {})
    (ha : Assoc.get? s.store node = some a) : letters a.name = letters (spelled jobOf node) := by
  obtain ⟨⟨n, hn, hmet⟩, -⟩ := hs.made node a ha
  have hnode := Need.node_of_complete hmet
  rw [(hmet.names hs.named).name, spelled]
  cases n with
  | declared d =>
    obtain ⟨dr, hdr, -⟩ := except_bind_ok hmet
    cases hnode
    cases d with
    | helper name | tag name | tagUnion name => exact congrArg letters (String.append_empty).symm
    | enum name =>
      rw [Need.typeName, Declared.typeName, hnaming, Naming.letters_enum (hc.types name (known_of_draft _ (Or.inl rfl) hdr))]
      exact congrArg letters (String.append_empty).symm
    | input name =>
      rw [Need.typeName, Declared.typeName, hnaming]
      exact Naming.letters_input (hc.types name (known_of_draft _ (Or.inr rfl) hdr))
  | code type => cases hnode
  | fragment name =>
    obtain ⟨f, hf⟩ := Need.known_of_complete hmet
    cases hnode
    rw [Need.typeName, hnaming]
    exact Naming.letters_fragment (hc.fragments name f hf)
  | operation j =>
    cases hnode
    obtain ⟨j', hj, hjob⟩ := Option.map_eq_some_iff.1 hn
    cases hjob
    rw [Need.typeName, Job.typeName, hnaming, Naming.letters_operation (hc.jobs _ j hj)]
    change _ = letters (j.name ++ ((jobOf j.name).map (·.root.name)).getD "")
    rw [hj]
    rfl
  | arguments j =>
    cases hnode
    obtain ⟨j', hj, hjob⟩ := Option.map_eq_some_iff.1 hn
    cases hjob
    rw [Need.typeName, Job.variablesTypeName, hnaming, Naming.letters_operationVariables (hc.jobs _ j hj)]
    change _ = letters (j.name ++ (((jobOf j.name).map (·.root.name)).getD "" ++ "Variables"))
    rw [hj]
    rfl

/-- Two artifacts stand for names that are spelled alike, up to the case of letters and underscores. -/
def SpelledAlike (jobOf : String → Option Job) (node node' : Node) : Prop :=
  letters (spelled jobOf node) = letters (spelled jobOf node')

/-- Artifacts with one name are spelled alike. -/
theorem spelledAlike_of_name_eq (hs : Sound c late jobOf stack s) (hc : c.Spelled jobOf) (hnaming : c.naming = {})
    {e e' : Node × Artifact ArtifactKind} (he : e ∈ s.store) (he' : e' ∈ s.store) (h : e.2.name = e'.2.name) :
    SpelledAlike jobOf e.1 e'.1 := by
  have hname := letters_name hs hc hnaming (Assoc.get?_of_mem hs.distinct.store he)
  have hname' := letters_name hs hc hnaming (Assoc.get?_of_mem hs.distinct.store he')
  exact hname.symm.trans ((congrArg letters h).trans hname')

/-- If no two artifacts are spelled alike, each has a name of its own. -/
theorem nodup_names (hs : Sound c late jobOf stack s) (hc : c.Spelled jobOf) (hnaming : c.naming = {})
    (h : ∀ node ∈ Assoc.keys s.store, ∀ node' ∈ Assoc.keys s.store, SpelledAlike jobOf node node' → node = node') :
    ((Assoc.values s.store).map (·.name)).Nodup := by
  rw [Assoc.values, List.map_map]
  refine List.Nodup.map_on (fun e he e' he' heq => ?_) hs.distinct.store.of_map
  have halike := spelledAlike_of_name_eq hs hc hnaming he he' heq
  exact List.inj_on_of_nodup_map hs.distinct.store he he' (h e.1 (List.mem_map_of_mem he) e'.1 (List.mem_map_of_mem he') halike)

end Names

end Compile

/-- The names of what stands in the file of some kinds. -/
def Output.declaredNames (out : Output) (kinds : List ArtifactKind) : List String :=
  kinds.flatMap fun kind => (out.ofKind kind).map (·.name)

/-- If the artifacts of an output have different names, each is declared once in every file. -/
theorem Output.nodup_declaredNames {out : Output} (h : (out.artifacts.map (·.name)).Nodup) {kinds : List ArtifactKind}
    (hkinds : kinds.Nodup) : (out.declaredNames kinds).Nodup := by
  refine List.nodup_flatMap.2 ⟨fun kind _ => (List.filter_sublist.map _).nodup h, hkinds.imp fun hne => ?_⟩
  intro name hname hname'
  obtain ⟨a, ha, rfl⟩ := List.mem_map.1 hname
  obtain ⟨b, hb, hsame⟩ := List.mem_map.1 hname'
  obtain ⟨ha, hkind⟩ := List.mem_filter.1 ha
  obtain ⟨hb, hkind'⟩ := List.mem_filter.1 hb
  obtain rfl := List.inj_on_of_nodup_map h hb ha hsame
  exact hne ((of_decide_eq_true hkind).symm.trans (of_decide_eq_true hkind'))

namespace Workspace

open Compile

/-- Types, fragments and operations have names for names. -/
structure Named (w : Workspace) : Prop where
  types : ∀ name ∈ Assoc.keys w.schema.types, isName name = true
  documents : ∀ e ∈ w.documents, e.2.Named

theorem Named.spelled {w : Workspace} (h : w.Named) :
    w.collecting.setup.toSources.Spelled (firstJob (allJobs w.setup.toConfig w.documents)) where
  types := h.types
  fragments name f hf := by
    obtain ⟨rfl, d, hd, hmem⟩ := mem_of_collectFragments hf
    exact (h.documents _ hd).fragments _ hmem
  jobs name j hj := by
    have hname : j.name = name := by simpa using List.find?_some hj
    obtain ⟨d, hd, op, hop, hopname⟩ := issues_of_mem_allJobs (List.mem_of_find?_eq_some hj)
    rw [← hname]
    exact (h.documents _ hd).operations op hop _ hopname

/-- What a build that succeeds leaves is sound, whatever calls came before it. -/
theorem exists_sound {w : Workspace} (hw : w.Reachable ∨ w.Empty) (hu : UniqueNames w.documents) {out : Output}
    (h : w.build.1 = .ok out) :
    out.artifacts.Perm (Assoc.values w.build.2.state.store) ∧ ∃ late,
      Sound w.collecting.setup.toSources late (firstJob (allJobs w.setup.toConfig w.documents)) .empty w.build.2.state := by
  have hruns : ∃ after s late, w.buildStep.runOn w.state = (.ok after, s) ∧
      Idle w.collecting.setup.toSources late (firstJob (allJobs w.setup.toConfig w.documents)) s := by
    rcases hw with hw | hw
    · rcases hw.consistent.builds hu with ⟨e, he⟩ | ⟨after, s, hrun, hkept, -⟩
      · rw [build_error he] at h
        cases h
      · exact ⟨after, s, _, hrun, hkept.idle⟩
    · rcases passes_empty hw with ⟨e, -, he⟩ | ⟨after, s, -, hrun, hidle, -⟩
      · rw [build_error he] at h
        cases h
      · exact ⟨after, s, _, hrun, hidle⟩
  obtain ⟨after, s, late, hrun, hidle⟩ := hruns
  obtain ⟨journal, hbuild⟩ := build_done hrun
  rw [hbuild] at h ⊢
  cases h
  exact ⟨Text.sortBy_perm _ _, late, hidle.sound.congr rfl rfl rfl rfl rfl⟩

/-- How the artifacts of a build with the default conventions are told apart by their names. -/
structure NamesApart (c : Config) (jobOf : String → Option Job) (store : Store ArtifactKind) (out : Output) : Prop where
  conventional : ∀ e ∈ store, e.2.name = nameOf c jobOf e.1
  /-- artifacts with one name are spelled alike -/
  alike : ∀ e ∈ store, ∀ e' ∈ store, e.2.name = e'.2.name → SpelledAlike jobOf e.1 e'.1
  exported : ∀ a ∈ out.artifacts, a.kind ≠ .typeHelper → Exports c.templates a.name a.code
  /-- if no two artifacts are spelled alike, no name is declared twice -/
  distinct : (∀ node ∈ Assoc.keys store, ∀ node' ∈ Assoc.keys store, SpelledAlike jobOf node node' → node = node') →
    (out.artifacts.map (·.name)).Nodup ∧ ∀ kinds : List ArtifactKind, kinds.Nodup → (out.declaredNames kinds).Nodup

/-- Fragments with different names that are spread into one object have two references in it. -/
def SpreadsApart (c : Setup) : Prop :=
  ∀ (t : TypeDef) (sels : List Selection) (building : List String) (s s' : State) (shape : Shape) (n : String)
    (f g : FragmentDef), Known c.toConfig t → ListKeysNamed sels → Recalls c.toSources s →
    (select c (useFragment c fun name => discard (generateFragment c building name)) t sels).runOn s = (.ok shape, s') →
    c.schema.doesFragmentTypeApply t.name n = true → SpreadFor c.toSources n sels f → SpreadFor c.toSources n sels g →
    c.naming.fragment f.fragment.name ≠ c.naming.fragment g.fragment.name →
    ∃ fields, .object n fields {} ∈ shape.branches ∧ Refers c.toSources fields f ∧ Refers c.toSources fields g ∧
      spreadKey c.toSources f ≠ spreadKey c.toSources g

theorem spreadsApart (c : Setup) : SpreadsApart c := by
  intro t sels building s s' shape n f g ht hsels hrecalls hrun happlies hf hg hne
  obtain ⟨fields, hmem, hfields, hfields'⟩ :=
    references_of_spread ht hsels (outcome_of_select ht hrecalls hrun) happlies hf hg hne
  exact ⟨fields, hmem, hfields, hfields', fun hkey => hne (fragmentKey_inj hkey)⟩

/-- With the default conventions, artifacts of a build have one name only if they are spelled alike.  If no two are, each
name is declared once.  Where two fragments with different names are spread into one object, it has two references. -/
theorem names_told_apart {w : Workspace} (hw : w.Reachable ∨ w.Empty) (hu : UniqueNames w.documents) (hn : w.Named)
    (hnaming : w.options.naming = {}) {out : Output} (h : w.build.1 = .ok out) :
    NamesApart w.setup.toConfig (firstJob (allJobs w.setup.toConfig w.documents)) w.build.2.state.store out ∧
      SpreadsApart w.collecting.setup := by
  obtain ⟨hperm, late, hs⟩ := exists_sound hw hu h
  have hget : ∀ e ∈ w.build.2.state.store, Assoc.get? w.build.2.state.store e.1 = some e.2 := fun e he =>
    Assoc.get?_of_mem hs.distinct.store he
  refine ⟨⟨fun e he => hs.name_eq (hget e he), fun e he e' he' => spelledAlike_of_name_eq hs hn.spelled hnaming he he', ?_,
    fun hapart => ?_⟩, spreadsApart _⟩
  · intro a ha hkind
    obtain ⟨e, he, rfl⟩ := List.mem_map.1 (hperm.mem_iff.1 ha)
    exact hs.exports (hget e he) (hs.kinds e he ▸ hkind)
  · have hnodup := (hperm.map _).nodup_iff.2 (nodup_names hs hn.spelled hnaming hapart)
    exact ⟨hnodup, fun kinds => Output.nodup_declaredNames hnodup⟩

/-- A selection of both fragments of the forum, one of which spreads the other. -/
def bothFragments : List Selection := [.spread "Profile" [], .spread "Contact" []]

theorem named_forum : forum.Named := by
  have hdocuments : ∀ e ∈ forum.documents, (∀ f ∈ e.2.fragments, isName f.name = true) ∧
      ∀ op ∈ e.2.operations, ∀ name ∈ op.name, isName name = true := by decide +kernel
  exact ⟨by decide +kernel, fun e he => ⟨(hdocuments e he).1, (hdocuments e he).2⟩⟩

/-- In the forum no two artifacts are spelled alike.  Where both fragments are spread, both references stand. -/
theorem names_told_apart_forum :
    let c := forum.collecting.setup
    let f : FragmentDef := ⟨profile, "profile"⟩
    let g : FragmentDef := ⟨contact, "contact"⟩
    (forum.Reachable ∨ forum.Empty) ∧ UniqueNames forum.documents ∧ forum.Named ∧ forum.options.naming = {} ∧
    ∃ out, forum.build.1 = .ok out ∧
      NamesApart forum.setup.toConfig (firstJob (allJobs forum.setup.toConfig forum.documents)) forum.build.2.state.store out ∧
      (out.artifacts.map (·.name)).Nodup ∧ SpreadsApart c ∧ SpreadFor c.toSources "User" bothFragments f ∧
      SpreadFor c.toSources "User" bothFragments g ∧ ∃ shape s',
        (select c (useFragment c (generator c)) forumUser bothFragments).runOn (.initial true) = (.ok shape, s') ∧
        ∃ fields, .object "User" fields {} ∈ shape.branches ∧ Refers c.toSources fields f ∧ Refers c.toSources fields g ∧
          spreadKey c.toSources f ≠ spreadKey c.toSources g := by
  intro c f g
  have hapart : ∀ node ∈ Assoc.keys forum.build.2.state.store, ∀ node' ∈ Assoc.keys forum.build.2.state.store,
      letters (spelled (firstJob (allJobs forum.setup.toConfig forum.documents)) node) =
        letters (spelled (firstJob (allJobs forum.setup.toConfig forum.documents)) node') → node = node' := by decide +kernel
  have hbuild : forum.build.1.isOk = true := by decide +kernel
  obtain ⟨out, _, hrun⟩ := eq_ok_of_isOk hbuild
  have hout : forum.build.1 = .ok out := congrArg Prod.fst hrun
  obtain ⟨hnames, hspreads⟩ := names_told_apart (Or.inl reachable_forum) uniqueNames_forum named_forum rfl hout
  have hf : SpreadFor c.toSources "User" bothFragments f :=
    .here List.mem_cons_self (by decide +kernel) (by decide +kernel)
  have hg : SpreadFor c.toSources "User" bothFragments g :=
    .here (List.mem_cons_of_mem _ List.mem_cons_self) (by decide +kernel) (by decide +kernel)
  have hknown : c.schema.type? "User" = some forumUser := by decide +kernel
  have hkeyed : ListKeysNamed bothFragments := ⟨trivial, trivial, trivial⟩
  have hselect : ((select c (useFragment c (generator c)) forumUser bothFragments).runOn (.initial true)).1.isOk = true := by
    decide +kernel
  obtain ⟨shape, s', hrun⟩ := eq_ok_of_isOk hselect
  exact ⟨Or.inl reachable_forum, uniqueNames_forum, named_forum, rfl, out, hout, hnames, (hnames.distinct hapart).1, hspreads,
    hf, hg, shape, s', hrun, hspreads forumUser _ [] _ _ _ _ _ _ hknown hkeyed (recalls_initial _ _) hrun (by decide +kernel) hf hg
      (by decide +kernel)⟩

/-- A fragment that selects one field of a user. -/
def userFragment (name field : String) : FragmentDef :=
  ⟨⟨name, "User", [], [asked field []], none⟩, "a"⟩

/-- The type of users. -/
def userType : TypeDef :=
  ⟨"User", .object [] [⟨"id", .named "ID", [], none⟩, ⟨"name", .named "ID", [], none⟩], none⟩

/-- The spreads of both fragments. -/
def bothSpreads : List Selection := [.spread "userName" [], .spread "UserName" []]

/-- A workspace with two fragments whose names are one in pascal case, and a query of a user that spreads both. -/
def namesakes : Workspace :=
  let schema : Schema :=
    { types := [("Query", ⟨"Query", .object [] [⟨"user", .named "User", [], none⟩], none⟩), ("User", userType),
        ("ID", ⟨"ID", .scalar, none⟩)]
      roots := [(.query, "Query")]
      keyed := by decide }
  let source : Document :=
    ⟨[.fragment (userFragment "userName" "name").fragment, .fragment (userFragment "UserName" "id").fragment,
      .operation ⟨.query, some "Q", [], [], [asked "user" bothSpreads], none⟩]⟩
  ((Workspace.new schema {}).add [("a", source)]).2

/-- What `namesakes` is compiled from. -/
def namesakesSources : Sources := namesakes.collecting.setup.toSources

/-- The fragments of `namesakes` get one name, and where both are spread one reference is left. -/
theorem generated_names_clash :
    (∃ out, namesakes.build.1 = .ok out ∧ ∃ e ∈ namesakes.build.2.state.store,
      ∃ e' ∈ namesakes.build.2.state.store, e.1 ≠ e'.1 ∧ e.2.name = e'.2.name) ∧
    ∃ f g, f.fragment.name ≠ g.fragment.name ∧ SpreadFor namesakesSources "User" bothSpreads f ∧
      SpreadFor namesakesSources "User" bothSpreads g ∧
      ∃ shape, (selection namesakesSources.toConfig userType bothSpreads).outcome namesakesSources = .ok shape ∧
        ∀ k ∈ Assoc.keys shape.fields, k = spreadKey namesakesSources f := by
  constructor
  · have hbuild : namesakes.build.1.isOk = true := by decide +kernel
    obtain ⟨out, _, hrun⟩ := eq_ok_of_isOk hbuild
    exact ⟨out, congrArg Prod.fst hrun, by decide +kernel⟩
  · have hf : Assoc.get? namesakesSources.fragments "userName" = some (userFragment "userName" "name") := by decide +kernel
    have hg : Assoc.get? namesakesSources.fragments "UserName" = some (userFragment "UserName" "id") := by decide +kernel
    have hkeys : ((selection namesakesSources.toConfig userType bothSpreads).outcome namesakesSources).toOption.map
        (fun shape => Assoc.keys shape.fields) = some [spreadKey namesakesSources (userFragment "userName" "name")] := by
      decide +kernel
    rcases hshape : (selection namesakesSources.toConfig userType bothSpreads).outcome namesakesSources with lack | shape
    · rw [hshape] at hkeys
      cases hkeys
    · rw [hshape] at hkeys
      have hkeys : Assoc.keys shape.fields = [_] := Option.some.inj hkeys
      exact ⟨_, _, by decide, .here List.mem_cons_self hf (by decide +kernel),
        .here (List.mem_cons_of_mem _ List.mem_cons_self) hg (by decide +kernel), shape, rfl, by simp [hkeys]⟩

end Workspace

end ResponseTypes
