import ResponseTypes.Proofs.Plan.Leaving

/-!
# Storing artifacts

Whatever a build does, it keeps the artifacts that are there and stores new ones behind them, each under a node that had none
before, and writes one message for each (`Storing`, `rules_stores`).  Nothing is stored under the nodes whose artifacts are
being built, so that what builds an artifact never stores it, however often it asks for artifacts itself (`Builder.unstored`).
If it completes, the artifact is stored, once (`Builder.stored`).
-/

namespace ResponseTypes.Compile

set_option autoImplicit false

variable {c : Setup} {stack : List Node} {node : Node} {s s' s'' : State} {made made' : Store ArtifactKind} {α β : Type}

/-! ## Messages -/

/-- The message that is written when an artifact is stored. -/
def storedMessage (e : Node × Artifact ArtifactKind) : Message :=
  ⟨.debug, "Generated " ++ e.1.1.name ++ " " ++ e.2.name⟩

/-- A message about an artifact that was stored. -/
def isStoredMessage (m : Message) : Bool :=
  "Generated ".toList.isPrefixOf m.text.toList

theorem isStoredMessage_storedMessage (e : Node × Artifact ArtifactKind) : isStoredMessage (storedMessage e) = true := by
  unfold isStoredMessage storedMessage
  rw [List.isPrefixOf_iff_prefix, String.toList_append, String.toList_append, String.toList_append, List.append_assoc,
    List.append_assoc]
  exact List.prefix_append _ _

theorem isStoredMessage_skipped (text : String) (level : Level) :
    isStoredMessage ⟨level, "Skipping anonymous " ++ text⟩ = false := by
  unfold isStoredMessage
  rw [String.toList_append]
  rfl

/-! ## What is stored -/

/-- The second state has the artifacts of the first one and `made` behind them, under nodes that had none before and are not
in `stack`, and a message for each of those. -/
structure Storing (stack : List Node) (s s' : State) (made : Store ArtifactKind) : Prop where
  store : s'.store = s.store ++ made
  nodup : (Assoc.keys made).Nodup
  fresh : ∀ node ∈ Assoc.keys made, node ∉ Assoc.keys s.store ∧ node ∉ stack
  messages : s'.journal.filter isStoredMessage = s.journal.filter isStoredMessage ++ made.map storedMessage

namespace Storing

/-- Where neither artifacts nor messages change, nothing is stored. -/
theorem of_eq (hstore : s'.store = s.store) (hjournal : s'.journal = s.journal) : Storing stack s s' [] :=
  ⟨by rw [hstore, List.append_nil], List.nodup_nil, fun _ h => absurd h List.not_mem_nil,
    by rw [hjournal, List.map_nil, List.append_nil]⟩

theorem trans (h : Storing stack s s' made) (h' : Storing stack s' s'' made') : Storing stack s s'' (made ++ made') where
  store := by rw [h'.store, h.store, List.append_assoc]
  nodup := by
    rw [Assoc.keys, List.map_append, List.nodup_append]
    refine ⟨h.nodup, h'.nodup, fun node hmade node' hmade' heq => ?_⟩
    have hfresh := (h'.fresh node' hmade').1
    rw [h.store, Assoc.keys, List.map_append, List.mem_append, not_or] at hfresh
    exact hfresh.2 (heq ▸ hmade)
  fresh node hnode := by
    rw [Assoc.keys, List.map_append, List.mem_append] at hnode
    rcases hnode with hnode | hnode
    · exact h.fresh node hnode
    · obtain ⟨hkeys, hstack⟩ := h'.fresh node hnode
      rw [h.store, Assoc.keys, List.map_append, List.mem_append, not_or] at hkeys
      exact ⟨hkeys.1, hstack⟩
  messages := by rw [h'.messages, h.messages, List.map_append, List.append_assoc]

theorem mono {stack' : List Node} (h : Storing stack' s s' made) (hstack : ∀ node ∈ stack, node ∈ stack') :
    Storing stack s s' made :=
  ⟨h.store, h.nodup, fun node hnode => (h.fresh node hnode).imp_right fun hmem hin => hmem (hstack node hin), h.messages⟩

/-- Nodes in the stack get no artifact. -/
theorem unstored (h : Storing stack s s' made) (hnode : node ∈ stack) (hnone : Assoc.get? s.store node = none) :
    Assoc.get? s'.store node = none := by
  rw [Assoc.get?_eq_none, h.store, Assoc.keys, List.map_append, List.mem_append, not_or]
  exact ⟨Assoc.get?_eq_none.1 hnone, fun hmade => (h.fresh node hmade).2 hnode⟩

/-- An artifact that is stored under a node that has none. -/
theorem of_stored (hnone : Assoc.get? s.store node = none) (hnode : node ∉ stack) (draft : Draft) (o : Origin) (t : Tracker) :
    Storing stack s (stored node draft o t s) [(node, { toDraft := draft, kind := node.1, origin := o })] where
  store := insert_eq_append hnone _
  nodup := List.nodup_singleton _
  fresh node' hnode' := by
    rw [List.mem_singleton.1 hnode']
    exact ⟨Assoc.get?_eq_none.1 hnone, hnode⟩
  messages := by
    have hmessage := isStoredMessage_storedMessage (node, { toDraft := draft, kind := node.1, origin := o })
    rw [stored, List.filter_append, List.map_singleton]
    exact congrArg _ (List.filter_eq_self.2 fun m hm => by rw [List.mem_singleton.1 hm]; exact hmessage)

/-- What two steps in a row store. -/
theorem bind {act : Step α} {f : α → Step β} (h : Storing stack s (act.runOn s).2 made)
    (hf : ∀ a s', act.runOn s = (.ok a, s') → ∃ made', Storing stack s' ((f a).runOn s').2 made') :
    ∃ made', Storing stack s ((act >>= f).runOn s).2 made' := by
  rw [runOn_bind]
  rcases hrun : act.runOn s with ⟨e | a, s'⟩ <;> rw [hrun] at h
  · exact ⟨made, h⟩
  · obtain ⟨made', hmade'⟩ := hf a s' hrun
    exact ⟨made ++ made', h.trans hmade'⟩

end Storing

/-- A step stores artifacts, whether it fails or not. -/
def Stores (stack : List Node) (act : Step α) : Prop :=
  ∀ s, ∃ made, Storing stack s (act.runOn s).2 made

theorem stores_of_eq {act : Step α} (h : ∀ s, (act.runOn s).2.store = s.store ∧ (act.runOn s).2.journal = s.journal) :
    Stores stack act :=
  fun s => ⟨[], .of_eq (h s).1 (h s).2⟩

theorem stores_pure (a : α) : Stores stack (pure a : Step α) := stores_of_eq fun _ => ⟨rfl, rfl⟩

theorem stores_fail (e : Failure) : Stores stack (Action.fail e : Step α) := stores_of_eq fun _ => ⟨rfl, rfl⟩

theorem stores_read (p : Part State α) : Stores stack p.read := stores_of_eq fun _ => ⟨rfl, rfl⟩

theorem stores_bind {act : Step α} {f : α → Step β} (h : Stores stack act) (hf : ∀ a, Stores stack (f a)) :
    Stores stack (act >>= f) := by
  intro s
  obtain ⟨made, hmade⟩ := h s
  exact hmade.bind fun a s' _ => hf a s'

theorem sequential_stores : Sequential fun act => Stores stack act where
  pure := stores_pure
  fail := stores_fail
  read := stores_read
  bind := stores_bind

theorem stores_modify {p : Part State α} (hstore : ∀ a s, (p.set a s).store = s.store)
    (hjournal : ∀ a s, (p.set a s).journal = s.journal) (f : α → α) : Stores stack (p.modify f) :=
  stores_of_eq fun s => ⟨hstore _ s, hjournal _ s⟩

theorem stores_marking {marks : Part State (List String)} (hmarks : MutePart marks) (name : String) {act : Step α}
    (h : Stores stack act) : Stores stack (marking marks name act) := by
  have hset : ∀ m s, Storing stack s (marks.set m s) [] := fun m s => .of_eq (hmarks.store m s) (hmarks.journal m s)
  intro s
  obtain ⟨made, hmade⟩ := h (marks.set ((marks.get s).insert name) s)
  exact ⟨_, (hset _ s).trans (hmade.trans (hset _ _))⟩

/-! ### Tracking -/

theorem stores_tracker {f : Tracker → Except Failure (α × Tracker)} :
    Stores stack ((Tracks.tracker : Part State Tracker).step f) := by
  refine stores_of_eq fun s => ?_
  unfold Action.runOn Part.step
  cases f (Tracks.tracker.get s) <;> exact ⟨rfl, rfl⟩

theorem stores_start (given : Option String) : Stores stack (Tracking.start given : Step Unit) :=
  stores_of_eq fun _ => ⟨rfl, rfl⟩

/-! ### Memos and artifacts -/

theorem stores_memoized {κ : Type} [DecidableEq κ] {memo : Part State (Memo κ α)}
    (hmemo : ∀ f, Stores stack (memo.modify f)) (enabled : Bool) (key : κ) {compute : Step α} (h : Stores stack compute) :
    Stores stack (Memo.memoized memo enabled key compute) :=
  sequential_stores.memoized (fun _ _ => stores_tracker) hmemo (stores_start none) stores_tracker enabled key h

section Artifacts

variable {given : Option String} {build : Step Draft} {a : Artifact ArtifactKind} {draft : Draft} {s₁ : State}

/-- What was built is stored under its node, if that has no artifact yet. -/
theorem storing_built (hnone : Assoc.get? s.store node = none) (hnode : node ∉ stack) (draft : Draft) (file : String) :
    ∃ made, Storing stack s ((do
      Tracking.add ⟨KindName.name node.1, draft.name⟩
      let keys ← Tracking.finish
      State.storePart.modify (fun m => Assoc.insert m node { toDraft := draft, kind := node.1, origin := ⟨file, keys⟩ })
      note .debug ("Generated " ++ KindName.name node.1 ++ " " ++ draft.name)
      return draft.name : Step String).runOn s).2 made := by
  have hrecord : Stores stack (Tracking.add ⟨KindName.name node.1, draft.name⟩ : Step Unit) := stores_tracker
  have hclose : Stores stack (Tracking.finish : Step (List String)) := stores_tracker
  obtain ⟨_, hrecorded⟩ := hrecord s
  refine hrecorded.bind fun _ s₁ hadd => ?_
  obtain ⟨t₁, -, rfl⟩ := runOn_add_ok hadd
  obtain ⟨_, hclosed⟩ := hclose { s with tracker := t₁ }
  refine hclosed.bind fun keys s₂ hfinish => ?_
  obtain ⟨t₂, -, rfl⟩ := runOn_tracker_ok hfinish
  exact ⟨_, Storing.of_stored (s := { s with tracker := t₂ }) hnone hnode draft ⟨file, keys⟩ t₂⟩

/-- Otherwise it is built, which stores nothing under its node, and then it is stored. -/
theorem stores_artifact (hnode : node ∉ stack) (h : Stores (node :: stack) build) :
    Stores stack (artifact node.1 node.2 given build) := by
  intro s
  cases hget : Assoc.get? s.store node with
  | some a =>
    rw [runOn_artifact_some hget]
    exact sequential_stores.reuse (fun _ _ => stores_tracker) a s
  | none =>
    have hopened : Storing stack s (opened given s) [] := .of_eq rfl rfl
    obtain ⟨made, hmade⟩ := h (opened given s)
    have hbuilt := hopened.trans (hmade.mono fun _ => List.mem_cons_of_mem node)
    rw [runOn_artifact_miss hget, runOn_bind]
    rcases hrun : build.runOn (opened given s) with ⟨e | draft, s₁⟩ <;> rw [hrun] at hmade hbuilt
    · exact ⟨made, hbuilt⟩
    · obtain ⟨last, hlast⟩ := storing_built (hmade.unstored List.mem_cons_self hget) hnode draft _
      exact ⟨made ++ last, hbuilt.trans hlast⟩

end Artifacts

/-! ## What a build does -/

/-- Nothing is stored when an operation without a name is skipped. -/
theorem stores_skipped (op : GraphQL.Operation) (file : String) :
    Stores stack (note .debug ("Skipping anonymous " ++ op.kind.name ++ " in " ++ file) : Step Unit) := by
  refine fun s => ⟨[], ⟨(List.append_nil _).symm, List.nodup_nil, fun _ h => absurd h List.not_mem_nil, ?_⟩⟩
  change (s.journal ++ [_]).filter isStoredMessage = _
  rw [List.filter_append, String.append_assoc, String.append_assoc]
  exact congrArg _ (List.filter_eq_nil_iff.2 fun m hm => by
    rw [List.mem_singleton.1 hm, isStoredMessage_skipped]
    exact Bool.false_ne_true)

theorem answering_stores (c : Setup) : Answering c (fun _ _ => True) fun stack act => Stores stack act where
  pure _ a := stores_pure a
  failHere _ e := sequential_stores.failHere e
  bind := stores_bind
  count _ _ := stores_modify mutePart_counters.store mutePart_counters.journal _
  use _ _ := stores_tracker
  leads _ := trivial
  leadsOn _ _ := trivial
  self _ _ _ := stores_tracker
  shape key _ h := stores_memoized (stores_modify (fun _ _ => rfl) fun _ _ => rfl) c.cached key h
  code type _ h := stores_memoized (stores_modify (fun _ _ => rfl) fun _ _ => rfl) c.cached type h
  declared d _ hnode h := stores_artifact hnode (markingInput_of (fun n => stores_marking mutePart_inputMarks n) d h)

/-- All that a build does stores artifacts where there were none. -/
theorem rules_stores (c : Setup) : Rules c fun stack act => Stores stack act where
  pure _ a := stores_pure a
  fail _ e := stores_fail e
  failHere _ e := sequential_stores.failHere e
  bind := stores_bind
  read _ p := stores_read p
  modify _ _ hp f := stores_modify hp.store hp.journal f
  skipped _ op file := stores_skipped op file
  keepFields {_ _ f} _ _ fields := sequential_stores.keepFields (stores_modify (fun _ _ => rfl) fun _ _ => rfl) f fields
  attributeFields _ name := sequential_stores.attributeFields (stores_modify (fun _ _ => rfl) fun _ _ => rfl) name
  inScope given _ f h := sequential_stores.inScope (stores_start given) stores_tracker f h
  artifact _ _ hnode h := stores_artifact hnode h
  marking hmarks name _ h := stores_marking hmarks name h
  again _ name := sequential_stores.fragmentInProgress (fun _ _ => stores_tracker) name
  perform hstack h _ := (answering_stores c).perform hstack h _

/-! ## What builds artifacts -/

/-- The steps that build artifacts, with the nodes of those: of types that are declared while the input types in `building` are
being built, of the tags in a union of tags, of fragments that are spread while those in `building` are being generated, and of
operations. -/
inductive Builder (c : Setup) : Node → Step Draft → Prop
  | input (building : List String) (n : String) : Builder c (Declared.input n).node (markingInput (.input n)
      ((draft c.toConfig (.input n)).perform c.cached (inputHost c (declare c (n :: building)))))
  | flat (d : Declared) : (∀ n, d = .input n → c.schema.type? n = none) → Builder c d.node (markingInput d
      ((draft c.toConfig d).perform c.cached (inputHost c (declareWith c fun _ => pure ()))))
  | tag (n : String) : Builder c (Declared.tag n).node (markingInput (.tag n)
      ((draft c.toConfig (.tag n)).perform c.cached (inputHost c fun _ => pure ())))
  | fragment (building : List String) (name : String) (f : FragmentDef) : Assoc.get? c.fragments name = some f →
      Builder c (fragmentNode name) (marking State.fragmentMarksPart name
        (buildFragment c f fun other => discard (generateFragment c (name :: building) other)))
  | operation (j : Job) : Known c.toConfig j.root → Builder c (.operation, j.name) (buildOperation c j)
  | operationVariables (j : Job) : Builder c (.operationVariables, j.name) (buildVariables c j)

namespace Builder

variable {build : Step Draft} {given : Option String} {draft : Draft} {s₁ : State}

/-- What steps of builds have in common is true of what builds an artifact, while that is being built. -/
theorem holds {H : ∀ {α : Type}, List Node → Step α → Prop} (hrules : Rules c H) (hanswering : Answering c (fun _ _ => True) H)
    (h : Builder c node build) : H [node] build := by
  have hmarking : ∀ (d : Declared) {build : Step Draft}, H [d.node] build → H [d.node] (markingInput d build) :=
    fun d _ => markingInput_of (fun n => hrules.marking mutePart_inputMarks n) d
  cases h with
  | input building n =>
    have hnone : Clear building [] := fun _ h => absurd h List.not_mem_nil
    have hclear : Clear (n :: building) [(Declared.input n).node] := hnone.cons n
    exact hmarking _ (hanswering.draftInput fun d _ => hanswering.declare _ d hclear fun _ _ _ _ => trivial)
  | flat d hd => exact hmarking d (hanswering.draftFlat (fun _ => List.not_mem_nil) hd)
  | tag n => exact hmarking (.tag n) (hanswering.draftTag n)
  | fragment building name f hf =>
    have hstack : ∀ d : Declared, d.node ∉ [fragmentNode name] := fun d hd =>
      Declared.node_ne_fragment d name (List.mem_singleton.1 hd)
    refine hrules.marking mutePart_fragmentMarks name ?_
    refine hrules.buildFragment (fun other => hrules.discard ?_) hstack hf (List.mem_singleton_self _)
    refine hrules.generateFragment (name :: building) other hstack fun n hn => ?_
    cases List.mem_singleton.1 hn
    exact List.mem_cons_self
  | operation j hj => exact hrules.buildOperation hj
  | operationVariables j => exact hrules.buildVariables j

/-- What builds an artifact does not store it, whether it fails or not. -/
theorem unstored (h : Builder c node build) (hnone : Assoc.get? s.store node = none) :
    Assoc.get? (build.runOn s).2.store node = none := by
  obtain ⟨made, hmade⟩ := h.holds (rules_stores c) (answering_stores c) s
  exact hmade.unstored (List.mem_singleton_self _) hnone

/-- If it completes, the artifact is stored: the scope that it was built in is still open. -/
theorem stored (h : Builder c node build) (hnone : Assoc.get? s.store node = none)
    (hbuild : build.runOn (opened given s) = (.ok draft, s₁)) :
    ∃ o t, (artifact node.1 node.2 given build).runOn s = (.ok draft.name, stored node draft o t s₁) := by
  have hleaving : Leaving build := h.holds (H := fun _ act => Leaving act) (rules_leaving c) (answering_leaving c)
  obtain ⟨left, own, below, hscopes, -, -, hok⟩ := hleaving.own given s
  rw [hbuild] at hscopes hok
  rw [hok draft rfl, List.nil_append] at hscopes
  have hadd : ∃ t own', s₁.tracker.add ⟨KindName.name node.1, draft.name⟩ = .ok t ∧ t.scopes = own' :: below := by
    rw [Tracker.add, hscopes]
    dsimp only
    split
    · exact ⟨_, _, rfl, rfl⟩
    · exact ⟨_, own, rfl, hscopes⟩
  obtain ⟨t, own', hadd, hscopes'⟩ := hadd
  obtain ⟨t', hfinish, -⟩ := exists_finish hscopes'
  exact ⟨_, t', runOn_artifact_ok hnone hbuild hadd hfinish⟩

end Builder

/-- When an artifact is asked for, these steps build it if it is not there, and are not taken if it is.  Whatever they ask for
themselves, they leave its node without an artifact.  If they fail, nothing more happens; if they complete, the artifact is
stored. -/
structure BuildsOnce (node : Node) (build : Step Draft) (given : Option String) (s : State) : Prop where
  reused : ∀ a, Assoc.get? s.store node = some a →
    (artifact node.1 node.2 given build).runOn s = (Store.reuse a : Step String).runOn s
  unstored : Assoc.get? s.store node = none → Assoc.get? (build.runOn (opened given s)).2.store node = none
  failed : Assoc.get? s.store node = none → ∀ e s₁, build.runOn (opened given s) = (.error e, s₁) →
    (artifact node.1 node.2 given build).runOn s = (.error e, s₁)
  stored : Assoc.get? s.store node = none → ∀ draft s₁, build.runOn (opened given s) = (.ok draft, s₁) →
    ∃ o t, (artifact node.1 node.2 given build).runOn s = (.ok draft.name, stored node draft o t s₁)

theorem Builder.buildsOnce {build : Step Draft} (h : Builder c node build) (given : Option String) (s : State) :
    BuildsOnce node build given s where
  reused _ hget := runOn_artifact_some hget
  unstored hnone := h.unstored (s := opened given s) hnone
  failed hnone e s₁ hbuild := by rw [runOn_artifact_miss hnone, runOn_bind, hbuild]
  stored hnone _ _ hbuild := h.stored hnone hbuild

end ResponseTypes.Compile
