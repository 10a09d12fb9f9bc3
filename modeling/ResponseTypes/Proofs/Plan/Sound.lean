import ResponseTypes.Proofs.Plan.Queries
import ResponseTypes.Proofs.Plan.Run
import ResponseTypes.Proofs.Plan.Scopes
import Mathlib.Logic.Relation

/-!
# Sound states

* `State.progress` : what was made so far, as a run sees it;
* `Sound` : what is kept in a state is what computing it again would come to, and the recorded fragment uses are those
  of the fragments that can be reached.
-/

namespace ResponseTypes.Compile

set_option autoImplicit false

open GraphQL (Selection TypeDef TypeRef)
open Dependency (fragmentsUsed)
open Shape (FieldRefsIn)

/-! ## Actions -/

section Actions

variable {σ α β : Type}

@[simp] theorem runOn_bind (act : Action σ α) (f : α → Action σ β) (s : σ) :
    (act >>= f).runOn s = match act.runOn s with
      | (.ok a, s') => (f a).runOn s'
      | (.error e, s') => (.error e, s') := by
  change (match act s with | (r, s') => (ExceptT.bindCont f r : StateM σ (Except Failure β)) s') = _
  unfold Action.runOn
  rcases act s with ⟨_ | _, s'⟩ <;> rfl

theorem runOn_failHere [Tracks σ] (e : Option String → Failure) (s : σ) :
    ((Tracking.failHere e : Action σ α)).runOn s = (.error (e (some (Tracks.tracker.get s).currentFile)), s) := rfl

theorem runOn_read (p : Part σ α) (s : σ) : p.read.runOn s = (.ok (p.get s), s) := rfl

theorem runOn_modify (p : Part σ α) (f : α → α) (s : σ) : (p.modify f).runOn s = (.ok (), p.set (f (p.get s)) s) := rfl

theorem runOn_step {p : Part σ α} {f : α → Except Failure (β × α)} {b : β} {a : α} {s : σ}
    (h : f (p.get s) = .ok (b, a)) : (p.step f).runOn s = (.ok b, p.set a s) := by
  unfold Action.runOn Part.step
  rw [h]

end Actions

theorem runOn_start (file : Option String) (s : State) :
    (Tracking.start file : Step Unit).runOn s = (.ok (), { s with tracker := s.tracker.start file }) := rfl

theorem runOn_currentFile (s : State) : (Tracking.currentFile : Step String).runOn s = (.ok s.tracker.currentFile, s) :=
  rfl

theorem runOn_merge {keys : List String} {file : Option String} {s : State} {t : Tracker}
    (h : s.tracker.merge keys file = .ok t) :
    (Tracking.merge keys file : Step Unit).runOn s = (.ok (), { s with tracker := t }) := by
  refine runOn_step ?_
  change (s.tracker.merge keys file).map _ = _
  rw [h]
  rfl

theorem runOn_add {d : Dependency} {s : State} {t : Tracker} (h : s.tracker.add d = .ok t) :
    (Tracking.add d : Step Unit).runOn s = (.ok (), { s with tracker := t }) := by
  refine runOn_step ?_
  change (s.tracker.add d).map _ = _
  rw [h]
  rfl

theorem runOn_finish {keys : List String} {s : State} {t : Tracker} (h : s.tracker.finish = .ok (keys, t)) :
    (Tracking.finish : Step (List String)).runOn s = (.ok keys, { s with tracker := t }) :=
  runOn_step h

/-! ## Progress -/

/-- The fields of a fragment's node, with their height. -/
def State.fieldsAt (s : State) (n : Node) : Option (Fields × Nat) :=
  if n.1 = .fragment then (Assoc.get? s.fieldMaps n.2).map (fun m => (m.fields, m.height)) else none

/-- What was made so far. -/
def State.progress (s : State) : Progress :=
  s.store.map (fun e => (e.1, ⟨e.2.toDraft, e.2.origin.file, s.fieldsAt e.1⟩))

theorem get?_progress (s : State) (n : Node) :
    Assoc.get? s.progress n =
      (Assoc.get? s.store n).map (fun a => (⟨a.toDraft, a.origin.file, s.fieldsAt n⟩ : Piece)) := by
  unfold State.progress
  generalize s.store = store
  induction store with
  | nil => rfl
  | cons e rest ih =>
    obtain ⟨n', a⟩ := e
    simp only [List.map_cons, Assoc.get?_cons]
    by_cases h : n' = n
    · rw [if_pos h, if_pos h, h]
      rfl
    · rw [if_neg h, if_neg h, ih]

theorem has_progress (s : State) (n : Node) : Assoc.has s.progress n = Assoc.has s.store n := by
  unfold Assoc.has
  rw [get?_progress, Option.isSome_map]

/-- The same artifacts with the same fields make the same progress. -/
theorem progress_congr {s s' : State} (hs : s'.store = s.store)
    (hf : ∀ n ∈ Assoc.keys s.store, s'.fieldsAt n = s.fieldsAt n) : s'.progress = s.progress := by
  unfold State.progress
  rw [hs]
  refine List.map_congr_left fun e he => ?_
  rw [hf e.1 (List.mem_map_of_mem he)]

/-! ## Reaching fragments -/

/-- The fragments among needs. -/
def fragmentsIn (needs : List Need) : List String :=
  needs.filterMap (fun
    | .fragment name => some name
    | _ => none)

theorem mem_fragmentsIn {needs : List Need} {name : String} : name ∈ fragmentsIn needs ↔ .fragment name ∈ needs := by
  unfold fragmentsIn
  rw [List.mem_filterMap]
  constructor
  · rintro ⟨n, hn, h⟩
    cases n <;> simp_all
  · exact fun h => ⟨_, h, rfl⟩

/-- One fragment spreads another. -/
def Spreads (c : Sources) (name other : String) : Prop :=
  .fragment other ∈ (Need.fragment name).needs c

/-- A fragment is spread, directly or through others. -/
def Reached (c : Sources) (names : List String) (other : String) : Prop :=
  ∃ name ∈ names, Relation.ReflTransGen (Spreads c) name other

/-- The need that an artifact stands for; `jobOf` tells the operations by name. -/
def needOf (jobOf : String → Option Job) : Node → Option Need
  | (.typeHelper, name) => some (.declared (.helper name))
  | (.typeTag, name) => some (.declared (.tag name))
  | (.typeTagUnion, name) => some (.declared (.tagUnion name))
  | (.enum, name) => some (.declared (.enum name))
  | (.inputType, name) => some (.declared (.input name))
  | (.fragment, name) => some (.fragment name)
  | (.operation, name) => (jobOf name).map .operation
  | (.operationVariables, name) => (jobOf name).map .arguments

theorem needOf_declared (jobOf : String → Option Job) (d : Declared) : needOf jobOf d.node = some (.declared d) := by
  cases d <;> rfl

/-- The operation that an artifact stands for is known. -/
theorem job_of_needOf {jobOf : String → Option Job} {node : Node} {n : Need} {j : Job} (h : needOf jobOf node = some n)
    (hj : n = .operation j ∨ n = .arguments j) : ∃ name, jobOf name = some j := by
  obtain ⟨kind, name⟩ := node
  cases kind <;> rcases hj with rfl | rfl <;> simp_all [needOf]
  all_goals exact ⟨name, h⟩

/-- What an artifact needs. -/
def needsAt (c : Sources) (jobOf : String → Option Job) (node : Node) : List Need :=
  ((needOf jobOf node).map (fun n => n.needs c)).getD []

/-- The fragments that an artifact spreads. -/
def spreadsOf (c : Sources) (jobOf : String → Option Job) (node : Node) : List String :=
  fragmentsIn (needsAt c jobOf node)

theorem needsAt_eq {c : Sources} {jobOf : String → Option Job} {node : Node} {n : Need} (h : needOf jobOf node = some n) :
    needsAt c jobOf node = n.needs c := by
  rw [needsAt, h]
  rfl

theorem Reached.nil {c : Sources} {other : String} : ¬Reached c [] other :=
  fun ⟨_, h, _⟩ => absurd h List.not_mem_nil

theorem Reached.append {c : Sources} {names more : List String} {other : String} :
    Reached c (names ++ more) other ↔ Reached c names other ∨ Reached c more other := by
  simp only [Reached, List.mem_append, or_and_right, exists_or]

/-- What is spread in a fragment that is reached is reached. -/
theorem Reached.step {c : Sources} {names : List String} {name other : String} (h : Reached c names name)
    (hs : Spreads c name other) : Reached c names other := by
  obtain ⟨n, hn, hr⟩ := h
  exact ⟨n, hn, hr.tail hs⟩

theorem Reached.trans {c : Sources} {names more : List String} {other : String}
    (h : ∀ name ∈ more, Reached c names name) (h' : Reached c more other) : Reached c names other := by
  obtain ⟨n, hn, hr⟩ := h'
  obtain ⟨m, hm, hr'⟩ := h n hn
  exact ⟨m, hm, hr'.trans hr⟩

/-- What is needed, with what is needed for the fragments among it. -/
def Deep (c : Sources) (needs : List Need) (n : Need) : Prop :=
  n ∈ needs ∨ ∃ name, Reached c (fragmentsIn needs) name ∧ n ∈ (Need.fragment name).needs c

theorem reached_of_mem_needs {c : Sources} {needs : List Need} {name : String} (h : .fragment name ∈ needs) :
    Reached c (fragmentsIn needs) name :=
  ⟨name, mem_fragmentsIn.2 h, .refl⟩

theorem deep_fragment {c : Sources} {needs : List Need} {name : String} :
    Deep c needs (.fragment name) ↔ Reached c (fragmentsIn needs) name := by
  constructor
  · rintro (h | ⟨other, hother, h⟩)
    · exact reached_of_mem_needs h
    · exact hother.step h
  · rintro ⟨first, hfirst, hr⟩
    rcases hr.cases_tail with rfl | ⟨last, hr, hs⟩
    · exact Or.inl (mem_fragmentsIn.1 hfirst)
    · exact Or.inr ⟨last, ⟨first, hfirst, hr⟩, hs⟩

/-- What is needed for fragments that are reached is needed. -/
theorem Deep.trans {c : Sources} {needs : List Need} {name : String} {n : Need}
    (hname : Reached c (fragmentsIn needs) name) (h : Deep c ((Need.fragment name).needs c) n) : Deep c needs n := by
  rcases h with h | ⟨other, hother, h⟩
  · exact Or.inr ⟨name, hname, h⟩
  · exact Or.inr ⟨other, Reached.trans (fun next hnext => hname.step (mem_fragmentsIn.1 hnext)) hother, h⟩

theorem fragment_leaves {c : Config} {N : Need → Prop} {name : String} :
    (c.leaves N).Fragment name ↔ N (.fragment name) :=
  ⟨fun ⟨_, h, _⟩ => h, fun h => ⟨_, h, rfl⟩⟩

/-- The fragments that shapes may refer to are those that are reached. -/
theorem leaves_fragment (c : Sources) (needs : List Need) :
    (c.leaves (Deep c needs)).Fragment = Reached c (fragmentsIn needs) := by
  funext name
  exact propext (fragment_leaves.trans deep_fragment)

/-! ## Soundness -/

/-- The first result depends on the files that the second depends on. -/
def Covers (o o' : Origin) : Prop :=
  ∀ file, file ≠ "" → o'.dependsOn file → o.dependsOn file

/-- The artifact of a node was made, and a result of an origin depends on the files that it depends on. -/
def Backed (s : State) (o : Origin) (node : Node) : Prop :=
  ∃ a, Assoc.get? s.store node = some a ∧ (s.tracker.enabled → Covers o a.origin)

/-- What is needed was made, and a result of an origin depends on the files that it depends on. -/
def Need.Backed (s : State) (o : Origin) : Need → Prop
  | declared d => Compile.Backed s o d.node
  | code _ | operation _ | arguments _ => False
  | fragment name => Compile.Backed s o (fragmentNode name)

/-- The artifact of a node is what meeting a need comes to, after what was made. -/
def Need.Meets (c : Sources) (s : State) (node : Node) (a : Artifact ArtifactKind) (n : Need) : Prop :=
  n.complete c a.origin.file s.progress =
    .ok (s.progress ++ [(node, ⟨a.toDraft, a.origin.file, s.fieldsAt node⟩)])

/-- An artifact is what meeting the need that it stands for comes to; what that refers to was made. -/
structure Made (c : Sources) (jobOf : String → Option Job) (s : State) (node : Node) (a : Artifact ArtifactKind) :
    Prop where
  met : ∃ n, needOf jobOf node = some n ∧ n.Meets c s node a
  backed : ∀ n ∈ needsAt c jobOf node, n.Selected → n.Backed s a.origin

/-- Everything is kept under a key of its own. -/
structure State.Distinct (s : State) : Prop where
  store : (Assoc.keys s.store).Nodup
  maps : (Assoc.keys s.fieldMaps).Nodup
  shapes : (Assoc.keys s.shapes.entries).Nodup
  inputs : (Assoc.keys s.inputs.entries).Nodup

/-- What was kept is what computing it again would come to. -/
structure Sound (c : Sources) (late : TypeRef → Prop) (jobOf : String → Option Job) (stack : Stack) (s : State) :
    Prop where
  named : c.Named
  distinct : s.Distinct
  /-- the fields of fragments that were made are known and refer to what these need -/
  fields : ∀ name, Assoc.has s.store (fragmentNode name) →
    ∃ m, Assoc.get? s.fieldMaps name = some m ∧
      FieldRefsIn (c.leaves (Deep c ((Need.fragment name).needs c))) m.fields
  /-- they are kept as long as the fragments are -/
  maps : ∀ name a m, Assoc.get? s.store (fragmentNode name) = some a → Assoc.get? s.fieldMaps name = some m →
    Covers a.origin m.origin
  made : ∀ node a, Assoc.get? s.store node = some a → Made c jobOf s node a
  uses : ∀ node a, Assoc.get? s.store node = some a →
    ∀ name, name ∈ fragmentsUsed a.origin.keys ↔ Reached c (spreadsOf c jobOf node) name
  shapes : ∀ typeName sels shape origin, Assoc.get? s.shapes.entries (typeName, sels) = some (shape, origin) →
    ∀ t, c.schema.type? typeName = some t →
      (selection c.toConfig t sels).outcome c = .ok shape ∧
      (∀ n ∈ (selection c.toConfig t sels).needs c, n.Backed s origin) ∧
      ∀ name, name ∈ fragmentsUsed origin.keys ↔ Reached c (fragmentsIn ((selection c.toConfig t sels).needs c)) name
  inputs : ∀ type text origin, Assoc.get? s.inputs.entries type = some (text, origin) →
    (codePlan c.toConfig type).outcome c = .ok text ∧ (Need.code type).Done c late stack s.progress ∧
    fragmentsUsed origin.keys = []
  /-- what is made later can be made -/
  late : ∀ type, late type → ∃ text, (codePlan c.toConfig type).outcome c = .ok text
  kinds : ∀ e ∈ s.store, e.2.kind = e.1.1
  /-- what is being made was not made -/
  unmade : (∀ name ∈ stack.fragments, Assoc.has s.store (fragmentNode name) = false) ∧
    ∀ name ∈ stack.inputs, Assoc.has s.store (Declared.input name).node = false

/-- Fragments that are spread in what was made were made. -/
theorem Sound.spread {c : Sources} {late : TypeRef → Prop} {jobOf : String → Option Job} {stack : Stack} {s : State}
    (h : Sound c late jobOf stack s) (node : Node) (a : Artifact ArtifactKind) (ha : Assoc.get? s.store node = some a) :
    ∀ name ∈ spreadsOf c jobOf node, Backed s a.origin (fragmentNode name) :=
  fun _ hname => (h.made node a ha).backed _ (mem_fragmentsIn.1 hname) trivial

/-- A sound state in which something is being made in the current file. -/
structure Good (c : Sources) (late : TypeRef → Prop) (jobOf : String → Option Job) (stack : Stack) (s : State) :
    Prop where
  sound : Sound c late jobOf stack s
  tracked : s.tracker.Scoped

theorem Need.Backed.congr {s s' : State} {o : Origin} {n : Need} (h : n.Backed s o)
    (hstore : ∀ node a, Assoc.get? s.store node = some a → Assoc.get? s'.store node = some a)
    (henabled : s'.tracker.enabled = s.tracker.enabled) : n.Backed s' o := by
  cases n with
  | declared d | fragment name =>
    obtain ⟨a, ha, hc⟩ := h
    exact ⟨a, hstore _ a ha, henabled ▸ hc⟩
  | code type | operation j | arguments j => exact h.elim

theorem Backed.has {s : State} {o : Origin} {node : Node} (h : Backed s o node) : Assoc.has s.progress node := by
  obtain ⟨a, ha, -⟩ := h
  rw [has_progress, Assoc.has, ha]
  rfl

theorem Need.Backed.done {c : Sources} {late : TypeRef → Prop} {stack : Stack} {s : State} {o : Origin} {n : Need}
    (h : n.Backed s o) : n.Done c late stack s.progress := by
  cases n with
  | declared d => exact Or.inl (Or.inr (Compile.Backed.has h))
  | fragment name => exact Or.inl (Compile.Backed.has h)
  | code type | operation j | arguments j => exact h.elim

/-! ## Needs with nodes -/

section Nodes

variable {c : Sources} {stack : Stack} {n : Need} {node : Node}

theorem Need.settled_of_has {p : Progress} (hn : n.node? = some node) (h : Assoc.has p node) : n.Settled c stack p := by
  cases n with
  | declared d =>
    cases hn
    exact Or.inr h
  | code type => cases hn
  | fragment name | operation j | arguments j =>
    cases hn
    exact h

theorem Need.has_of_settled {p : Progress} (hn : n.node? = some node) (hd : ∀ m ∈ stack.inputs, n ≠ .declared (.input m))
    (h : n.Settled c stack p) : Assoc.has p node := by
  cases n with
  | declared d =>
    cases hn
    refine Or.resolve_left h ?_
    rintro ⟨m, hm, rfl⟩
    exact hd m hm rfl
  | code type => cases hn
  | fragment name | operation j | arguments j =>
    cases hn
    exact h

end Nodes

section Congruence

variable {c : Sources} {late : TypeRef → Prop} {jobOf : String → Option Job} {stack : Stack} {U : String → Prop}
  {s s' : State}

theorem Made.congr {node : Node} {a : Artifact ArtifactKind} (h : Made c jobOf s node a)
    (hstore : s'.store = s.store) (hp : s'.progress = s.progress) (hfields : s'.fieldsAt node = s.fieldsAt node)
    (henabled : s'.tracker.enabled = s.tracker.enabled) : Made c jobOf s' node a := by
  obtain ⟨⟨n, hn, hmet⟩, hbacked⟩ := h
  refine ⟨⟨n, hn, ?_⟩, fun n hn hsel => (hbacked n hn hsel).congr (hstore ▸ fun _ _ h => h) henabled⟩
  rw [Need.Meets, hp, hfields]
  exact hmet

/-- Only what is kept matters. -/
theorem Sound.congr (h : Sound c late jobOf stack s) (hstore : s'.store = s.store)
    (hmaps : s'.fieldMaps = s.fieldMaps) (hshapes : s'.shapes.entries = s.shapes.entries)
    (hinputs : s'.inputs.entries = s.inputs.entries) (henabled : s'.tracker.enabled = s.tracker.enabled) :
    Sound c late jobOf stack s' := by
  have hp : s'.progress = s.progress := by
    simp only [State.progress, State.fieldsAt, hstore, hmaps]
  constructor
  · exact h.named
  · obtain ⟨h₁, h₂, h₃, h₄⟩ := h.distinct
    exact ⟨hstore ▸ h₁, hmaps ▸ h₂, hshapes ▸ h₃, hinputs ▸ h₄⟩
  · rw [hstore, hmaps]
    exact h.fields
  · rw [hstore, hmaps]
    exact h.maps
  · intro node a ha
    exact (h.made node a (hstore ▸ ha)).congr hstore hp (by simp only [State.fieldsAt, hmaps]) henabled
  · rw [hstore]
    exact h.uses
  · intro typeName sels shape origin he t ht
    obtain ⟨hout, hneeds, huses⟩ := h.shapes typeName sels shape origin (hshapes ▸ he) t ht
    exact ⟨hout, fun n hn => (hneeds n hn).congr (hstore ▸ fun _ _ h => h) henabled, huses⟩
  · rw [hinputs, hp]
    exact h.inputs
  · exact h.late
  · rw [hstore]
    exact h.kinds
  · rw [hstore]
    exact h.unmade

/-- The states are the same but for counts, marks and messages. -/
structure State.Alike (s s' : State) : Prop where
  tracker : s'.tracker = s.tracker
  store : s'.store = s.store
  fieldMaps : s'.fieldMaps = s.fieldMaps
  shapes : s'.shapes = s.shapes
  inputs : s'.inputs = s.inputs

theorem State.Alike.symm (h : s.Alike s') : s'.Alike s :=
  ⟨h.tracker.symm, h.store.symm, h.fieldMaps.symm, h.shapes.symm, h.inputs.symm⟩

theorem State.Alike.fieldsAt (h : s.Alike s') (node : Node) : s'.fieldsAt node = s.fieldsAt node := by
  simp only [State.fieldsAt, h.fieldMaps]

theorem State.Alike.progress (h : s.Alike s') : s'.progress = s.progress := by
  simp only [State.progress, h.store, h.fieldsAt]

theorem Good.congr (h : Good c late jobOf stack s) (hs : s.Alike s') : Good c late jobOf stack s' :=
  ⟨h.sound.congr hs.store hs.fieldMaps (congrArg _ hs.shapes) (congrArg _ hs.inputs) (congrArg _ hs.tracker),
    hs.tracker ▸ h.tracked⟩

/-- Changes of the tracker keep a state good. -/
theorem Good.moves (h : Good c late jobOf stack s) {t : Tracker} (hm : s.tracker.Moves U t) :
    Good c late jobOf stack { s with tracker := t } :=
  ⟨h.sound.congr rfl rfl rfl rfl hm.enabled, hm.scoped h.tracked⟩

end Congruence

end ResponseTypes.Compile
