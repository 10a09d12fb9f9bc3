import ResponseTypes.Proofs.Build.Yields

/-!
# References that can be relied on

What a purge leaves may refer to an input type that it discards, when the two were made in a circle.  Such a reference is
`Linked` : it leads back to the variables of an operation in whose file it stands, and so do all references on the way, so
that the input type is made again together with the operation.  What is linked stays so in a build (`Linked.grow`) and in
a purge (`Linked.purge`), and comes to what was made when all operations were made (`Linked.made`).
-/

namespace ResponseTypes.Compile

set_option autoImplicit false

open GraphQL (TypeRef)

/-- A result of an origin refers to what was made, or to what operations bring along in its file. -/
inductive Linked (c : Setup) (jobs : Job → Prop) (s : State) : Origin → TypeRef → Prop
  | strong {o : Origin} {type : TypeRef} : Strong c.toSources s o type → Linked c jobs s o type
  | stems {o : Origin} {type : TypeRef} {m : String} {j : Job} {path : List (Need × TypeRef)} :
      Names c.toSources type m → jobs j → (s.tracker.enabled → o.dependsOn j.file) →
      Chain c.toSources (.arguments j) path m →
      (∀ step ∈ path, ∀ node a, step.1.node? = some node → Assoc.get? s.store node = some a →
        Linked c jobs s a.origin step.2) →
      (∀ step ∈ path, c.cached → ∀ text o', Assoc.get? s.inputs.entries step.2 = some (text, o') →
        Linked c jobs s o' step.2) →
      Linked c jobs s o type

/-- All references of what was made and kept can be relied on. -/
structure Rooted (c : Setup) (jobOf : String → Option Job) (jobs : Job → Prop) (s : State) : Prop where
  made : ∀ node a, Assoc.get? s.store node = some a → ∀ type, .code type ∈ needsAt c.toSources jobOf node →
    Linked c jobs s a.origin type
  kept : c.cached → ∀ type text o, Assoc.get? s.inputs.entries type = some (text, o) → Linked c jobs s o type

/-- `jobOf` tells these operations, and they come from files. -/
structure Told (jobOf : String → Option Job) (j : Job) : Prop where
  known : jobOf j.name = some j
  file : j.file ≠ ""

section Linked

variable {c : Setup} {jobOf : String → Option Job} {jobs : Job → Prop} {s s' : State} {o o' : Origin} {type : TypeRef}
  {n : Need} {m : String} {path : List (Need × TypeRef)}

/-- The steps of a chain are type expressions of what it starts from and of input types. -/
theorem Chain.steps {c : Sources} (h : Chain c n path m) :
    ∀ step ∈ path, .code step.2 ∈ step.1.needs c ∧ (step.1 = n ∨ ∃ k, step.1 = .declared (.input k)) := by
  induction h with
  | last ht => exact fun step hstep => List.mem_singleton.1 hstep ▸ ⟨ht, Or.inl rfl⟩
  | step ht _ _ ih =>
    intro step hstep
    rcases List.mem_cons.1 hstep with rfl | hstep
    · exact ⟨ht, Or.inl rfl⟩
    · obtain ⟨hcode, hk | hk⟩ := ih step hstep
      · exact ⟨hcode, Or.inr ⟨_, hk⟩⟩
      · exact ⟨hcode, Or.inr hk⟩

/-- The steps of a chain from variables are made as the nodes that they stand for. -/
theorem Chain.code_mem {j : Job} {node : Node} {step : Need × TypeRef} (h : Chain c.toSources (.arguments j) path m)
    (hj : Told jobOf j) (hstep : step ∈ path) (hnode : step.1.node? = some node) :
    .code step.2 ∈ needsAt c.toSources jobOf node := by
  obtain ⟨hcode, hn⟩ := h.steps step hstep
  have hneed : needOf jobOf node = some step.1 := by
    rcases hn with hn | ⟨k, hn⟩ <;> rw [hn] at hnode ⊢ <;> cases hnode
    · exact congrArg (Option.map Need.arguments) hj.known
    · exact needOf_declared jobOf (.input k)
  exact needsAt_eq hneed ▸ hcode

theorem Linked.of_covers (h : Linked c jobs s o' type) (hfile : ∀ j, jobs j → j.file ≠ "")
    (hc : s.tracker.enabled → Covers o o') : Linked c jobs s o type := by
  cases h with
  | strong h => exact .strong (h.of_covers hc)
  | stems hm hj hdep hchain hmade hkept =>
    exact .stems hm hj (fun henabled => hc henabled _ (hfile _ hj) (hdep henabled)) hchain hmade hkept

/-- Only what was made and kept matters, and whether dependencies are tracked; more operations change nothing. -/
theorem Linked.congr {jobs' : Job → Prop} (h : Linked c jobs s o type) (hstore : s'.store = s.store)
    (hinputs : s'.inputs.entries = s.inputs.entries) (henabled : s'.tracker.enabled = s.tracker.enabled)
    (hjobs : ∀ j, jobs j → jobs' j) : Linked c jobs' s' o type := by
  induction h with
  | strong h => exact .strong (h.mono ⟨henabled, hstore ▸ fun _ _ h => h⟩)
  | stems hm hj hdep hchain _ _ hmade hkept =>
    exact .stems hm (hjobs _ hj) (henabled ▸ hdep) hchain (hstore ▸ hmade) (hinputs ▸ hkept)

theorem Rooted.congr {jobs' : Job → Prop} (h : Rooted c jobOf jobs s) (hstore : s'.store = s.store)
    (hinputs : s'.inputs.entries = s.inputs.entries) (henabled : s'.tracker.enabled = s.tracker.enabled)
    (hjobs : ∀ j, jobs j → jobs' j) : Rooted c jobOf jobs' s' where
  made node a ha type ht := (h.made node a (hstore ▸ ha) type ht).congr hstore hinputs henabled hjobs
  kept hcached type text o ho := (h.kept hcached type text o (hinputs ▸ ho)).congr hstore hinputs henabled hjobs

/-- Where strong references lead, others lead that can be relied on. -/
theorem Linked.of_stems (hnames : Names c.toSources type m) (hfile : ∀ j, jobs j → j.file ≠ "")
    (henabled : s'.tracker.enabled = s.tracker.enabled) (h : Stems c jobs s s' o m) : Linked c jobs s' o type := by
  obtain ⟨-, j, hj, ⟨path, hchain, hsteps⟩, hdep⟩ := h
  refine .stems hnames hj (fun h => hdep (henabled ▸ h) (hfile j hj)) hchain (fun step hstep node a hnode ha => ?_)
    fun step hstep hcached text o' ho' => .strong ((hsteps step hstep).tight.kept hcached text o' ho')
  obtain ⟨node', a', hnode', ha', hstrong⟩ := (hsteps step hstep).strong
  cases hnode.symm.trans hnode'
  cases ha.symm.trans ha'
  exact .strong hstrong

/-- A reference that was made meanwhile can be relied on if the type expressions can that were kept before. -/
theorem Link.linked (h : Link c (Stems c jobs s s') s s' o type) (hfile : ∀ j, jobs j → j.file ≠ "")
    (henabled : s'.tracker.enabled = s.tracker.enabled)
    (hkept : c.cached → ∀ text o', Assoc.get? s.inputs.entries type = some (text, o') → Linked c jobs s' o' type) :
    Linked c jobs s' o type := by
  rcases h with h | ⟨m, hm, h⟩ | ⟨hcached, text, o', ho', hc⟩
  · exact .strong h
  · exact .of_stems hm hfile henabled h
  · exact (hkept hcached text o' ho').of_covers hfile hc

/-- References that can be relied on stay so in a build. -/
theorem Linked.grow (h : Linked c jobs s o type) (hjobs : ∀ j, jobs j → Told jobOf j) (hs : Preserves s s')
    (hlinks : Links c jobOf (Stems c jobs s s') s s') : Linked c jobs s' o type := by
  have hfile : ∀ j, jobs j → j.file ≠ "" := fun j hj => (hjobs j hj).file
  induction h with
  | strong h => exact .strong (h.mono hs.toExtends)
  | stems hm hj hdep hchain _ _ hmade hkept =>
    -- What the step stands on was kept before, or was made meanwhile.
    refine .stems hm hj (hs.enabled ▸ hdep) hchain (fun step hstep node a hnode ha => ?_)
      fun step hstep hcached text o' ho' => ?_
    · cases hbefore : Assoc.get? s.store node with
      | some a' =>
        cases ha.symm.trans (hs.store _ a' hbefore)
        exact hmade step hstep node _ hnode hbefore
      | none =>
        exact (hlinks.made node a hbefore ha _ (hchain.code_mem (hjobs _ hj) hstep hnode)).linked hfile hs.enabled
          (hkept step hstep)
    · exact (hlinks.entry hcached ho' hs).linked hfile hs.enabled (hkept step hstep)

theorem Rooted.grow (h : Rooted c jobOf jobs s) (hjobs : ∀ j, jobs j → Told jobOf j) (hout : c.schema.OutputTyped)
    (hy : Yields c jobOf jobs s s') : Rooted c jobOf jobs s' := by
  have hfile : ∀ j, jobs j → j.file ≠ "" := fun j hj => (hjobs j hj).file
  have hlinks := hy.links hout
  have hold : ∀ {type}, c.cached → ∀ text o, Assoc.get? s.inputs.entries type = some (text, o) →
      Linked c jobs s' o type :=
    fun hcached text o ho => (h.kept hcached _ text o ho).grow hjobs hy.kept hlinks
  refine ⟨fun node a ha type ht => ?_, fun hcached type text o ho => ?_⟩
  · cases hbefore : Assoc.get? s.store node with
    | some a' =>
      cases ha.symm.trans (hy.kept.store _ a' hbefore)
      exact (h.made node _ hbefore type ht).grow hjobs hy.kept hlinks
    | none => exact (hlinks.made node a hbefore ha type ht).linked hfile hy.kept.enabled hold
  · exact (hlinks.entry hcached ho hy.kept).linked hfile hy.kept.enabled hold

/-- When the variables of all operations were made, all was made that is referred to. -/
theorem Linked.made (h : Linked c jobs s o type)
    (hall : ∀ j, jobs j → Assoc.has s.store (variablesNode j.name)) :
    ∀ d, .declared d ∈ (Need.code type).needs c.toSources → Assoc.has s.store d.node := by
  induction h with
  | strong h =>
    intro d hd
    obtain ⟨a, ha, -⟩ := h d hd
    rw [Assoc.has, ha]
    rfl
  | stems hm hj _ hchain _ _ hmade _ =>
    -- Along the chain each input type was made, because what refers to it was.
    have hend : ∀ {n node path m}, Chain c.toSources n path m → n.node? = some node → Assoc.has s.store node →
        (∀ step ∈ path, ∀ node a, step.1.node? = some node → Assoc.get? s.store node = some a →
          ∀ d, .declared d ∈ (Need.code step.2).needs c.toSources → Assoc.has s.store d.node) →
        Assoc.has s.store (Declared.input m).node := by
      intro n node path m hchain
      induction hchain generalizing node with
      | last _ hnames =>
        intro hn hhas hsteps
        obtain ⟨a, ha⟩ := Option.isSome_iff_exists.1 hhas
        exact hsteps _ List.mem_cons_self node a hn ha _ hnames
      | step _ hnames _ ih =>
        intro hn hhas hsteps
        obtain ⟨a, ha⟩ := Option.isSome_iff_exists.1 hhas
        exact ih rfl (hsteps _ List.mem_cons_self node a hn ha _ hnames) fun step hstep =>
          hsteps step (List.mem_cons_of_mem _ hstep)
    intro d hd
    rw [declared_unique hm hd]
    exact hend hchain rfl (hall _ hj) hmade

end Linked

end ResponseTypes.Compile
