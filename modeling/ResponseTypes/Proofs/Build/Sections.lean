import ResponseTypes.Proofs.Build.Yields
import ResponseTypes.Proofs.Plan.Operating
import ResponseTypes.Workspace

/-!
# Building in sections

A build goes through all documents, first for their fragments and then for their operations.  `Passes` tells what runs it
makes, one per section; `passes_generateAll` that a build in a sound state makes them.
-/

namespace ResponseTypes

set_option autoImplicit false

open Compile
open Workspace (collectOperation)
open Dependency (fragmentsUsed)
open GraphQL (Document Operation TypeRef)

/-- What a build does for one document. -/
structure Section where
  file : String
  needs : List Need
  /-- why it fails after its needs were met -/
  failure : Option Failure

/-- The runs that a build makes, given the current file and what was made before. -/
inductive Passes (c : Sources) (late : TypeRef → Prop) :
    String → Progress → List Section → Except Failure (String × Progress) → Prop
  | nil {file : String} {p : Progress} : Passes c late file p [] (.ok (file, p))
  | broken {file : String} {p : Progress} {sec : Section} {rest : List Section} {e : Failure} :
      Run c late .empty (Tracker.fileAfter file (some sec.file)) p sec.needs (.error e) →
      Passes c late file p (sec :: rest) (.error e)
  | failed {file : String} {p p' : Progress} {sec : Section} {rest : List Section} {e : Failure} :
      Run c late .empty (Tracker.fileAfter file (some sec.file)) p sec.needs (.ok p') → sec.failure = some e →
      Passes c late file p (sec :: rest) (.error e)
  | passed {file : String} {p p' : Progress} {sec : Section} {rest : List Section}
      {o : Except Failure (String × Progress)} :
      Run c late .empty (Tracker.fileAfter file (some sec.file)) p sec.needs (.ok p') → sec.failure = none →
      Passes c late (Tracker.fileAfter file (some sec.file)) p' rest o →
      Passes c late file p (sec :: rest) o

/-- Without late types a build has one end at most. -/
theorem Passes.unique {c : Sources} {file : String} {p : Progress} {sections : List Section}
    {o o' : Except Failure (String × Progress)} (h : Passes c (fun _ => False) file p sections o)
    (h' : Passes c (fun _ => False) file p sections o') : o = o' := by
  induction h generalizing o' with
  | nil =>
    cases h'
    rfl
  | broken hr =>
    cases h' with
    | broken hr' =>
      cases hr.unique hr'
      rfl
    | failed hr' | passed hr' => cases hr.unique hr'
  | failed hr hf =>
    cases h' with
    | broken hr' => cases hr.unique hr'
    | failed hr' hf' =>
      cases hf.symm.trans hf'
      rfl
    | passed hr' hf' => cases hf.symm.trans hf'
  | passed hr hf _ ih =>
    cases h' with
    | broken hr' => cases hr.unique hr'
    | failed hr' hf' => cases hf.symm.trans hf'
    | passed hr' _ hp' =>
      cases hr.unique hr'
      exact ih hp'

/-- What the runs of the sections keep, a build keeps. -/
theorem Passes.preserves {c : Sources} {late : TypeRef → Prop} {file : String} {p : Progress} {sections : List Section}
    {r : String × Progress} {P : Progress → Prop} (h : Passes c late file p sections (.ok r)) (hp : P p)
    (hruns : ∀ sec ∈ sections, ∀ current p p',
      Run c late .empty (Tracker.fileAfter current (some sec.file)) p sec.needs (.ok p') → P p → P p') : P r.2 := by
  generalize ho : Except.ok r = o at h
  induction h with
  | nil =>
    cases ho
    exact hp
  | broken | failed => cases ho
  | passed hr _ _ ih =>
    obtain ⟨hsec, hrest⟩ := List.forall_mem_cons.1 hruns
    exact ih (hsec _ _ _ hr hp) hrest ho

/-! ## The sections of a build -/

/-- The operations of a document that are generated, and why those after them are not. -/
def jobsOf (c : Config) (file : String) : List Operation → List Job × Option Failure
  | [] => ([], none)
  | op :: rest =>
    match op.name with
    | none => jobsOf c file rest
    | some name =>
      match c.schema.root? op.kind with
      | none => ([], some (.rootTypeMissing name op.kind.name (some file)))
      | some root => (⟨op, name, root, file⟩ :: (jobsOf c file rest).1, (jobsOf c file rest).2)

section Operations

variable {file name : String} {op : Operation} {rest : List Operation}

theorem jobsOf_unnamed {c : Config} (hname : op.name = none) : jobsOf c file (op :: rest) = jobsOf c file rest := by
  simp only [jobsOf, hname]

theorem jobsOf_rootless {c : Config} (hname : op.name = some name) (hroot : c.schema.root? op.kind = none) :
    jobsOf c file (op :: rest) = ([], some (.rootTypeMissing name op.kind.name (some file))) := by
  simp only [jobsOf, hname, hroot]

theorem jobsOf_rooted {c : Config} {root : GraphQL.TypeDef} (hname : op.name = some name)
    (hroot : c.schema.root? op.kind = some root) :
    jobsOf c file (op :: rest) = (⟨op, name, root, file⟩ :: (jobsOf c file rest).1, (jobsOf c file rest).2) := by
  simp only [jobsOf, hname, hroot]

variable {c : Setup} {operations : Assoc String CollectedOperation}

theorem collectOperation_unnamed (hname : op.name = none) : collectOperation c file operations op =
    note .debug ("Skipping anonymous " ++ op.kind.name ++ " in " ++ file) >>= fun _ => pure operations := by
  simp only [collectOperation, generateOperation, hname, bind_assoc, pure_bind]

theorem collectOperation_rootless (hname : op.name = some name) (hroot : c.schema.root? op.kind = none) :
    collectOperation c file operations op = Action.fail (.rootTypeMissing name op.kind.name (some file)) := by
  simp only [collectOperation, generateOperation, hname, hroot]
  rfl

theorem collectOperation_rooted {root : GraphQL.TypeDef} (hname : op.name = some name)
    (hroot : c.schema.root? op.kind = some root) : collectOperation c file operations op =
      generateJob c ⟨op, name, root, file⟩ >>= fun collected =>
        pure (Assoc.insert operations collected.name collected) := by
  simp only [collectOperation, generateOperation, hname, hroot, bind_assoc, pure_bind]

end Operations

/-- What is needed for operations. -/
def needsOf (jobs : List Job) : List Need :=
  jobs.flatMap (fun j => [.operation j, .arguments j])

def fragmentSection (e : String × Document) : Section where
  file := e.1
  needs := e.2.fragments.map (fun f => .fragment f.name)
  failure := none

def operationSection (c : Config) (e : String × Document) : Section where
  file := e.1
  needs := needsOf (jobsOf c e.1 e.2.operations).1
  failure := (jobsOf c e.1 e.2.operations).2

/-- The sections of a build. -/
def sectionsOf (c : Config) (skipUnused : Bool) (documents : Assoc String Document) : List Section :=
  (if skipUnused then [] else documents.map fragmentSection) ++ documents.map (operationSection c)

/-- All operations of documents. -/
def allJobs (c : Config) (documents : Assoc String Document) : List Job :=
  documents.flatMap (fun e => (jobsOf c e.1 e.2.operations).1)

/-- `jobOf` tells the operations that are made first of their names. -/
def JobsFit (jobOf : String → Option Job) (made : String → Prop) : List Job → Prop
  | [] => True
  | j :: rest => (¬made j.name → jobOf j.name = some j) ∧ JobsFit jobOf (fun name => made name ∨ name = j.name) rest

theorem JobsFit.mono {jobOf : String → Option Job} {made made' : String → Prop} {jobs : List Job}
    (h : JobsFit jobOf made jobs) (hm : ∀ name, made name → made' name) : JobsFit jobOf made' jobs := by
  induction jobs generalizing made made' with
  | nil => trivial
  | cons j rest ih => exact ⟨fun hn => h.1 fun hj => hn (hm _ hj), ih h.2 fun name => Or.imp (hm name) id⟩

theorem jobsFit_append {jobOf : String → Option Job} {made : String → Prop} {jobs more : List Job} :
    JobsFit jobOf made (jobs ++ more) ↔
      JobsFit jobOf made jobs ∧ JobsFit jobOf (fun name => made name ∨ ∃ j ∈ jobs, j.name = name) more := by
  induction jobs generalizing made with
  | nil => simp [JobsFit]
  | cons j rest ih =>
    rw [List.cons_append, JobsFit, ih, JobsFit, and_assoc]
    have hsame : (fun name => (made name ∨ name = j.name) ∨ ∃ i ∈ rest, i.name = name) =
        fun name => made name ∨ ∃ i ∈ j :: rest, i.name = name := by
      funext name
      simp [or_assoc, eq_comm]
    rw [hsame]

/-- The first operation of a name. -/
def firstJob (jobs : List Job) (name : String) : Option Job :=
  jobs.find? (fun j => j.name == name)

theorem jobsFit_firstJob (jobs : List Job) : JobsFit (firstJob jobs) (fun _ => False) jobs := by
  have hall : ∀ before rest, jobs = before ++ rest →
      JobsFit (firstJob jobs) (fun name => ∃ j ∈ before, j.name = name) rest := by
    intro before rest h
    induction rest generalizing before with
    | nil => trivial
    | cons j rest ih =>
      refine ⟨fun hnew => ?_, (ih (before ++ [j]) (by simp [h])).mono fun name => ?_⟩
      · rw [firstJob, h, List.find?_append, List.find?_eq_none.2]
        · simp
        · intro i hi hname
          exact hnew ⟨i, hi, by simpa using hname⟩
      · rintro ⟨i, hi, rfl⟩
        rcases List.mem_append.1 hi with hi | hi
        · exact Or.inl ⟨i, hi, rfl⟩
        · exact Or.inr (by rw [List.mem_singleton.1 hi])
  exact (hall [] jobs rfl).mono (by simp)

/-! ## Carrying sections out -/

section Sections

variable {c : Setup} {late : TypeRef → Prop} {jobOf : String → Option Job} {jobs : Job → Prop}

/-- A sound state between sections. -/
structure Idle (c : Sources) (late : TypeRef → Prop) (jobOf : String → Option Job) (s : State) : Prop where
  sound : Sound c late jobOf .empty s
  closed : s.tracker.scopes = []

theorem Idle.opened {c : Sources} {s : State} (h : Idle c late jobOf s) (file : String) :
    Good c late jobOf .empty (opened (some file) s) := by
  obtain ⟨-, -, -, -, henabled, -⟩ := s.tracker.start_scopes (some file)
  exact ⟨h.sound.congr rfl rfl rfl rfl henabled, Tracker.scoped_start _ _⟩

theorem currentFile_opened (file : String) (s : State) :
    (opened (some file) s).tracker.currentFile = Tracker.fileAfter s.tracker.currentFile (some file) := by
  obtain ⟨-, -, -, hfile, -⟩ := s.tracker.start_scopes (some file)
  exact hfile

/-- The state after the last scope was closed. -/
def afterSection (s : State) : State :=
  { s with tracker := { s.tracker with scopes := [] } }

/-- The scope of a section is the only one. -/
theorem Idle.close {c : Sources} {s s₂ : State} {file : String} {U : String → Prop} (h : Idle c late jobOf s)
    (hg : Good c late jobOf .empty s₂) (hm : (Compile.opened (some file) s).tracker.Moves U s₂.tracker) :
    (discard Tracking.finish : Step Unit).runOn s₂ = (.ok (), afterSection s₂) ∧ Idle c late jobOf (afterSection s₂) := by
  refine ⟨?_, hg.sound.congr rfl rfl rfl rfl rfl, rfl⟩
  obtain ⟨scope, hscopes, -⟩ := s.tracker.start_scopes (some file)
  have hgrows := hm.noted.grows
  change List.Forall₂ _ (s.tracker.start (some file)).scopes _ at hgrows
  rw [hscopes, h.closed] at hgrows
  cases hs₂ : s₂.tracker.scopes with
  | nil =>
    rw [hs₂] at hgrows
    cases hgrows
  | cons top rest =>
    rw [hs₂] at hgrows
    cases hgrows with
    | cons _ hrest =>
      cases hrest
      have hfinish : s₂.tracker.finish = .ok (s₂.tracker.closingKeys top, { s₂.tracker with scopes := [] }) := by
        rw [Tracker.finish, hs₂]
      rw [runOn_discard, Compile.runOn_finish hfinish]
      rfl

/-- Opening and closing the scope of a section make nothing. -/
theorem yields_afterSection {s s₂ : State} {file : String} (h : Yields c jobOf jobs (opened (some file) s) s₂) :
    Yields c jobOf jobs s (afterSection s₂) := by
  obtain ⟨-, -, -, -, henabled, -⟩ := s.tracker.start_scopes (some file)
  exact h.congr rfl rfl henabled.symm rfl rfl rfl

theorem follows_forM {stack : Stack} {α : Type} {l : List α} {f : α → Step Unit} {need : α → Need}
    {U : α → String → Prop} (h : ∀ a ∈ l, Follows c late jobOf stack (f a) [need a] (fun _ => .ok ()) (U a)) :
    Follows c late jobOf stack (l.forM f) (l.map need) (fun _ => .ok ()) (fun name => ∃ a ∈ l, U a name) := by
  induction l with
  | nil => exact (follows_pure ()).mono fun name => by simp
  | cons a l ih =>
    refine ((h a List.mem_cons_self).bind (f := fun _ => l.forM f)
      (ih fun b hb => h b (List.mem_cons_of_mem a hb))).mono fun name => by simp

/-- The operations with the collected ones among them. -/
def collect (c : Config) (operations : Assoc String CollectedOperation) (entries : List (Job × List String)) :
    Assoc String CollectedOperation :=
  entries.foldl (fun m e => Assoc.insert m e.1.name (collected c e.1 e.2)) operations

/-- The keys of a collected operation tell the fragments that it uses and cover what its artifacts depend on. -/
structure Attributed (c : Sources) (jobOf : String → Option Job) (s : State) (file : String) (e : Job × List String) :
    Prop where
  used : ∀ f, f ∈ fragmentsUsed e.2 ↔ Reached c (spreadsOf c jobOf (operationNode e.1.name)) f
  response : Backed s ⟨file, e.2⟩ (operationNode e.1.name)
  arguments : Backed s ⟨file, e.2⟩ (variablesNode e.1.name)

/-- Both types of an operation were made. -/
def Generated (s : State) (name : String) : Prop :=
  Assoc.has s.store (operationNode name) ∧ Assoc.has s.store (variablesNode name)

theorem Generated.mono {s s' : State} {name : String} (hn : Generated s name) (h : Extends s s') : Generated s' name :=
  ⟨h.has hn.1, h.has hn.2⟩

theorem Attributed.generated {c : Sources} {s : State} {file : String} {e : Job × List String}
    (h : Attributed c jobOf s file e) : Generated s e.1.name :=
  ⟨has_progress s _ ▸ h.response.has, has_progress s _ ▸ h.arguments.has⟩

theorem Attributed.mono {c : Sources} {s s' : State} {file : String} {e : Job × List String}
    (h : Attributed c jobOf s file e) (hs : Extends s s') : Attributed c jobOf s' file e := by
  have hbacked : ∀ {node}, Backed s ⟨file, e.2⟩ node → Backed s' ⟨file, e.2⟩ node := by
    rintro node ⟨a, ha, hc⟩
    exact ⟨a, hs.store _ a ha, fun henabled => hc (hs.enabled ▸ henabled)⟩
  exact ⟨h.used, hbacked h.response, hbacked h.arguments⟩

theorem attributed_of_done {j : Job} {keys : List String} {s s' : State} (h : JobDone c late jobOf .empty j keys s s') :
    Attributed c.toSources jobOf s' s.tracker.currentFile (j, keys) :=
  ⟨h.used, h.response, h.arguments⟩

/-- What generating the operations of a document comes to. -/
def CollectsAt (c : Setup) (late : TypeRef → Prop) (jobOf : String → Option Job) (jobs : Job → Prop) (file : String) (ops : List Operation)
    (operations : Assoc String CollectedOperation) (s : State) : Prop :=
  let act := ops.foldlM (collectOperation c file) operations
  let found := jobsOf c.toConfig file ops
  let run := Run c.toSources late .empty s.tracker.currentFile s.progress (needsOf found.1)
  (∃ e, run (.error e) ∧ (act.runOn s).1 = .error e) ∨
  (∃ p e, run (.ok p) ∧ found.2 = some e ∧ (act.runOn s).1 = .error e) ∨
  ∃ s' entries, run (.ok s'.progress) ∧ found.2 = none ∧
    act.runOn s = (.ok (collect c.toConfig operations entries), s') ∧ entries.map Prod.fst = found.1 ∧
    (∀ e ∈ entries, Attributed c.toSources jobOf s' s.tracker.currentFile e) ∧
    Good c.toSources late jobOf .empty s' ∧ Yields c jobOf jobs s s' ∧ ∃ U, s.tracker.Moves U s'.tracker

namespace CollectsAt

variable {file name : String} {op : Operation} {ops : List Operation} {operations : Assoc String CollectedOperation}
  {s s₁ : State}

/-- An operation without a name is passed over. -/
theorem unnamed (hname : op.name = none)
    (h : ∀ journal, CollectsAt c late jobOf jobs file ops operations { s with journal }) :
    CollectsAt c late jobOf jobs file (op :: ops) operations s := by
  have hact : ∃ journal, ((op :: ops).foldlM (collectOperation c file) operations).runOn s =
      (ops.foldlM (collectOperation c file) operations).runOn { s with journal } := by
    rw [List.foldlM_cons, collectOperation_unnamed hname]
    exact ⟨_, rfl⟩
  obtain ⟨journal, hact⟩ := hact
  unfold CollectsAt
  rw [jobsOf_unnamed hname]
  dsimp only
  rw [hact]
  rcases h journal with h | h | ⟨s', entries, hr, hf, hrun, hentries, hall, hg, hext, hmoves⟩
  · exact Or.inl h
  · exact Or.inr (Or.inl h)
  · exact Or.inr (Or.inr ⟨s', entries, hr, hf, hrun, hentries, hall, hg, hext.congr rfl rfl rfl rfl rfl rfl, hmoves⟩)

/-- An operation without a root type fails. -/
theorem rootless (hname : op.name = some name) (hroot : c.schema.root? op.kind = none) :
    CollectsAt c late jobOf jobs file (op :: ops) operations s := by
  unfold CollectsAt
  rw [jobsOf_rootless hname hroot, List.foldlM_cons, collectOperation_rootless hname hroot]
  exact Or.inr (Or.inl ⟨s.progress, _, .nil, rfl, rfl⟩)

/-- An operation whose types were generated is collected before the others. -/
theorem rooted {root : GraphQL.TypeDef} {keys : List String} (hname : op.name = some name)
    (hroot : c.schema.root? op.kind = some root)
    (hr : Run c.toSources late .empty s.tracker.currentFile s.progress
      [.operation ⟨op, name, root, file⟩, .arguments ⟨op, name, root, file⟩] (.ok s₁.progress))
    (hrun : (generateJob c ⟨op, name, root, file⟩).runOn s = (.ok (collected c.toConfig ⟨op, name, root, file⟩ keys), s₁))
    (hdone : JobDone c late jobOf .empty ⟨op, name, root, file⟩ keys s s₁) (hyields : Yields c jobOf jobs s s₁)
    (h : CollectsAt c late jobOf jobs file ops
      (Assoc.insert operations name (collected c.toConfig ⟨op, name, root, file⟩ keys)) s₁) :
    CollectsAt c late jobOf jobs file (op :: ops) operations s := by
  have hneeds : needsOf ((⟨op, name, root, file⟩ : Job) :: (jobsOf c.toConfig file ops).1) =
      [.operation ⟨op, name, root, file⟩, .arguments ⟨op, name, root, file⟩] ++
        needsOf (jobsOf c.toConfig file ops).1 := rfl
  unfold CollectsAt at h ⊢
  rw [hdone.effect.moves.file] at h
  rw [jobsOf_rooted hname hroot]
  dsimp only
  rw [hneeds, List.foldlM_cons, collectOperation_rooted hname hroot, bind_assoc, runOn_bind, hrun]
  rcases h with ⟨e, hr', he⟩ | ⟨p, e, hr', hf, he⟩ | ⟨s', entries, hr', hf, hrun', hentries, hall, hg, hext, U, hmoves⟩
  · exact Or.inl ⟨e, hr.append hr', he⟩
  · exact Or.inr (Or.inl ⟨p, e, hr.append hr', hf, he⟩)
  · refine Or.inr (Or.inr ⟨s', (⟨op, name, root, file⟩, keys) :: entries, hr.append hr', hf, hrun', ?_, ?_, hg,
      hyields.trans hext, _, hdone.effect.moves.trans hmoves⟩)
    · rw [List.map_cons, hentries]
    · exact List.forall_mem_cons.2 ⟨(attributed_of_done hdone).mono hext.kept.toExtends, hall⟩

/-- An operation whose types are not generated fails. -/
theorem broken {root : GraphQL.TypeDef} {e : Failure} (hname : op.name = some name)
    (hroot : c.schema.root? op.kind = some root)
    (hr : Run c.toSources late .empty s.tracker.currentFile s.progress
      [.operation ⟨op, name, root, file⟩, .arguments ⟨op, name, root, file⟩] (.error e))
    (he : ((generateJob c ⟨op, name, root, file⟩).runOn s).1 = .error e) :
    CollectsAt c late jobOf jobs file (op :: ops) operations s := by
  obtain ⟨s', he⟩ := runOn_eq_of_fst he
  refine Or.inl ⟨e, ?_, ?_⟩
  · rw [jobsOf_rooted hname hroot]
    exact hr.append_error
  · rw [List.foldlM_cons, collectOperation_rooted hname hroot, bind_assoc, runOn_bind, he]

end CollectsAt

theorem collectsAt (hc : c.toSources.Named) (file : String) (ops : List Operation)
    (operations : Assoc String CollectedOperation) {s : State} (hs : Good c.toSources late jobOf .empty s)
    (hfile : file ≠ "" → s.tracker.currentFile = file) (hjobs : ∀ j ∈ (jobsOf c.toConfig file ops).1, jobs j)
    (hjob : JobsFit jobOf (Generated s) (jobsOf c.toConfig file ops).1) :
    CollectsAt c late jobOf jobs file ops operations s := by
  induction ops generalizing operations s with
  | nil =>
    exact Or.inr (Or.inr ⟨s, [], .nil, rfl, rfl, rfl, by simp, hs, .refl s, _, Tracker.Moves.refl _⟩)
  | cons op rest ih =>
    cases hname : op.name with
    | none =>
      rw [jobsOf_unnamed hname] at hjob hjobs
      exact .unnamed hname fun _ => ih operations ⟨hs.sound.congr rfl rfl rfl rfl rfl, hs.tracked⟩ hfile hjobs hjob
    | some name =>
      cases hroot : c.schema.root? op.kind with
      | none => exact .rootless hname hroot
      | some root =>
        rw [jobsOf_rooted hname hroot] at hjob hjobs
        rcases follows_generateJob hc (known_root hroot) rfl rfl hs
          (fun hnone => hjob.1 (by rcases hnone with hnone | hnone <;> simp [Generated, Assoc.has, hnone])) with
          ⟨e, hr, he⟩ | ⟨s₁, keys, hr, hrun, hdone⟩
        · exact .broken hname hroot hr he
        · have hyields : Yields c jobOf jobs s s₁ := .of_effect hdone.effect rfl fun n hn m hm => by
            rcases List.mem_pair.1 hn with rfl | rfl
            · exact hm.elim
            · exact ⟨_, hjobs _ List.mem_cons_self, hm, hfile⟩
          refine .rooted hname hroot hr hrun hdone hyields (ih _ hdone.good (hdone.effect.moves.file ▸ hfile)
            (fun j hj => hjobs j (List.mem_cons_of_mem _ hj)) (hjob.2.mono ?_))
          rintro other (hother | rfl)
          · exact hother.mono hyields.kept.toExtends
          · exact (attributed_of_done hdone).generated

/-! ## Whole builds -/

/-- What a step that carries sections out comes to. -/
def PassesAt {α : Type} (c : Setup) (late : TypeRef → Prop) (jobOf : String → Option Job) (jobs : Job → Prop)
    (sections : List Section) (act : Step α) (result : State → α → Prop) (s : State) : Prop :=
  (∃ e, Passes c.toSources late s.tracker.currentFile s.progress sections (.error e) ∧ (act.runOn s).1 = .error e) ∨
  ∃ a s', Passes c.toSources late s.tracker.currentFile s.progress sections
      (.ok (s'.tracker.currentFile, s'.progress)) ∧
    act.runOn s = (.ok a, s') ∧ Idle c.toSources late jobOf s' ∧ Yields c jobOf jobs s s' ∧ result s' a

theorem Passes.append {c : Sources} {file : String} {p : Progress} {sections more : List Section} {r : String × Progress}
    {o : Except Failure (String × Progress)} (h : Passes c late file p sections (.ok r))
    (h' : Passes c late r.1 r.2 more o) : Passes c late file p (sections ++ more) o := by
  generalize hr : Except.ok r = o' at h
  induction h with
  | nil =>
    cases hr
    exact h'
  | broken | failed => cases hr
  | passed hrun hf _ ih => exact .passed hrun hf (ih hr)

theorem Passes.append_error {c : Sources} {file : String} {p : Progress} {sections more : List Section} {e : Failure}
    (h : Passes c late file p sections (.error e)) : Passes c late file p (sections ++ more) (.error e) := by
  generalize hr : Except.error e = o at h
  induction h with
  | nil => cases hr
  | broken hrun =>
    cases hr
    exact .broken hrun
  | failed hrun hf =>
    cases hr
    exact .failed hrun hf
  | passed hrun hf _ ih => exact .passed hrun hf (ih hr)

/-- All fragments of documents are collected. -/
theorem known_collectFragments {documents : Assoc String Document} {e : String × Document} (he : e ∈ documents)
    {f : GraphQL.Fragment} (hf : f ∈ e.2.fragments) :
    ∃ g, Assoc.get? (Workspace.collectFragments documents) f.name = some g :=
  Assoc.get?_ofList (List.mem_flatMap.2 ⟨e, he, List.mem_map.2 ⟨f, hf, rfl⟩⟩ : (f.name, (⟨f, e.1⟩ : FragmentDef)) ∈ _)

/-- Collected fragments stand under their names, with the files that define them. -/
theorem mem_of_collectFragments {documents : Assoc String Document} {name : String} {g : FragmentDef}
    (h : Assoc.get? (Workspace.collectFragments documents) name = some g) :
    g.fragment.name = name ∧ ∃ d, (g.file, d) ∈ documents ∧ g.fragment ∈ d.fragments := by
  have hmem := Assoc.mem_of_mem_ofList (Assoc.mem_of_get? h)
  obtain ⟨e, he, hmem⟩ := List.mem_flatMap.1 hmem
  obtain ⟨f, hf, heq⟩ := List.mem_map.1 hmem
  cases heq
  exact ⟨rfl, e.2, he, hf⟩

theorem Workspace.named_setup (w : Workspace) :
    ({ w with fragments := Workspace.collectFragments w.documents } : Workspace).setup.toSources.Named :=
  fun _ _ h => (mem_of_collectFragments h).1

theorem passes_fragments (hc : c.toSources.Named) {documents : Assoc String Document}
    (hknown : ∀ e ∈ documents, ∀ f ∈ e.2.fragments, ∃ g, Assoc.get? c.fragments f.name = some g) {s : State}
    (hs : Idle c.toSources late jobOf s) :
    PassesAt c late jobOf jobs (documents.map fragmentSection) (Workspace.generateFragments c documents)
      (fun _ _ => True) s := by
  induction documents generalizing s with
  | nil => exact Or.inr ⟨(), s, .nil, rfl, hs, .refl s, trivial⟩
  | cons e rest ih =>
    have hfollows : Follows c late jobOf .empty (e.2.fragments.forM fun f => generator c f.name)
        (e.2.fragments.map fun f => .fragment f.name) (fun _ => .ok ()) _ :=
      follows_forM fun f hf => by
        obtain ⟨g, hg⟩ := hknown e List.mem_cons_self f hf
        exact follows_generateFragment hc [] hg rfl rfl
    have hact : (Workspace.generateFragments c (e :: rest)).runOn s =
        ((e.2.fragments.forM fun f => generator c f.name) >>= fun _ => discard Tracking.finish >>= fun _ =>
          Workspace.generateFragments c rest : Step Unit).runOn (opened (some e.1) s) := by
      have hcons : Workspace.generateFragments c (e :: rest) = (Tracking.start (some e.1) >>= fun _ =>
          (e.2.fragments.forM fun f => generator c f.name) >>= fun _ => discard Tracking.finish) >>= fun _ =>
            Workspace.generateFragments c rest := rfl
      rw [hcons, bind_assoc, runOn_bind, runOn_start, bind_assoc]
      rfl
    unfold PassesAt
    rw [hact]
    rcases hfollows _ (hs.opened e.1) with ⟨failure, hr, he⟩ | ⟨p, hr, s₂, hrun, rfl, hg, heff⟩
    · obtain ⟨s', he⟩ := runOn_eq_of_fst he
      rw [currentFile_opened] at hr
      exact Or.inl ⟨failure, .broken hr, by rw [runOn_bind, he]⟩
    · obtain ⟨hclose, hidle⟩ := hs.close hg heff.moves
      have hyields : Yields c jobOf jobs s (afterSection s₂) :=
        yields_afterSection (.of_effect heff rfl fun n hn m hm => by
          obtain ⟨f, -, rfl⟩ := List.mem_map.1 hn
          exact hm.elim)
      have hfile : (afterSection s₂).tracker.currentFile = Tracker.fileAfter s.tracker.currentFile (some e.1) :=
        heff.moves.file.trans (currentFile_opened e.1 s)
      have hnext := ih (fun e' he' => hknown e' (List.mem_cons_of_mem e he')) hidle
      rw [currentFile_opened] at hr
      rw [runOn_bind, hrun]
      dsimp only
      rw [runOn_bind, hclose]
      unfold PassesAt at hnext
      rw [hfile] at hnext
      rcases hnext with ⟨failure, hp, he⟩ | ⟨a, s', hp, hrun', hidle', hext, -⟩
      · exact Or.inl ⟨failure, .passed hr rfl hp, he⟩
      · exact Or.inr ⟨a, s', .passed hr rfl hp, hrun', hidle', hyields.trans hext, trivial⟩

/-- An operation that is generated is one of its document, and its root type is the schema's. -/
theorem of_mem_jobsOf {c : Config} {file : String} {ops : List Operation} {j : Job}
    (h : j ∈ (jobsOf c file ops).1) : j.file = file ∧ j.op ∈ ops ∧ c.schema.root? j.op.kind = some j.root := by
  induction ops with
  | nil => cases h
  | cons op rest ih =>
    have hlater : j ∈ (jobsOf c file rest).1 →
        j.file = file ∧ j.op ∈ op :: rest ∧ c.schema.root? j.op.kind = some j.root := fun h =>
      ⟨(ih h).1, List.mem_cons_of_mem _ (ih h).2.1, (ih h).2.2⟩
    rw [jobsOf] at h
    split at h
    · exact hlater h
    · split at h
      · cases h
      · rename_i root hroot
        rcases List.mem_cons.1 h with rfl | h
        · exact ⟨rfl, List.mem_cons_self, hroot⟩
        · exact hlater h

theorem file_of_mem_jobsOf {c : Config} {file : String} {ops : List Operation} {j : Job}
    (h : j ∈ (jobsOf c file ops).1) : j.file = file :=
  (of_mem_jobsOf h).1

/-- The collected operations of a build. -/
structure Collected (c : Sources) (jobOf : String → Option Job) (jobs : List Job)
    (before : Assoc String CollectedOperation) (s : State) (entries : List (Job × List String))
    (after : Assoc String CollectedOperation) : Prop where
  result : after = collect c.toConfig before entries
  jobs : entries.map Prod.fst = jobs
  attributed : ∀ e ∈ entries, ∃ file, (e.1.file ≠ "" → file = e.1.file) ∧ Attributed c jobOf s file e

theorem passes_operations (hc : c.toSources.Named) {documents : Assoc String Document}
    (operations : Assoc String CollectedOperation) {s : State} (hs : Idle c.toSources late jobOf s)
    (hjobs : ∀ j ∈ allJobs c.toConfig documents, jobs j)
    (hjob : JobsFit jobOf (Generated s) (allJobs c.toConfig documents)) :
    PassesAt c late jobOf jobs (documents.map (operationSection c.toConfig))
      (Workspace.generateOperations c documents operations)
      (fun s' after => ∃ entries,
        Collected c.toSources jobOf (allJobs c.toConfig documents) operations s' entries after) s := by
  induction documents generalizing s operations with
  | nil => exact Or.inr ⟨operations, s, .nil, rfl, hs, .refl s, [], rfl, rfl, by simp⟩
  | cons e rest ih =>
    have hact : (Workspace.generateOperations c (e :: rest) operations).runOn s =
        ((e.2.operations.foldlM (collectOperation c e.1) operations) >>= fun operations =>
          discard Tracking.finish >>= fun _ => Workspace.generateOperations c rest operations :
          Step (Assoc String CollectedOperation)).runOn (opened (some e.1) s) := by
      have hcons : Workspace.generateOperations c (e :: rest) operations = (Tracking.start (some e.1) >>= fun _ =>
          (e.2.operations.foldlM (collectOperation c e.1) operations) >>= fun operations =>
            discard Tracking.finish >>= fun _ => pure operations) >>= fun operations =>
            Workspace.generateOperations c rest operations := rfl
      rw [hcons, bind_assoc, runOn_bind, runOn_start]
      simp only [bind_assoc, pure_bind]
      rfl
    have hall : allJobs c.toConfig (e :: rest) =
        (jobsOf c.toConfig e.1 e.2.operations).1 ++ allJobs c.toConfig rest := rfl
    rw [hall, jobsFit_append] at hjob
    unfold PassesAt
    rw [hact]
    have hcurrent := currentFile_opened e.1 s
    have hin : e.1 ≠ "" → (opened (some e.1) s).tracker.currentFile = e.1 := by
      intro hne
      rw [hcurrent]
      exact Tracker.fileAfter_of_ne hne _
    rcases collectsAt hc e.1 e.2.operations operations (hs.opened e.1) hin
      (fun j hj => hjobs j (hall ▸ List.mem_append_left _ hj)) hjob.1 with
      ⟨failure, hr, he⟩ | ⟨p, failure, hr, hf, he⟩ | ⟨s₂, entries, hr, hf, hrun, hentries, hattributed₁, hg, hext, U, hmoves⟩
    · obtain ⟨s', he⟩ := runOn_eq_of_fst he
      rw [hcurrent] at hr
      exact Or.inl ⟨failure, .broken hr, by rw [runOn_bind, he]⟩
    · obtain ⟨s', he⟩ := runOn_eq_of_fst he
      rw [hcurrent] at hr
      exact Or.inl ⟨failure, .failed hr hf, by rw [runOn_bind, he]⟩
    · obtain ⟨hclose, hidle⟩ := hs.close hg hmoves
      have hyields : Yields c jobOf jobs s (afterSection s₂) := yields_afterSection hext
      have hfile : (afterSection s₂).tracker.currentFile = Tracker.fileAfter s.tracker.currentFile (some e.1) :=
        hmoves.file.trans hcurrent
      have hmade : ∀ name, (Generated s name ∨ ∃ j ∈ (jobsOf c.toConfig e.1 e.2.operations).1, j.name = name) →
          Generated (afterSection s₂) name := by
        rintro name (hname | ⟨j, hj, rfl⟩)
        · exact hname.mono hyields.kept.toExtends
        · rw [← hentries] at hj
          obtain ⟨entry, hentry, rfl⟩ := List.mem_map.1 hj
          exact (hattributed₁ entry hentry).generated
      have hnext := ih (collect c.toConfig operations entries) hidle
        (fun j hj => hjobs j (hall ▸ List.mem_append_right _ hj)) (hjob.2.mono hmade)
      rw [hcurrent] at hr hattributed₁
      rw [runOn_bind, hrun]
      dsimp only
      rw [runOn_bind, hclose]
      unfold PassesAt at hnext
      rw [hfile] at hnext
      rcases hnext with ⟨failure, hp, he⟩ | ⟨after, s', hp, hrun', hidle', hext', more, hafter, hmore, hattributed⟩
      · exact Or.inl ⟨failure, .passed hr hf hp, he⟩
      · refine Or.inr ⟨after, s', .passed hr hf hp, hrun', hidle', hyields.trans hext', entries ++ more, ?_, ?_, ?_⟩
        · rw [hafter, collect, collect, collect, List.foldl_append]
        · rw [List.map_append, hentries, hmore, hall]
        · intro entry hentry
          rcases List.mem_append.1 hentry with hentry | hentry
          · refine ⟨_, fun hne => ?_, (hattributed₁ entry hentry).mono ⟨hext'.kept.enabled, hext'.kept.store⟩⟩
            have hmem : entry.1 ∈ (jobsOf c.toConfig e.1 e.2.operations).1 := hentries ▸ List.mem_map_of_mem hentry
            rw [file_of_mem_jobsOf hmem] at hne ⊢
            exact Tracker.fileAfter_of_ne hne _
          · exact hattributed entry hentry

/-- A build in a sound state makes the runs of its sections. -/
theorem passes_generateAll (hc : c.toSources.Named) {documents : Assoc String Document} (skipUnused : Bool)
    (hknown : ∀ e ∈ documents, ∀ f ∈ e.2.fragments, ∃ g, Assoc.get? c.fragments f.name = some g)
    (operations : Assoc String CollectedOperation) {s : State} (hs : Idle c.toSources late jobOf s)
    (hjobs : ∀ j ∈ allJobs c.toConfig documents, jobs j)
    (hjob : JobsFit jobOf (Generated s) (allJobs c.toConfig documents)) :
    PassesAt c late jobOf jobs (sectionsOf c.toConfig skipUnused documents)
      (Workspace.generateAll c skipUnused documents operations)
      (fun s' after => ∃ entries,
        Collected c.toSources jobOf (allJobs c.toConfig documents) operations s' entries after) s := by
  have hlast : ∀ s' : State, Idle c.toSources late jobOf s' → ∀ after : Assoc String CollectedOperation,
      (Tracks.tracker.read >>= fun tracker =>
        if tracker.hasOpenScope then Action.fail (.scopesLeftOpen (some tracker.currentFile))
        else pure after : Step (Assoc String CollectedOperation)).runOn s' = (.ok after, s') := by
    intro s' hs' after
    have hopen : (Tracks.tracker.get s').hasOpenScope = false := by
      change (!s'.tracker.scopes.isEmpty) = false
      rw [hs'.closed]
      rfl
    rw [runOn_bind, runOn_read]
    dsimp only
    rw [hopen]
    rfl
  have hoperations : ∀ s₁, Idle c.toSources late jobOf s₁ → Yields c jobOf jobs s s₁ →
      PassesAt c late jobOf jobs (documents.map (operationSection c.toConfig))
        (Workspace.generateOperations c documents operations >>= fun after => Tracks.tracker.read >>= fun tracker =>
          if tracker.hasOpenScope then Action.fail (.scopesLeftOpen (some tracker.currentFile)) else pure after)
        (fun s' after => ∃ entries,
          Collected c.toSources jobOf (allJobs c.toConfig documents) operations s' entries after) s₁ := by
    intro s₁ hs₁ hext
    have hfit : JobsFit jobOf (Generated s₁) (allJobs c.toConfig documents) :=
      hjob.mono fun _ hname => hname.mono hext.kept.toExtends
    rcases passes_operations hc operations hs₁ hjobs hfit with ⟨failure, hp, he⟩ | ⟨after, s', hp, hrun, hidle, hext', hall⟩
    · obtain ⟨s', he⟩ := runOn_eq_of_fst he
      exact Or.inl ⟨failure, hp, by rw [runOn_bind, he]⟩
    · exact Or.inr ⟨after, s', hp, by rw [runOn_bind, hrun]; exact hlast s' hidle after, hidle, hext', hall⟩
  unfold Workspace.generateAll sectionsOf
  cases skipUnused with
  | true => exact hoperations s hs (.refl s)
  | false =>
    rcases passes_fragments hc hknown hs with ⟨failure, hp, he⟩ | ⟨⟨⟩, s₁, hp, hrun, hidle, hext, -⟩
    · obtain ⟨s', he⟩ := runOn_eq_of_fst he
      refine Or.inl ⟨failure, hp.append_error, ?_⟩
      simp only [Bool.not_false, if_true]
      rw [runOn_bind, he]
    · have hnext := hoperations s₁ hidle hext
      unfold PassesAt
      simp only [Bool.not_false, if_true, Bool.false_eq_true, if_false]
      rw [runOn_bind, hrun]
      rcases hnext with ⟨failure, hp', he⟩ | ⟨after, s', hp', hrun', hidle', hext', hall⟩
      · exact Or.inl ⟨failure, hp.append hp', he⟩
      · exact Or.inr ⟨after, s', hp.append hp', hrun', hidle', hext.trans hext', hall⟩

end Sections

end ResponseTypes
