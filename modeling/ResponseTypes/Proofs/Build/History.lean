import ResponseTypes.Proofs.Build.Keeping
import ResponseTypes.Proofs.Plan.Steady

/-!
# Histories

`Workspace.Reachable` : what a workspace can become by the calls that there are.  All of them leave it `Consistent` : what
it keeps is right, and comes from documents that it still has.
-/

namespace ResponseTypes

set_option autoImplicit false

open Compile
open GraphQL (Document)

namespace Workspace

/-! ## What calls change -/

/-- What a purge changes. -/
theorem purge_eq (w : Workspace) (file : String) :
    ∃ journal, w.purge file = { w with
      operations := if w.options.trackDependencies then w.operations.filter (fun e => !e.2.origin.dependsOn file) else []
      state := { (if w.options.trackDependencies then w.state.without file else w.state.reset) with journal } } := by
  unfold purge
  cases w.options.trackDependencies with
  | false => exact ⟨_, rfl⟩
  | true =>
    simp only [Bool.not_true, Bool.false_eq_true, if_false, if_true]
    split <;> exact ⟨_, rfl⟩

/-- What stands under other keys stays when a key gets a value. -/
theorem mem_insert_of_ne {κ α : Type} [DecidableEq κ] {m : Assoc κ α} {k : κ} {a : α} {e : κ × α} (he : e ∈ m)
    (hne : e.1 ≠ k) : e ∈ Assoc.insert m k a := by
  induction m with
  | nil => cases he
  | cons e' m ih =>
    rw [Assoc.insert]
    split
    · rename_i hk
      rcases List.mem_cons.1 he with rfl | he
      · exact absurd hk hne
      · exact List.mem_cons_of_mem _ he
    · rcases List.mem_cons.1 he with rfl | he
      · exact List.mem_cons_self
      · exact List.mem_cons_of_mem _ (ih he)

/-! ## Consistent workspaces -/

/-- What a workspace keeps is right, and comes from its documents. -/
structure Consistent (w : Workspace) : Prop where
  typed : w.schema.OutputTyped
  filed : ∀ e ∈ w.documents, e.1 ≠ ""
  tracking : w.state.tracker.enabled = w.options.trackDependencies
  kept : ∃ jobOf, Keeping w.setup w.documents jobOf w.state

namespace Consistent

variable {w : Workspace} {file : String}

theorem named (h : w.Consistent) : w.setup.toSources.Named := by
  obtain ⟨_, hkept⟩ := h.kept
  exact hkept.idle.sound.named

/-- A workspace in which nothing is kept is consistent. -/
theorem of_nothing (hs : w.schema.OutputTyped) (hfiled : ∀ e ∈ w.documents, e.1 ≠ "")
    (hnamed : w.setup.toSources.Named)
    (hstate : ∃ journal, w.state = { State.initial w.options.trackDependencies with journal }) : w.Consistent := by
  refine ⟨hs, hfiled, ?_, fun _ => none, keeping_initial hnamed ?_⟩
  all_goals
    obtain ⟨journal, hstate⟩ := hstate
    rw [hstate]
  · rfl
  · exact ⟨_, rfl⟩

theorem new {schema : Schema} (h : schema.OutputTyped) (options : Options) :
    (Workspace.new schema options).Consistent :=
  of_nothing h (fun _ he => absurd he List.not_mem_nil) (fun _ _ h => nomatch h) ⟨_, rfl⟩

theorem reset_state (h : w.Consistent) :
    ∃ journal, w.state.reset = { State.initial w.options.trackDependencies with journal } :=
  ⟨w.state.journal, by rw [State.reset, h.tracking]⟩

theorem add (h : w.Consistent) (documents : List (String × Document)) (hfiled : ∀ e ∈ documents, e.1 ≠ "") :
    (w.add documents).2.Consistent := by
  induction documents generalizing w with
  | nil => exact h
  | cons e rest ih =>
    obtain ⟨file, d⟩ := e
    rw [Workspace.add]
    split
    · exact h
    · rename_i hnew
      obtain ⟨hfile, hrest⟩ := List.forall_mem_cons.1 hfiled
      refine ih ⟨h.typed, fun e he => ?_, h.tracking, ?_⟩ hrest
      · rcases Assoc.mem_insert he with rfl | he
        · exact hfile
        · exact h.filed e he
      · obtain ⟨jobOf, hkept⟩ := h.kept
        refine ⟨jobOf, hkept.more fun e he => ?_⟩
        have hget : Assoc.get? w.documents file = none := by simpa [Assoc.has] using hnew
        rw [insert_eq_append hget]
        exact List.mem_append_left _ he

/-- Discarding what depends on a file leaves a workspace consistent when only its document changes. -/
theorem purging (h : w.Consistent) (hne : file ≠ "") {documents : Assoc String Document}
    (hdocuments : ∀ e ∈ w.documents, e.1 ≠ file → e ∈ documents) (hfiled : ∀ e ∈ documents, e.1 ≠ "")
    (operations : Assoc String CollectedOperation) (journal : List Message) :
    ({ w with
      documents
      operations
      state := { (if w.options.trackDependencies then w.state.without file else w.state.reset) with
        journal } } : Workspace).Consistent := by
  cases htracking : w.options.trackDependencies with
  | false => exact of_nothing h.typed hfiled h.named ⟨journal, by simp [State.reset, h.tracking, htracking]⟩
  | true =>
    simp only [if_true]
    refine ⟨h.typed, hfiled, h.tracking, ?_⟩
    obtain ⟨jobOf, hkept⟩ := h.kept
    have hpurged := hkept.purge (hkept.idle.sound.distinct.purged file) hne (h.tracking.trans htracking) hdocuments
    exact ⟨jobOf, hpurged.congr rfl rfl rfl rfl rfl⟩

theorem update (h : w.Consistent) (documents : List (String × Document)) (hfiled : ∀ e ∈ documents, e.1 ≠ "") :
    (w.update documents).2.Consistent := by
  induction documents generalizing w with
  | nil => exact h
  | cons e rest ih =>
    obtain ⟨file, d⟩ := e
    rw [Workspace.update]
    split
    · obtain ⟨hfile, hrest⟩ := List.forall_mem_cons.1 hfiled
      obtain ⟨journal, hpurge⟩ := w.purge_eq file
      refine ih ?_ hrest
      rw [hpurge]
      refine h.purging hfile (fun e he hne => mem_insert_of_ne he hne) (fun e he => ?_) _ journal
      · rcases Assoc.mem_insert he with rfl | he
        · exact hfile
        · exact h.filed e he
    · exact h

theorem remove (h : w.Consistent) (hne : file ≠ "") : (w.remove file).Consistent := by
  obtain ⟨journal, hpurge⟩ := ({ w with documents := Assoc.erase w.documents file } : Workspace).purge_eq file
  rw [Workspace.remove, hpurge]
  refine h.purging hne (fun e he hne => List.mem_filter.2 ⟨he, by simp [hne]⟩) (fun e he => ?_) _ journal
  exact h.filed e (List.mem_filter.1 he).1

theorem updateSchema (h : w.Consistent) {schema : Schema} (hs : schema.OutputTyped) :
    (w.updateSchema schema).Consistent :=
  of_nothing hs h.filed (fun name f hf => h.named name f hf) h.reset_state

theorem resetCaches (h : w.Consistent) : w.resetCaches.Consistent :=
  of_nothing h.typed h.filed h.named h.reset_state

theorem reset (h : w.Consistent) : w.reset.Consistent :=
  of_nothing h.typed (fun _ he => absurd he List.not_mem_nil) h.named h.reset_state

/-- What a build keeps in a consistent workspace, unless it fails. -/
theorem builds (h : w.Consistent) (hu : UniqueNames w.documents) :
    (∃ e, (w.buildStep.runOn w.state).1 = .error e) ∨
    ∃ after s, w.buildStep.runOn w.state = (.ok after, s) ∧
      Keeping w.collecting.setup w.documents (firstJob (allJobs w.setup.toConfig w.documents)) s ∧
      s.tracker.enabled = w.options.trackDependencies ∧
      ∀ j ∈ allJobs w.setup.toConfig w.documents, Generated s j.name := by
  obtain ⟨jobOf, hkept⟩ := h.kept
  rcases (hkept.collecting hu).build rfl hu h.filed h.typed w.options.skipUnusedFragments w.operations with
    he | ⟨after, s, hrun, hkept', henabled, hall⟩
  · exact Or.inl he
  · exact Or.inr ⟨after, s, hrun, hkept', henabled.trans h.tracking, hall⟩

theorem build (h : w.Consistent) (hu : UniqueNames w.documents) : w.build.2.Consistent := by
  rcases h.builds hu with ⟨e, he⟩ | ⟨after, s, hrun, hkept, henabled, -⟩
  · obtain ⟨s, hrun⟩ := runOn_eq_of_fst he
    have hsteady := steady_generateAll w.options.skipUnusedFragments w.documents w.operations (c := w.collecting.setup) w.state
    change (w.buildStep.runOn w.state).2.tracker.enabled = _ at hsteady
    rw [hrun] at hsteady
    rw [build_eq, hrun]
    refine of_nothing h.typed h.filed (named_setup w) ⟨s.journal, ?_⟩
    change { State.initial s.tracker.enabled with journal := s.journal } = _
    rw [hsteady, h.tracking]
    rfl
  · rw [build_eq, hrun]
    dsimp only
    split
    · exact ⟨h.typed, h.filed, henabled, _, hkept.congr rfl rfl rfl rfl rfl⟩
    · exact ⟨h.typed, h.filed, henabled, _, hkept⟩

end Consistent

/-! ## Reachable workspaces -/

/-- What a workspace can become.  Documents come from files with names; schemas have output types in the places of such; when
there is a build, no two fragments have one name, and no two operations. -/
inductive Reachable : Workspace → Prop
  | new {schema : Schema} (options : Options) : schema.OutputTyped → Reachable (Workspace.new schema options)
  | add {w : Workspace} {documents : List (String × Document)} :
      Reachable w → (∀ e ∈ documents, e.1 ≠ "") → Reachable (w.add documents).2
  | update {w : Workspace} {documents : List (String × Document)} :
      Reachable w → (∀ e ∈ documents, e.1 ≠ "") → Reachable (w.update documents).2
  | remove {w : Workspace} {file : String} : Reachable w → file ≠ "" → Reachable (w.remove file)
  | updateSchema {w : Workspace} {schema : Schema} : Reachable w → schema.OutputTyped → Reachable (w.updateSchema schema)
  | resetCaches {w : Workspace} : Reachable w → Reachable w.resetCaches
  | reset {w : Workspace} : Reachable w → Reachable w.reset
  | build {w : Workspace} : Reachable w → UniqueNames w.documents → Reachable w.build.2

/-- What calls lead to is consistent. -/
theorem Reachable.consistent {w : Workspace} (h : w.Reachable) : w.Consistent := by
  induction h with
  | new options hs => exact .new hs options
  | add _ hfiled ih => exact ih.add _ hfiled
  | update _ hfiled ih => exact ih.update _ hfiled
  | remove _ hne ih => exact ih.remove hne
  | updateSchema _ hs ih => exact ih.updateSchema hs
  | resetCaches _ ih => exact ih.resetCaches
  | reset _ ih => exact ih.reset
  | build _ hu ih => exact ih.build hu

/-! ## A forum -/

open GraphQL (Fragment Operation Selection TypeDef)

/-- Users of a forum have friends and roles. -/
def forumUser : TypeDef :=
  ⟨"User", .object [] [⟨"id", .nonNull (.named "ID"), [], none⟩, ⟨"name", .named "String", [], none⟩,
    ⟨"role", .nonNull (.named "Role"), [], none⟩, ⟨"friend", .named "User", [], none⟩], none⟩

/-- Users look for others by their roles. -/
def forumSchema : Schema where
  types := [("Query", ⟨"Query", .object [] [⟨"me", .named "User", [⟨"filter", .named "Filter", none⟩], none⟩], none⟩),
    ("User", forumUser),
    ("Role", ⟨"Role", .enum [⟨"READER", none⟩, ⟨"WRITER", none⟩], none⟩),
    ("Filter", ⟨"Filter", .input [⟨"role", .named "Role", none⟩, ⟨"not", .named "Filter", none⟩], none⟩),
    ("ID", ⟨"ID", .scalar, none⟩), ("String", ⟨"String", .scalar, none⟩)]
  roots := [(.query, "Query")]
  keyed := by decide

/-- A field that is asked for by its name. -/
def asked (name : String) (below : List Selection) : Selection :=
  .field ⟨none, name, [], []⟩ below

/-- An operation and a fragment that it spreads ask for different fields of the friend. -/
def meQuery : Operation :=
  ⟨.query, some "Me", [⟨"filter", .named "Filter", false⟩], [],
    [.field ⟨none, "me", [("filter", .literal .variable "filter")], []⟩
      [asked "id" [], asked "friend" [asked "id" []], .spread "Profile" []]], none⟩

/-- What the response of the operation looks like: the friend has an object of its own, and the reference omits it. -/
def meShape : Shape :=
  .object "Query" [("me", .inter
    [.object "User" [("friend", .object "User" [("id", .scalar "string | number" {}),
        ("name", .scalar "string" { nullable := true })] { nullable := true })] {},
      .object "User" [("id", .scalar "string | number" {})] {},
      .ref ⟨"Profile", "ProfileFragment", "User", "User", ["friend"]⟩ {}] { nullable := true })] {}

/-- What a user shows to others. -/
def profile : Fragment :=
  ⟨"Profile", "User", [], [asked "role" [], .spread "Contact" []], none⟩

/-- The name of a user and that of the friend. -/
def contact : Fragment :=
  ⟨"Contact", "User", [], [asked "__typename" [], asked "name" [], asked "friend" [asked "name" []]], none⟩

/-- Documents that share an enum, a tag and a fragment. -/
def forumDocuments : List (String × Document) :=
  [("me", ⟨[.operation meQuery]⟩), ("profile", ⟨[.fragment profile]⟩), ("contact", ⟨[.fragment contact]⟩),
    ("names", ⟨[.operation ⟨.query, some "Names", [⟨"role", .named "Role", false⟩], [],
      [.field ⟨none, "me", [("filter", .object [("role", .literal .variable "role")])], []⟩
        [asked "__typename" [], asked "name" []]], none⟩]⟩)]

/-- A workspace with these documents. -/
def forum : Workspace :=
  ((Workspace.new forumSchema {}).add forumDocuments).2

/-- The types that are generated for the documents. -/
def forumTypes : List (ArtifactKind × String) :=
  [(.typeHelper, "Exact"), (.enum, "Role"), (.typeTag, "User"), (.fragment, "ContactFragment"),
    (.fragment, "ProfileFragment"), (.operation, "MeQuery"), (.operation, "NamesQuery"),
    (.operationVariables, "MeQueryVariables"), (.operationVariables, "NamesQueryVariables"), (.inputType, "FilterInput")]

theorem outputTyped_forum : forumSchema.OutputTyped := by
  intro name t ht f hf t' ht' fields hbody
  have hinput : ∀ e ∈ forumSchema.types, ∀ f ∈ e.2.body.fields, f.type.base ≠ "Filter" := by decide
  have hfilter : ∀ e ∈ forumSchema.types, e.1 ≠ "Filter" → ∀ fields, e.2.body ≠ .input fields := by
    simp [forumSchema, forumUser]
  exact hfilter _ (Assoc.mem_of_get? ht') (hinput _ (Assoc.mem_of_get? ht) f hf) fields hbody

theorem reachable_forum : forum.Reachable :=
  .add (.new {} outputTyped_forum) (by decide)

theorem uniqueNames_forum : UniqueNames forum.documents := by
  constructor <;> decide

end Workspace

end ResponseTypes
