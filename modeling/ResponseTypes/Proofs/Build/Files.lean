import Mathlib.Data.List.Pairwise
import ResponseTypes.Proofs.Build.Sections

/-!
# Files

Fragments are made in the file that defines them and the types of operations in the file of the operation (`Placed`).  With
distinct names, all definitions of the documents are found by their names.
-/

namespace ResponseTypes

set_option autoImplicit false

open Compile
open GraphQL (Document Operation TypeRef)

namespace Compile

/-! ## What is made where -/

section Placed

variable {c : Sources} {late : TypeRef → Prop} {jobOf : String → Option Job} {stack : Stack} {file : String}
  {p p' : Progress} {n : Need} {node : Node}

/-- The file that a need comes from. -/
def Need.home? (c : Sources) : Need → Option String
  | declared _ | code _ => none
  | fragment name => (Assoc.get? c.fragments name).map (·.file)
  | operation j | arguments j => some j.file

/-- What comes from a file was made in it. -/
def Placed (c : Sources) (jobOf : String → Option Job) (p : Progress) : Prop :=
  ∀ node piece n file, Assoc.get? p node = some piece → needOf jobOf node = some n → n.home? c = some file →
    file ≠ "" → piece.file = file

/-- An operation is known by its name, and needed in its file. -/
def Need.AtHome (jobOf : String → Option Job) (file : String) : Need → Prop
  | declared _ | code _ | fragment _ => True
  | operation j | arguments j => jobOf j.name = some j ∧ (j.file ≠ "" → file = j.file)

theorem Need.Inner.atHome (h : n.Inner) : n.AtHome jobOf file := by
  cases n with
  | declared d | code type | fragment name => trivial
  | operation j | arguments j => exact h.elim

theorem Need.AtHome.needOf (h : n.AtHome jobOf file) (hn : n.node? = some node) : needOf jobOf node = some n := by
  cases n with
  | declared d =>
    cases hn
    exact needOf_declared jobOf d
  | code type => cases hn
  | fragment name =>
    cases hn
    rfl
  | operation j =>
    cases hn
    exact needOf_operation h.1
  | arguments j =>
    cases hn
    exact needOf_variables h.1

theorem Need.AtHome.fileWithin (h : n.AtHome jobOf file) {home : String} (hn : n.home? c = some home)
    (hne : home ≠ "") : n.fileWithin c file = home := by
  cases n with
  | declared d | code type => cases hn
  | fragment name =>
    obtain ⟨f, hf, rfl⟩ := Option.map_eq_some_iff.1 hn
    simp only [Need.fileWithin, hf, if_neg hne]
  | operation j | arguments j =>
    cases hn
    exact h.2 hne

/-- A run makes everything in its place. -/
theorem Run.placed {needs : List Need} {o : Except Failure Progress} (h : Run c late stack file p needs o)
    (hp : Placed c jobOf p) (hneeds : ∀ n ∈ needs, n.AtHome jobOf file) {p' : Progress} (ho : o = .ok p') :
    Placed c jobOf p' := by
  induction h generalizing p' with
  | nil =>
    cases ho
    exact hp
  | later _ _ ih => exact ih hp (fun n hn => hneeds n (List.mem_cons_of_mem _ hn)) ho
  | settled _ _ ih => exact ih hp (fun n hn => hneeds n (List.mem_cons_of_mem _ hn)) ho
  | circular => cases ho
  | broken => cases ho
  | lacking => cases ho
  | @built _ _ _ p₁ p₂ n _ _ _ _ _ hcomplete _ ih ihr =>
    have hinner : Placed c jobOf p₁ := ih hp (fun m hm => (n.inner_needs m hm).atHome) rfl
    have hn := hneeds n List.mem_cons_self
    refine ihr ?_ (fun m hm => hneeds m (List.mem_cons_of_mem _ hm)) ho
    rcases Need.complete_eq hcomplete with ⟨-, rfl⟩ | ⟨node, piece, hnode, hfile, rfl⟩
    · exact hinner
    · intro node' piece' n' home hget hneed hhome hne
      cases hold : Assoc.get? p₁ node' with
      | some old =>
        rw [Assoc.get?_append_left hold] at hget
        cases hget
        exact hinner node' _ n' home hold hneed hhome hne
      | none =>
        rw [Assoc.get?_append_right hold, Assoc.get?_cons] at hget
        split at hget
        · rename_i heq
          subst heq
          cases hget
          cases (hn.needOf hnode).symm.trans hneed
          rw [hfile]
          exact hn.fileWithin hhome hne
        · cases hget

end Placed

end Compile

/-! ## Sections -/

section Sections

variable {c : Sources} {late : TypeRef → Prop} {jobOf : String → Option Job} {documents : Assoc String Document}

/-- What a section needs is at home in its file. -/
def Section.AtHome (jobOf : String → Option Job) (sec : Section) : Prop :=
  ∀ current, ∀ n ∈ sec.needs, n.AtHome jobOf (Tracker.fileAfter current (some sec.file))

theorem Passes.placed {file : String} {p : Progress} {sections : List Section} {r : String × Progress}
    (h : Passes c late file p sections (.ok r)) (hp : Placed c jobOf p) (hsections : ∀ sec ∈ sections, sec.AtHome jobOf) :
    Placed c jobOf r.2 :=
  h.preserves hp fun sec hsec current _ _ hr hp => hr.placed hp (hsections sec hsec current) rfl

/-- The sections of a build are at home, as `jobOf` tells the operations of the documents. -/
theorem atHome_sectionsOf {c : Config} {skipUnused : Bool} (hjobs : ∀ j ∈ allJobs c documents, jobOf j.name = some j) :
    ∀ sec ∈ sectionsOf c skipUnused documents, sec.AtHome jobOf := by
  intro sec hsec current n hn
  rcases List.mem_append.1 hsec with hsec | hsec
  · split at hsec
    · cases hsec
    · obtain ⟨e, -, rfl⟩ := List.mem_map.1 hsec
      obtain ⟨f, -, rfl⟩ := List.mem_map.1 hn
      trivial
  · obtain ⟨e, he, rfl⟩ := List.mem_map.1 hsec
    obtain ⟨j, hj, hn⟩ := List.mem_flatMap.1 hn
    have hfile : j.file = e.1 := file_of_mem_jobsOf hj
    have hhome : jobOf j.name = some j ∧ (j.file ≠ "" → Tracker.fileAfter current (some e.1) = j.file) :=
      ⟨hjobs j (List.mem_flatMap.2 ⟨e, he, hj⟩), fun hne => by rw [hfile] at hne ⊢; exact Tracker.fileAfter_of_ne hne current⟩
    rcases List.mem_cons.1 hn with rfl | hn
    · exact hhome
    · rw [List.mem_singleton.1 hn]
      exact hhome

end Sections

/-! ## Distinct names -/

section Names

/-- Nothing is in two of the lists of which all elements are different. -/
theorem eq_of_mem_flatMap {α β : Type} {l : List α} {f : α → List β} (h : (l.flatMap f).Nodup) {a b : α} (ha : a ∈ l)
    (hb : b ∈ l) {x : β} (hxa : x ∈ f a) (hxb : x ∈ f b) : a = b := by
  by_contra hne
  have hsymm : Std.Symm (Function.onFun List.Disjoint f) := ⟨fun _ _ h _ hx hy => h hy hx⟩
  exact (List.nodup_flatMap.1 h).2.forall ha hb hne hxa hxb

/-- The names of all fragments. -/
def fragmentNames (documents : Assoc String Document) : List String :=
  documents.flatMap (fun e => e.2.fragments.map (·.name))

/-- The names of all operations that have one. -/
def operationNames (documents : Assoc String Document) : List String :=
  documents.flatMap (fun e => e.2.operations.filterMap (·.name))

/-- The document of a file defines a fragment. -/
def Defines (documents : Assoc String Document) (name file : String) : Prop :=
  ∃ d, (file, d) ∈ documents ∧ ∃ f ∈ d.fragments, f.name = name

/-- The document of a file defines an operation. -/
def Issues (documents : Assoc String Document) (name file : String) : Prop :=
  ∃ d, (file, d) ∈ documents ∧ ∃ op ∈ d.operations, op.name = some name

/-- No two fragments have one name, and no two operations. -/
structure UniqueNames (documents : Assoc String Document) : Prop where
  fragments : (fragmentNames documents).Nodup
  operations : (operationNames documents).Nodup

variable {documents : Assoc String Document}

/-- A fragment is collected under its name, if no other has it. -/
theorem UniqueNames.get?_collectFragments (h : UniqueNames documents) {file : String} {d : Document}
    {f : GraphQL.Fragment} (hd : (file, d) ∈ documents) (hf : f ∈ d.fragments) :
    Assoc.get? (Workspace.collectFragments documents) f.name = some ⟨f, file⟩ := by
  refine Assoc.get?_ofList_of_nodup (e := (f.name, (⟨f, file⟩ : FragmentDef))) ?_
    (List.mem_flatMap.2 ⟨(file, d), hd, List.mem_map.2 ⟨f, hf, rfl⟩⟩)
  rw [List.map_flatMap]
  simp only [List.map_map]
  exact h.fragments

/-- No other document defines a fragment of the same name. -/
theorem UniqueNames.home (h : UniqueNames documents) {file file' : String} {d : Document} (hd : (file, d) ∈ documents)
    {f : GraphQL.Fragment} (hf : f ∈ d.fragments) (hdefines : Defines documents f.name file') : file' = file := by
  obtain ⟨d', hd', g, hg, hname⟩ := hdefines
  have hsame := eq_of_mem_flatMap h.fragments hd' hd (List.mem_map.2 ⟨g, hg, hname⟩) (List.mem_map.2 ⟨f, hf, rfl⟩)
  exact congrArg Prod.fst hsame

/-- No other document defines an operation of the same name. -/
theorem UniqueNames.issuer (h : UniqueNames documents) {file file' : String} {d : Document} (hd : (file, d) ∈ documents)
    {op : Operation} (hop : op ∈ d.operations) {name : String} (hname : op.name = some name)
    (hissues : Issues documents name file') : file' = file := by
  obtain ⟨d', hd', op', hop', hname'⟩ := hissues
  have hsame := eq_of_mem_flatMap h.operations hd' hd (List.mem_filterMap.2 ⟨op', hop', hname'⟩)
    (List.mem_filterMap.2 ⟨op, hop, hname⟩)
  exact congrArg Prod.fst hsame

theorem sublist_jobsOf (c : Config) (file : String) (ops : List Operation) :
    ((jobsOf c file ops).1.map (·.name)).Sublist (ops.filterMap (·.name)) := by
  induction ops with
  | nil => exact .slnil
  | cons op rest ih =>
    rw [jobsOf]
    cases hname : op.name with
    | none =>
      rw [List.filterMap_cons_none hname]
      exact ih
    | some name =>
      rw [List.filterMap_cons_some hname]
      cases c.schema.root? op.kind with
      | none => exact List.nil_sublist _
      | some root => exact ih.cons_cons name

theorem sublist_allJobs (c : Config) (documents : Assoc String Document) :
    ((allJobs c documents).map (·.name)).Sublist (operationNames documents) := by
  induction documents with
  | nil => exact .slnil
  | cons e rest ih =>
    have hcons : allJobs c (e :: rest) = (jobsOf c e.1 e.2.operations).1 ++ allJobs c rest := rfl
    rw [hcons, List.map_append]
    exact (sublist_jobsOf c e.1 e.2.operations).append ih

theorem issues_of_mem_allJobs {c : Config} {j : Job} (h : j ∈ allJobs c documents) : Issues documents j.name j.file := by
  obtain ⟨e, he, hj⟩ := List.mem_flatMap.1 h
  have hname : j.name ∈ e.2.operations.filterMap (·.name) :=
    (sublist_jobsOf c e.1 e.2.operations).subset (List.mem_map_of_mem hj)
  exact ⟨e.2, file_of_mem_jobsOf hj ▸ he, List.mem_filterMap.1 hname⟩

/-- An operation is the first of its name, if no other has it. -/
theorem UniqueNames.firstJob (h : UniqueNames documents) {c : Config} {j : Job} (hj : j ∈ allJobs c documents) :
    firstJob (allJobs c documents) j.name = some j := by
  have hnodup : ((allJobs c documents).map (·.name)).Nodup := h.operations.sublist (sublist_allJobs c documents)
  have hsome : (ResponseTypes.firstJob (allJobs c documents) j.name).isSome := by
    rw [ResponseTypes.firstJob, List.find?_isSome]
    exact ⟨j, hj, by simp⟩
  obtain ⟨j', hj'⟩ := Option.isSome_iff_exists.1 hsome
  have hname : j'.name = j.name := by simpa using List.find?_some hj'
  rw [hj', List.inj_on_of_nodup_map hnodup (List.mem_of_find?_eq_some hj') hj hname]

end Names

end ResponseTypes
