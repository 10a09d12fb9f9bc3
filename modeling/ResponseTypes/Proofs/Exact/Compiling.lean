import ResponseTypes.Proofs.Build.History
import ResponseTypes.Proofs.Exact.Response

/-!
# Exact responses of any order of compilation

`Compiling` : the states that compiling operations and fragments leads to after a file was begun.  In all of them an operation
compiles to a shape that is exact for what it selects (`Compiling.exact_response`), whatever was compiled before and is reused.
-/

namespace ResponseTypes.Compile

set_option autoImplicit false

open GraphQL (Operation Selection TypeDef)

/-- The states of compilation in a file, after some operations and fragments were compiled. -/
inductive Compiling (c : Setup) : State → Prop
  | start {s : State} {file : String} (tracking : Bool) :
      (Tracking.start (some file)).runOn (.initial tracking) = (.ok (), s) → Compiling c s
  | operation {s s' : State} {op : Operation} {root : TypeDef} {shape : Shape} : Compiling c s →
      c.schema.root? op.kind = some root → (operationShape c op root).runOn s = (.ok shape, s') → Compiling c s'
  | fragment {s s' : State} {name : String} : Compiling c s → (generator c name).runOn s = (.ok (), s') → Compiling c s'

variable {c : Setup} {s s' : State}

/-- What is compiled on the way is right. -/
theorem Compiling.good (h : Compiling c s) (hc : c.toSources.Named) :
    Good c.toSources (fun _ => False) (fun _ => none) .empty s := by
  induction h with
  | start tracking h =>
    cases h
    exact (idle_initial hc (fun _ => False.elim) tracking).opened _
  | operation _ hroot h ih => exact (runOn_operationShape hc ih (known_root hroot) h).1
  | @fragment s s' name _ h ih =>
    cases hf : Assoc.get? c.fragments name with
    | none =>
      rw [generator, generateFragment.eq_def] at h
      split at h
      · cases h
      · rename_i hf'
        cases hf.symm.trans hf'
    | some f =>
      rcases follows_generateFragment hc [] hf rfl rfl s ih with ⟨e, -, he⟩ | ⟨-, -, s₁, hrun, -, hg, -⟩
      · change ((generator c name).runOn s).1 = .error e at he
        rw [h] at he
        cases he
      · change (generator c name).runOn s = (.ok (), s₁) at hrun
        cases h.symm.trans hrun
        exact hg

/-- An operation compiles to a shape that is exact for what it selects on the root type, with the shapes that the artifacts
of fragments were written from. -/
theorem Compiling.exact_response (h : Compiling c s) (hc : c.toSources.Named) (hsimple : c.toSources.Simple) {op : Operation}
    {root : TypeDef} (hroot : c.schema.root? op.kind = some root)
    (hplain : areAllPlain op.selections = true) (hsame : SameFields c.toSources root op.selections) {shape : Shape}
    (hrun : (operationShape c op root).runOn s = (.ok shape, s')) :
    ExactFor c.toSources (generatedShape c.toSources s'.progress) root op.selections shape ∧
      ∀ name a, Assoc.get? s'.store (fragmentNode name) = some a → ∃ f final, Assoc.get? c.fragments name = some f ∧
        generatedShape c.toSources s'.progress name = some final ∧ a.toDraft = fragmentDraft c.toConfig f final :=
  response_exact hc hsimple (h.good hc) (known_root hroot) hplain hsame hrun

/-- What the forum is compiled from. -/
def forumSetup : Setup := Workspace.forum.collecting.setup

theorem objectsOnly_forum : forumSetup.toSources.schema.ObjectsOnly := by
  have hbody : ∀ e ∈ forumSetup.toSources.schema.types, e.2.body.isAbstract = false := by decide +kernel
  exact fun name t ht => hbody _ (Assoc.mem_of_get? ht)

theorem distinctNames_forum : forumSetup.toSources.DistinctNames := by
  have hnames : ∀ e ∈ forumSetup.toSources.fragments, ∀ e' ∈ forumSetup.toSources.fragments,
      forumSetup.toSources.naming.fragment e.1 = forumSetup.toSources.naming.fragment e'.1 → e.1 = e'.1 := by decide +kernel
  exact fun name f other g hf hg => hnames (name, f) (Assoc.mem_of_get? hf) (other, g) (Assoc.mem_of_get? hg)

/-- Only one fragment of the forum spreads another. -/
theorem spreading_forum {name other : String} (h : forumSetup.toSources.Spreading name other) :
    name = "Profile" ∧ other = "Contact" := by
  have hspreads : ∀ e ∈ forumSetup.toSources.fragments, ∀ other ∈ spreadsInAll e.2.fragment.selections,
      e.1 = "Profile" ∧ other = "Contact" := by decide +kernel
  obtain ⟨f, hf, hspread⟩ := h
  exact hspreads _ (Assoc.mem_of_get? hf) other hspread

theorem acyclic_forum : forumSetup.toSources.Acyclic := by
  intro name h
  obtain ⟨_, hfirst, -⟩ := Relation.TransGen.head'_iff.1 h
  obtain ⟨_, -, hlast⟩ := Relation.TransGen.tail'_iff.1 h
  have heq : "Profile" = "Contact" := (spreading_forum hfirst).1.symm.trans (spreading_forum hlast).2
  exact absurd heq (by decide)

theorem simple_forum : forumSetup.toSources.Simple := by
  have hplain : ∀ e ∈ forumSetup.toSources.fragments, areAllPlain e.2.fragment.selections = true := by decide +kernel
  exact ⟨objectsOnly_forum, by decide +kernel, distinctNames_forum, acyclic_forum,
    fun name f hf => hplain _ (Assoc.mem_of_get? hf)⟩

/-- The response of `Me` is exact: it refers to the fragment `Profile`, which refers to `Contact`, and the friend that both ask
for differently is given once. -/
theorem exact_response_forum : ∃ root s', forumSetup.schema.root? Workspace.meQuery.kind = some root ∧
    (operationShape forumSetup Workspace.meQuery root).runOn (opened (some "me") (.initial true)) = (.ok Workspace.meShape, s') ∧
    ExactFor forumSetup.toSources (generatedShape forumSetup.toSources s'.progress) root Workspace.meQuery.selections
      Workspace.meShape ∧
      ∀ name a, Assoc.get? s'.store (fragmentNode name) = some a → ∃ f final, Assoc.get? forumSetup.fragments name = some f ∧
        generatedShape forumSetup.toSources s'.progress name = some final ∧
        a.toDraft = fragmentDraft forumSetup.toConfig f final := by
  have hshape : ∀ root, forumSetup.schema.root? Workspace.meQuery.kind = some root →
      ((operationShape forumSetup Workspace.meQuery root).runOn (opened (some "me") (.initial true))).1 =
        .ok Workspace.meShape := by
    intro root hroot
    cases hroot
    decide +kernel
  have hunlabelled : ∀ e ∈ forumSetup.fragments, areUnlabelled e.2.fragment.selections = true := by decide +kernel
  have hok := hshape _ rfl
  cases hrun : (operationShape forumSetup Workspace.meQuery _).runOn (opened (some "me") (.initial true)) with
  | mk result s' =>
    rw [hrun] at hok
    obtain rfl : result = .ok Workspace.meShape := hok
    refine ⟨_, s', rfl, hrun, Compiling.exact_response (.start true rfl) (Workspace.named_setup _) simple_forum rfl (by decide) ?_ hrun⟩
    exact sameFields_of_unlabelled (fun name f hf => hunlabelled _ (Assoc.mem_of_get? hf)) (by decide)

end ResponseTypes.Compile
