import ResponseTypes.Proofs.Output.Alike

/-!
# Sorted outputs

Outputs are sorted, so that the order in which artifacts and operations come to them does not matter, as long as no two
take the same place (`sameTexts_ofParts`).  The files that artifacts are attributed to show up in failures only.
-/

namespace ResponseTypes

set_option autoImplicit false

open Compile (CollectedOperation)

/-! ## Orders -/

theorem ArtifactKind.rank_inj {k k' : ArtifactKind} (h : k.rank = k'.rank) : k = k' := by
  have hmem : k ∈ ArtifactKind.all := by cases k <;> decide
  exact (List.idxOf_inj hmem).1 h

theorem GraphQL.OperationKind.name_inj {k k' : GraphQL.OperationKind} (h : k.name = k'.name) : k = k' := by
  cases k <;> cases k' <;> first | rfl | exact absurd h (by decide)

namespace Output

theorem artifactLe_total (a b : Artifact ArtifactKind) : (artifactLe a b || artifactLe b a) = true := by
  have hnames := le_total a.name b.name
  simp only [artifactLe, Bool.or_eq_true, Bool.and_eq_true, decide_eq_true_eq, beq_iff_eq]
  rcases lt_trichotomy a.kind.rank b.kind.rank with h | h | h
  · exact Or.inl (Or.inl h)
  · exact hnames.imp (fun hle => Or.inr ⟨h, hle⟩) fun hle => Or.inr ⟨h.symm, hle⟩
  · exact Or.inr (Or.inl h)

theorem artifactLe_trans (a b c : Artifact ArtifactKind) (h : artifactLe a b = true) (h' : artifactLe b c = true) :
    artifactLe a c = true := by
  simp only [artifactLe, Bool.or_eq_true, Bool.and_eq_true, decide_eq_true_eq, beq_iff_eq] at h h' ⊢
  rcases h with h | ⟨h, hle⟩ <;> rcases h' with h' | ⟨h', hle'⟩
  · exact Or.inl (h.trans h')
  · exact Or.inl (h' ▸ h)
  · exact Or.inl (h ▸ h')
  · exact Or.inr ⟨h.trans h', hle.trans hle'⟩

/-- Artifacts in the same place have one kind and one name. -/
theorem artifactLe_antisymm {a b : Artifact ArtifactKind} (h : artifactLe a b = true) (h' : artifactLe b a = true) :
    (a.kind, a.name) = (b.kind, b.name) := by
  simp only [artifactLe, Bool.or_eq_true, Bool.and_eq_true, decide_eq_true_eq, beq_iff_eq] at h h'
  rcases h with h | ⟨h, hle⟩
  · rcases h' with h' | ⟨h', -⟩
    · exact absurd h' h.asymm
    · exact absurd h (h' ▸ lt_irrefl _)
  · rcases h' with h' | ⟨-, hle'⟩
    · exact absurd h' (h ▸ lt_irrefl _)
    · rw [ArtifactKind.rank_inj h, le_antisymm hle hle']

theorem operationLe_total (a b : CollectedOperation) : (operationLe a b || operationLe b a) = true := by
  have hnames := le_total a.name b.name
  simp only [operationLe, Bool.or_eq_true, Bool.and_eq_true, decide_eq_true_eq, beq_iff_eq]
  rcases lt_trichotomy a.kind.name b.kind.name with h | h | h
  · exact Or.inl (Or.inl h)
  · have hkind := GraphQL.OperationKind.name_inj h
    exact hnames.imp (fun hle => Or.inr ⟨hkind, hle⟩) fun hle => Or.inr ⟨hkind.symm, hle⟩
  · exact Or.inr (Or.inl h)

theorem operationLe_trans (a b c : CollectedOperation) (h : operationLe a b = true) (h' : operationLe b c = true) :
    operationLe a c = true := by
  simp only [operationLe, Bool.or_eq_true, Bool.and_eq_true, decide_eq_true_eq, beq_iff_eq] at h h' ⊢
  rcases h with h | ⟨h, hle⟩ <;> rcases h' with h' | ⟨h', hle'⟩
  · exact Or.inl (h.trans h')
  · exact Or.inl (h' ▸ h)
  · exact Or.inl (h ▸ h')
  · exact Or.inr ⟨h.trans h', hle.trans hle'⟩

/-- Operations in the same place have one name. -/
theorem operationLe_antisymm {a b : CollectedOperation} (h : operationLe a b = true) (h' : operationLe b a = true) :
    a.name = b.name := by
  simp only [operationLe, Bool.or_eq_true, Bool.and_eq_true, decide_eq_true_eq, beq_iff_eq] at h h'
  rcases h with h | ⟨h, hle⟩
  · rcases h' with h' | ⟨h', -⟩
    · exact absurd h' h.asymm
    · exact absurd h (h' ▸ lt_irrefl _)
  · rcases h' with h' | ⟨-, hle'⟩
    · exact absurd h' (h ▸ lt_irrefl _)
    · exact le_antisymm hle hle'

/-! ## Texts -/

/-- An artifact without what it depends on. -/
def bare (a : Artifact ArtifactKind) : Artifact ArtifactKind :=
  { a with origin := ⟨"", []⟩ }

/-- No two artifacts of one kind have one name. -/
def DistinctNames (out : Output) : Prop :=
  (out.artifacts.map fun a => (a.kind, a.name)).Nodup

/-- Two outputs give the same texts, or none.  A template of operation types must be discreet for that. -/
structure SameTexts (a b : Output) : Prop where
  everything : a.everything = b.everything
  types : a.types = b.types
  operationsFile : ∀ minify, (a.operationsFile minify).toOption = (b.operationsFile minify).toOption
  operationTypes : a.templates.Discreet → ∀ importFrom, a.operationTypes importFrom = b.operationTypes importFrom

/-- Attempts that differ in their failures only do so together. -/
theorem toOption_mapM_congr {α β : Type} {f g : α → Except Failure β} (h : ∀ a, (f a).toOption = (g a).toOption) (l : List α) :
    (l.mapM f).toOption = (l.mapM g).toOption := by
  have hbind : ∀ {γ δ : Type} (x : Except Failure γ) (k : γ → Except Failure δ),
      (x >>= k).toOption = x.toOption.bind fun a => (k a).toOption := by
    intro γ δ x k
    cases x <;> rfl
  induction l with
  | nil => rfl
  | cons a l ih =>
    simp only [List.mapM_cons, hbind, h a, ih]

/-- The texts of artifacts do not depend on the files that these are attributed to. -/
theorem toOption_compactSources (l : List (Artifact ArtifactKind)) :
    ((l.map fun a => (a.graphqlName.getD "", a)).mapM fun f => compactSource f.1 f.2.origin.file f.2.source).toOption =
      ((l.map fun a => (a.graphqlName, a.source)).mapM fun v => compactSource (v.1.getD "") "" v.2).toOption := by
  simp only [List.mapM_map]
  refine toOption_mapM_congr (fun a => ?_) l
  simp only [Function.comp]
  cases a.source <;> rfl

variable {out out' : Output}

/-- The operations file depends on the fragments with their texts, and on the operations. -/
theorem toOption_operationsFile_congr
    (h : (out.ofKind .fragment).map (fun a => (a.graphqlName, a.source)) =
      (out'.ofKind .fragment).map (fun a => (a.graphqlName, a.source)))
    (hops : out.operations.map view = out'.operations.map view) (templates : out.templates = out'.templates)
    (hooks : out.hooks = out'.hooks) (minify : Bool) :
    (out.operationsFile minify).toOption = (out'.operationsFile minify).toOption := by
  have hnames : ∀ o : Output, ((o.ofKind .fragment).map (fun a => (a.graphqlName.getD "", a))).map Prod.fst =
      ((o.ofKind .fragment).map (fun a => (a.graphqlName, a.source))).map (fun v => v.1.getD "") := by
    intro o
    simp only [List.map_map]
    rfl
  have hsources := (toOption_compactSources (out.ofKind .fragment)).trans
    ((congrArg (fun l => (l.mapM fun v : Option String × Option String => compactSource (v.1.getD "") "" v.2).toOption) h).trans
      (toOption_compactSources (out'.ofKind .fragment)).symm)
  unfold operationsFile
  dsimp only
  rw [hnames, hnames, h, templates, hooks]
  generalize ((out.ofKind .fragment).map fun a => (a.graphqlName.getD "", a)).mapM (m := Except Failure)
    (fun f => compactSource f.1 f.2.origin.file f.2.source) = x at hsources ⊢
  generalize ((out'.ofKind .fragment).map fun a => (a.graphqlName.getD "", a)).mapM (m := Except Failure)
    (fun f => compactSource f.1 f.2.origin.file f.2.source) = y at hsources ⊢
  cases x with
  | error e =>
    cases y with
    | error e' => rfl
    | ok sources' => cases hsources
  | ok sources =>
    cases y with
    | error e' => cases hsources
    | ok sources' =>
      cases hsources
      rcases mapM_compactSource (forall₂_alike hops) with ⟨e, h, h'⟩ | ⟨r, r', h, h', hr⟩
      · simp only [bind, Except.bind] at h h' ⊢
        rw [h, h']
      · simp only [bind, Except.bind] at h h' ⊢
        rw [h, h']
        simp only [operationSources_congr minify hr]

/-- Outputs with the same artifacts in the same order, but for what these depend on, and the same operations. -/
theorem sameTexts_of_bare (ha : out.artifacts.map bare = out'.artifacts.map bare)
    (ho : out.operations.map view = out'.operations.map view) (templates : out.templates = out'.templates)
    (hooks : out.hooks = out'.hooks) : SameTexts out out' := by
  have hcode : out.artifacts.map (fun a => (a.kind, a.code)) = out'.artifacts.map (fun a => (a.kind, a.code)) := by
    have := congrArg (List.map fun a : Artifact ArtifactKind => (a.kind, a.code)) ha
    rw [List.map_map, List.map_map] at this
    exact this
  have hfragments : (out.ofKind .fragment).map (fun a => (a.graphqlName, a.source)) =
      (out'.ofKind .fragment).map (fun a => (a.graphqlName, a.source)) := by
    have := congrArg (fun l : List (Artifact ArtifactKind) => (l.filter (fun a => a.kind = .fragment)).map
      (fun a => (a.graphqlName, a.source))) ha
    simp only [List.filter_map, List.map_map] at this
    exact this
  exact ⟨everything_congr hcode templates hooks, types_congr hcode templates hooks,
    toOption_operationsFile_congr hfragments ho templates hooks, operationTypes_congr ho templates hooks⟩

/-! ## Sorting -/

/-- The artifacts stand in their order. -/
def Sorted (artifacts : List (Artifact ArtifactKind)) : Prop :=
  artifacts.Pairwise fun a b => artifactLe a b = true

theorem sorted_sortBy (artifacts : List (Artifact ArtifactKind)) : Sorted (Text.sortBy artifactLe artifacts) :=
  Text.pairwise_sortBy artifactLe_trans artifactLe_total artifacts

/-- Artifacts in their order are the same if they are the same in some order. -/
theorem map_bare_eq_of_perm {artifacts artifacts' : List (Artifact ArtifactKind)}
    (h : (artifacts.map bare).Perm (artifacts'.map bare)) (hs : Sorted artifacts) (hs' : Sorted artifacts')
    (hnames : (artifacts.map fun a => (a.kind, a.name)).Nodup) : artifacts.map bare = artifacts'.map bare := by
  have hbare : ∀ {l}, Sorted l → Sorted (l.map bare) := fun h => List.pairwise_map.2 h
  refine h.eq_of_pairwise (fun a b ha hb hab hba => ?_) (hbare hs) (hbare hs')
  obtain ⟨x, hx, rfl⟩ := List.mem_map.1 ha
  obtain ⟨y, hy, rfl⟩ := List.mem_map.1 (h.mem_iff.2 hb)
  exact congrArg bare (List.inj_on_of_nodup_map hnames hx hy (artifactLe_antisymm hab hba))

/-- Operations are sorted the same if they are the same in some order. -/
theorem map_view_sortBy_of_perm {operations operations' : List CollectedOperation}
    (h : (operations.map view).Perm (operations'.map view)) (hnames : (operations.map (·.name)).Nodup) :
    (Text.sortBy operationLe operations).map view = (Text.sortBy operationLe operations').map view := by
  have hsort : ∀ l : List CollectedOperation,
      (Text.sortBy operationLe l).map view = Text.sortBy (fun a b => operationLe a.1 b.1) (l.map view) :=
    fun l => Text.map_sortBy fun a _ b _ => rfl
  have htrans : ∀ a b c : CollectedOperation × List String, operationLe a.1 b.1 = true → operationLe b.1 c.1 = true →
      operationLe a.1 c.1 = true := fun a b c => operationLe_trans a.1 b.1 c.1
  have htotal : ∀ a b : CollectedOperation × List String, (operationLe a.1 b.1 || operationLe b.1 a.1) = true :=
    fun a b => operationLe_total a.1 b.1
  rw [hsort, hsort]
  refine Text.sortBy_congr _ htrans htotal h fun a ha b hb h h' => ?_
  obtain ⟨x, hx, rfl⟩ := List.mem_map.1 ha
  obtain ⟨y, hy, rfl⟩ := List.mem_map.1 hb
  exact congrArg view (List.inj_on_of_nodup_map hnames hx hy (operationLe_antisymm h h'))

end Output

end ResponseTypes
