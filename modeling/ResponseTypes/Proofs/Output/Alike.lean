import ResponseTypes.Output
import ResponseTypes.Proofs.Text.Distinct

/-!
# What generated files depend on

The files of types depend on the kinds and the code of artifacts alone, the operations file on the fragments and the
operations, and the file of operation types on the operations.  Of what an operation depends on, no more than the
fragments it uses counts (`Output.Alike`), unless a template tells the rest (`Templates.Discreet`).
-/

namespace ResponseTypes

set_option autoImplicit false

open Compile (CollectedOperation)
open GraphQL (OperationKind)

namespace Output

/-- What the usual files tell of an operation. -/
def view (op : CollectedOperation) : CollectedOperation × List String :=
  ({ op with origin := ⟨op.origin.file, []⟩ }, fragmentsOf op)

/-- Two operations are the same, but for keys other than those of the fragments they use. -/
def Alike (a b : CollectedOperation) : Prop :=
  view a = view b

namespace Alike

variable {a b : CollectedOperation}

theorem name (h : Alike a b) : a.name = b.name := congrArg (fun v => v.1.name) h

theorem kind (h : Alike a b) : a.kind = b.kind := congrArg (fun v => v.1.kind) h

theorem typeName (h : Alike a b) : a.typeName = b.typeName := congrArg (fun v => v.1.typeName) h

theorem variablesTypeName (h : Alike a b) : a.variablesTypeName = b.variablesTypeName :=
  congrArg (fun v => v.1.variablesTypeName) h

theorem needsVariables (h : Alike a b) : a.needsVariables = b.needsVariables := congrArg (fun v => v.1.needsVariables) h

theorem source (h : Alike a b) : a.source = b.source := congrArg (fun v => v.1.source) h

theorem file (h : Alike a b) : a.origin.file = b.origin.file := congrArg (fun v => v.1.origin.file) h

theorem fragmentsOf (h : Alike a b) : Output.fragmentsOf a = Output.fragmentsOf b := congrArg Prod.snd h

end Alike

/-- Operations that use the same fragments are alike. -/
theorem alike_of_uses {a : CollectedOperation} {keys : List String}
    (h : ∀ f, f ∈ Dependency.fragmentsUsed a.origin.keys ↔ f ∈ Dependency.fragmentsUsed keys) :
    Alike a { a with origin := { a.origin with keys } } := by
  have hfragments : fragmentsOf a = fragmentsOf { a with origin := { a.origin with keys } } :=
    Text.sorted_distinct_congr h
  unfold Alike view
  rw [hfragments]

theorem forall₂_alike {l l' : List CollectedOperation} (h : l.map view = l'.map view) : List.Forall₂ Alike l l' := by
  induction l generalizing l' with
  | nil =>
    rw [List.map_nil, eq_comm, List.map_eq_nil_iff] at h
    rw [h]
    exact .nil
  | cons a l ih =>
    cases l' with
    | nil => cases h
    | cons b l' =>
      rw [List.map_cons, List.map_cons, List.cons.injEq] at h
      exact .cons h.1 (ih h.2)

end Output

namespace Script.Templates

/-- The template of operation types tells no more of an operation than the usual one may: of what the operation depends on,
nothing but the fragments that it uses. -/
def Discreet (t : Script.Templates) : Prop :=
  ∀ importFrom imports kinds kinds',
    kinds.map (Prod.map id (List.map Output.view)) = kinds'.map (Prod.map id (List.map Output.view)) →
      t.operationTypes importFrom imports kinds = t.operationTypes importFrom imports kinds'

theorem discreet_standard : standard.Discreet := by
  intro importFrom imports kinds kinds' h
  -- what the usual template tells of an operation is a part of its view
  have htold : ∀ l : List (String × List CollectedOperation), l.map (fun k => (k.1, k.2.map OperationTypes.ofOperation)) =
      (l.map (Prod.map id (List.map Output.view))).map (fun k => (k.1, k.2.map fun v => OperationTypes.ofOperation v.1)) := by
    intro l
    rw [List.map_map]
    refine List.map_congr_left fun k _ => ?_
    simp only [Function.comp, Prod.map, List.map_map]
    rfl
  simp only [standard, htold, h]

/-- Whoever leaves the file of operation types as it is has a discreet template. -/
theorem discreet_complete {o : Script.Overrides} (h : o.operationTypes = none) : o.complete.Discreet := by
  intro importFrom imports kinds kinds' hkinds
  simp only [Overrides.complete, h, Option.getD_none]
  exact discreet_standard importFrom imports kinds kinds' hkinds

end Script.Templates

namespace Output

variable {out out' : Output}

/-- The files of types depend on the kinds and the code of artifacts. -/
theorem code_congr (h : out.artifacts.map (fun a => (a.kind, a.code)) = out'.artifacts.map (fun a => (a.kind, a.code)))
    (templates : out.templates = out'.templates) (kinds : List ArtifactKind) : out.code kinds = out'.code kinds := by
  have hkind : ∀ (o : Output) (kind : ArtifactKind), (o.ofKind kind).map (·.code) =
      ((o.artifacts.map (fun a => (a.kind, a.code))).filter (fun e => e.1 = kind)).map Prod.snd := by
    intro o kind
    rw [List.filter_map, List.map_map]
    rfl
  have hcodes : ∀ kind, (out.ofKind kind).map (·.code) = (out'.ofKind kind).map (·.code) := by
    intro kind
    rw [hkind, hkind, h]
  have hsection : ∀ kind, out.section? kind = out'.section? kind := by
    intro kind
    have hempty : (out.ofKind kind).isEmpty = (out'.ofKind kind).isEmpty := by
      have := congrArg List.isEmpty (hcodes kind)
      simpa using this
    simp only [section?, hempty, hcodes]
  simp only [code, hsection, templates]

theorem everything_congr
    (h : out.artifacts.map (fun a => (a.kind, a.code)) = out'.artifacts.map (fun a => (a.kind, a.code)))
    (templates : out.templates = out'.templates) (hooks : out.hooks = out'.hooks) : out.everything = out'.everything := by
  rw [everything, everything, code_congr h templates, hooks]

theorem types_congr
    (h : out.artifacts.map (fun a => (a.kind, a.code)) = out'.artifacts.map (fun a => (a.kind, a.code)))
    (templates : out.templates = out'.templates) (hooks : out.hooks = out'.hooks) : out.types = out'.types := by
  rw [types, types, code_congr h templates, hooks]

/-- Texts of operations that are alike. -/
theorem operationSources_congr (minify : Bool) {l l' : List (CollectedOperation × String)}
    (h : List.Forall₂ (fun p q => Alike p.1 q.1 ∧ p.2 = q.2) l l') (given : Naming.Abbreviations) :
    operationSources minify given l = operationSources minify given l' := by
  induction h generalizing given with
  | nil => rfl
  | @cons p q l l' hpq _ ih =>
    obtain ⟨op, source⟩ := p
    obtain ⟨op', source'⟩ := q
    obtain ⟨halike, rfl⟩ := hpq
    simp only [operationSources]
    rw [halike.kind, halike.name, halike.fragmentsOf, ih]

/-- Reading the texts of operations that are alike. -/
theorem mapM_compactSource {l l' : List CollectedOperation} (h : List.Forall₂ Alike l l') :
    (∃ e, (l.mapM fun op => do return (op, ← compactSource op.name op.origin.file op.source) :
        Except Failure (List (CollectedOperation × String))) = .error e ∧
      (l'.mapM fun op => do return (op, ← compactSource op.name op.origin.file op.source) :
        Except Failure (List (CollectedOperation × String))) = .error e) ∨
    ∃ r r', (l.mapM fun op => do return (op, ← compactSource op.name op.origin.file op.source)) = .ok r ∧
      (l'.mapM fun op => do return (op, ← compactSource op.name op.origin.file op.source)) = .ok r' ∧
      List.Forall₂ (fun p q => Alike p.1 q.1 ∧ p.2 = q.2) r r' := by
  induction h with
  | nil => exact Or.inr ⟨[], [], rfl, rfl, .nil⟩
  | @cons a b l l' hab _ ih =>
    simp only [List.mapM_cons]
    rw [hab.name, hab.file, hab.source]
    cases hsource : compactSource b.name b.origin.file b.source with
    | error e => exact Or.inl ⟨e, rfl, rfl⟩
    | ok text =>
      rcases ih with ⟨e, h, h'⟩ | ⟨r, r', h, h', hr⟩
      · exact Or.inl ⟨e, by rw [h]; rfl, by rw [h']; rfl⟩
      · exact Or.inr ⟨(a, text) :: r, (b, text) :: r', by rw [h]; rfl, by rw [h']; rfl, .cons ⟨hab, rfl⟩ hr⟩

/-- What there is to say of some of the operations that are alike. -/
theorem map_filter_congr {β : Type} {l l' : List CollectedOperation} (h : List.Forall₂ Alike l l')
    (p : CollectedOperation → Bool) (f : CollectedOperation → β) (hf : ∀ a b, Alike a b → p a = p b ∧ f a = f b) :
    (l.filter p).map f = (l'.filter p).map f := by
  induction h with
  | nil => rfl
  | @cons a b l l' hab _ ih =>
    obtain ⟨hp, hfab⟩ := hf a b hab
    simp only [List.filter_cons, hp]
    split
    · rw [List.map_cons, List.map_cons, hfab, ih]
    · exact ih

/-- The file of operation types depends on the operations. -/
theorem operationTypes_congr (hops : out.operations.map view = out'.operations.map view)
    (templates : out.templates = out'.templates) (hooks : out.hooks = out'.hooks) (hd : out.templates.Discreet)
    (importFrom : Option String) : out.operationTypes importFrom = out'.operationTypes importFrom := by
  have hall : ∀ {β : Type} (f : CollectedOperation → β), (∀ a b, Alike a b → f a = f b) →
      out.operations.map f = out'.operations.map f := by
    intro β f hf
    simpa using map_filter_congr (forall₂_alike hops) (fun _ => true) f fun a b h => ⟨rfl, hf a b h⟩
  have hkinds : ∀ k : OperationKind, (out.operations.filter (fun op => op.kind = k)).map view =
      (out'.operations.filter (fun op => op.kind = k)).map view := fun k =>
    map_filter_congr (forall₂_alike hops) _ view fun a b h => ⟨by rw [h.kind], h⟩
  unfold operationTypes
  dsimp only
  rw [hall _ fun a b (h : Alike a b) => h.typeName, hall _ fun a b (h : Alike a b) => h.variablesTypeName, ← hooks,
    ← templates]
  refine congrArg _ (hd _ _ _ _ ?_)
  simp only [List.map_map, Function.comp_def, Prod.map, hkinds]

/-- Two outputs give the same files.  A user's template of operation types must be discreet for that, as the usual one is:
it gets all that is known of the operations, with the keys that were recorded for them. -/
structure SameFiles (a b : Output) : Prop where
  everything : a.everything = b.everything
  types : a.types = b.types
  operationsFile : ∀ minify, a.operationsFile minify = b.operationsFile minify
  operationTypes : a.templates.Discreet → ∀ importFrom, a.operationTypes importFrom = b.operationTypes importFrom

end Output

end ResponseTypes
