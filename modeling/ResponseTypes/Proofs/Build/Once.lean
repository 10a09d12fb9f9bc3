import Mathlib.Data.List.Chain
import ResponseTypes.Proofs.Build.Again
import ResponseTypes.Proofs.Plan.Storing

/-!
# Artifacts are built once

A build stores artifacts under nodes that have none (`Workspace.storing_build`), and the other calls of a workspace store
nothing.  So however a workspace is called, what built an artifact is not carried out to its end again before the artifact was
discarded (`Workspace.isChain_history`).
-/

namespace ResponseTypes

set_option autoImplicit false

open Compile
open GraphQL (Document)

namespace Workspace

variable {w : Workspace} {node : Node}

/-! ## Calls -/

/-- A call of a workspace. -/
inductive Call
  | add (documents : List (String × Document))
  | update (documents : List (String × Document))
  | remove (file : String)
  | updateSchema (schema : Schema)
  | resetCaches
  | reset
  | build

/-- The workspace after a call. -/
def after (w : Workspace) : Call → Workspace
  | .add documents => (w.add documents).2
  | .update documents => (w.update documents).2
  | .remove file => w.remove file
  | .updateSchema schema => w.updateSchema schema
  | .resetCaches => w.resetCaches
  | .reset => w.reset
  | .build => w.build.2

/-- The nodes of the artifacts that a call stores: a build stores them behind those that are there. -/
def stores (w : Workspace) : Call → List Node
  | .build => Assoc.keys ((w.buildStep.runOn w.state).2.store.drop w.state.store.length)
  | _ => []

/-- What happens to the artifact of a node. -/
inductive Event
  | built
  | discarded
deriving DecidableEq

/-- What a call does with the artifact of a node: it stores one, perhaps, and then discards the one that it stored or found. -/
def events (node : Node) (w : Workspace) (call : Call) : List Event :=
  List.replicate ((w.stores call).count node) .built ++
    if (node ∈ Assoc.keys w.state.store ∨ node ∈ w.stores call) ∧ node ∉ Assoc.keys (w.after call).state.store then
      [.discarded] else []

/-- What calls do with the artifact of a node, one after the other. -/
def history (node : Node) (w : Workspace) : List Call → List Event
  | [] => []
  | call :: rest => w.events node call ++ (w.after call).history node rest

/-! ## What calls store -/

/-- Whether it fails or not, a build keeps the artifacts that are there and stores others behind them, under nodes that have
none, with a message for each. -/
theorem storing_build (w : Workspace) : ∃ made, Storing [] w.state (w.buildStep.runOn w.state).2 made :=
  (rules_stores w.collecting.setup).builds.generateAll _ _ _ _

theorem stores_build {made : Store ArtifactKind} (h : Storing [] w.state (w.buildStep.runOn w.state).2 made) :
    w.stores .build = Assoc.keys made := by
  rw [stores, h.store, List.drop_left]

/-- A call stores artifacts under nodes that have none, each once. -/
theorem stores_fresh (w : Workspace) (call : Call) :
    (w.stores call).Nodup ∧ ∀ node ∈ w.stores call, node ∉ Assoc.keys w.state.store := by
  cases call with
  | build =>
    obtain ⟨made, hmade⟩ := w.storing_build
    rw [stores_build hmade]
    exact ⟨hmade.nodup, fun node hnode => (hmade.fresh node hnode).1⟩
  | add | update | remove | updateSchema | resetCaches | reset => exact ⟨List.nodup_nil, fun _ h => absurd h List.not_mem_nil⟩

/-- What is there after a call was there before or is stored by the call. -/
theorem mem_keys_after (w : Workspace) (call : Call) (h : node ∈ Assoc.keys (w.after call).state.store) :
    node ∈ Assoc.keys w.state.store ∨ node ∈ w.stores call := by
  obtain ⟨e, he, rfl⟩ := List.mem_map.1 h
  have hold : e ∈ w.state.store → e.1 ∈ Assoc.keys w.state.store := List.mem_map_of_mem
  cases call with
  | add documents =>
    obtain ⟨all, hall, -⟩ := w.add_documents documents
    rw [after, hall] at he
    exact .inl (hold he)
  | update documents => exact .inl (hold (mem_of_mem_update documents he))
  | remove file => exact .inl (hold (mem_of_mem_purge (w := { w with documents := Assoc.erase w.documents file }) he))
  | updateSchema | resetCaches | reset => cases he
  | build =>
    obtain ⟨made, hmade⟩ := w.storing_build
    rw [stores_build hmade]
    rcases hrun : w.buildStep.runOn w.state with ⟨e' | operations, s⟩
    · rw [after, build_eq, hrun] at he
      cases he
    · obtain ⟨journal, hbuild⟩ := build_done hrun
      rw [after, hbuild] at he
      have hstore := hmade.store
      rw [hrun] at hstore
      change e ∈ s.store at he
      rw [show s.store = w.state.store ++ made from hstore] at he
      exact (List.mem_append.1 he).imp hold List.mem_map_of_mem

/-! ## Histories -/

/-- A call leaves an artifact as it is, or discards it; if there is none, it may store one, and discard it then. -/
theorem events_cases (w : Workspace) (node : Node) (call : Call) :
    (w.events node call = [] ∧ (node ∈ Assoc.keys (w.after call).state.store ↔ node ∈ Assoc.keys w.state.store)) ∨
      w.events node call = [.discarded] ∨
      node ∉ Assoc.keys w.state.store ∧ (w.events node call = [.built, .discarded] ∨
        w.events node call = [.built] ∧ node ∈ Assoc.keys (w.after call).state.store) := by
  obtain ⟨hnodup, hfresh⟩ := w.stores_fresh call
  unfold events
  by_cases hstores : node ∈ w.stores call
  · rw [List.count_eq_one_of_mem hnodup hstores]
    refine .inr (.inr ⟨hfresh node hstores, ?_⟩)
    by_cases hkept : node ∈ Assoc.keys (w.after call).state.store
    · exact .inr ⟨by rw [if_neg fun h => h.2 hkept]; rfl, hkept⟩
    · exact .inl (by rw [if_pos ⟨.inr hstores, hkept⟩]; rfl)
  · rw [List.count_eq_zero_of_not_mem hstores]
    by_cases hgone : node ∈ Assoc.keys w.state.store ∧ node ∉ Assoc.keys (w.after call).state.store
    · exact .inr (.inl (by rw [if_pos ⟨.inl hgone.1, hgone.2⟩]; rfl))
    · refine .inl ⟨by rw [if_neg fun h => hgone ⟨h.1.resolve_right hstores, h.2⟩]; rfl, fun h => ?_, fun h => ?_⟩
      · exact (w.mem_keys_after call h).resolve_right hstores
      · exact not_not.1 fun hnot => hgone ⟨h, hnot⟩

/-- What built an artifact does so again only after the artifact was discarded. -/
theorem isChain_history (w : Workspace) (node : Node) (calls : List Call) :
    (w.history node calls).IsChain (fun a b => a = .built → b = .discarded) ∧
      (node ∈ Assoc.keys w.state.store → ∀ e ∈ (w.history node calls).head?, e = .discarded) := by
  induction calls generalizing w with
  | nil => exact ⟨List.isChain_nil, fun _ _ h => nomatch h⟩
  | cons call rest ih =>
    obtain ⟨hchain, hhead⟩ := ih (w.after call)
    have hdiscarded : (Event.discarded :: (w.after call).history node rest).IsChain (fun a b => a = .built → b = .discarded) :=
      hchain.cons fun _ _ => nofun
    rw [history]
    rcases w.events_cases node call with ⟨hevents, hkeys⟩ | hevents | ⟨hnone, hevents | ⟨hevents, hkept⟩⟩ <;> rw [hevents]
    · exact ⟨hchain, fun hnode => hhead (hkeys.2 hnode)⟩
    · exact ⟨hdiscarded, fun _ e he => (Option.some.inj he).symm⟩
    · exact ⟨hdiscarded.cons fun e he _ => (Option.some.inj he).symm, fun hnode => absurd hnode hnone⟩
    · exact ⟨hchain.cons fun e he _ => hhead hkept e he, fun hnode => absurd hnode hnone⟩

/-- Artifacts are built once.  What builds one leaves its node without an artifact, whatever it asks for itself, and is not
carried out when there is one; so all that a build stores is new, with one message for each, and no calls of a workspace make
an artifact be built to the end twice without its being discarded in between. -/
theorem artifacts_built_once :
    (∀ (c : Setup) (node : Node) (build : Step Draft), Builder c node build → ∀ given s, BuildsOnce node build given s) ∧
      (∀ w : Workspace, ∃ made, Storing [] w.state (w.buildStep.runOn w.state).2 made) ∧
      ∀ (w : Workspace) (node : Node) (calls : List Call),
        (w.history node calls).IsChain (fun a b => a = .built → b = .discarded) :=
  ⟨fun _ _ _ h given s => h.buildsOnce given s, storing_build, fun w node calls => (w.isChain_history node calls).1⟩

/-- What builds the input type `A`, which refers to `B`, which refers to `A`. -/
def buildA : Step Draft :=
  markingInput (.input "A") ((draft circularSetup.toConfig (.input "A")).perform circularSetup.cached
    (inputHost circularSetup (declare circularSetup ["A"])))

/-- While `A` is being built, `B` is stored and `A` is not. -/
theorem artifacts_built_once_circularInputs :
    let s := circularInputs.state
    let after := (buildA.runOn (opened none s)).2
    Assoc.get? s.store (.inputType, "A") = none ∧ Assoc.get? after.store (.inputType, "A") = none ∧
      Assoc.keys after.store = [(.inputType, "B"), (.enum, "E")] ∧
      (∃ draft o t, (artifact .inputType "A" none buildA).runOn s = (.ok draft.name, stored (.inputType, "A") draft o t after)) ∧
      (∃ made, Storing [] s (circularInputs.buildStep.runOn s).2 made) ∧
      (circularInputs.history (.inputType, "A") [.build, .build]).IsChain (fun a b => a = .built → b = .discarded) := by
  obtain ⟨honce, hstoring, hhistory⟩ := artifacts_built_once
  have hbuilds := honce circularSetup _ buildA (.input [] "A") none circularInputs.state
  have hnone : Assoc.get? circularInputs.state.store (.inputType, "A") = none := rfl
  have hkeys : Assoc.keys (buildA.runOn (opened none circularInputs.state)).2.store = [(.inputType, "B"), (.enum, "E")] := by
    decide +kernel
  have hok : (buildA.runOn (opened none circularInputs.state)).1.isOk = true := by decide +kernel
  obtain ⟨draft, s₁, hrun⟩ := eq_ok_of_isOk hok
  obtain rfl : (buildA.runOn (opened none circularInputs.state)).2 = s₁ := congrArg Prod.snd hrun
  exact ⟨hnone, hbuilds.unstored hnone, hkeys, ⟨draft, hbuilds.stored hnone draft _ hrun⟩, hstoring _, hhistory _ _ _⟩

end Workspace

end ResponseTypes
