import ResponseTypes.Inputs
import ResponseTypes.Proofs.Build.Permuted

/-!
# Calls that fail to register documents

All inputs are read before any is registered, so a call with one that cannot be read changes nothing
(`read_inputs`).  Documents that can be read are registered one at a time, and a call that fails at one of them has taken
those before it: it leaves what the call on these leaves (`failed_call_takes_those_before`).
-/

namespace ResponseTypes.Workspace

set_option autoImplicit false

open GraphQL (Document)

variable {w : Workspace} {documents : List (String × Document)} {inputs : List InputDocument} {e : Failure} {file : String}

/-! ## Reading -/

/-- Some text among the inputs is no document. -/
def Unreadable (inputs : List InputDocument) : Prop :=
  ∃ source, .text source ∈ inputs ∧ Document.read source = none

theorem read_eq_error {i : InputDocument} :
    i.read = .error e ↔ e = .documentSyntax ∧ ∃ source, i = .text source ∧ Document.read source = none := by
  cases i with
  | text source =>
    rw [InputDocument.read]
    cases hread : Document.read source with
    | none => simp [hread, eq_comm]
    | some d => simp [hread]
  | document d => simp [InputDocument.read]
  | file path d => simp [InputDocument.read]

/-- Inputs are read unless one of them cannot be. -/
theorem read_inputs (inputs : List InputDocument) :
    (Unreadable inputs ∧ inputs.mapM InputDocument.read = .error .documentSyntax) ∨
      ¬Unreadable inputs ∧ ∃ documents, inputs.mapM InputDocument.read = .ok documents := by
  induction inputs with
  | nil => exact Or.inr ⟨by simp [Unreadable], [], rfl⟩
  | cons i rest ih =>
    rw [List.mapM_cons]
    cases hread : i.read with
    | error e =>
      obtain ⟨rfl, source, rfl, hnone⟩ := read_eq_error.1 hread
      exact Or.inl ⟨⟨source, List.mem_cons_self, hnone⟩, rfl⟩
    | ok d =>
      rcases ih with ⟨⟨source, hmem, hnone⟩, herror⟩ | ⟨hreadable, documents, hok⟩
      · exact Or.inl ⟨⟨source, List.mem_cons_of_mem _ hmem, hnone⟩, by rw [herror]; rfl⟩
      · refine Or.inr ⟨?_, d :: documents, by rw [hok]; rfl⟩
        rintro ⟨source, hmem, hnone⟩
        rcases List.mem_cons.1 hmem with rfl | hmem
        · cases hread.symm.trans (read_eq_error.2 ⟨rfl, source, rfl, hnone⟩)
        · exact hreadable ⟨source, hmem, hnone⟩

/-! ## Registering -/

/-- Documents that are all added stand after those there were, in their order. -/
theorem add_eq_append {w' : Workspace} (h : w.add documents = (.ok (), w')) :
    w' = { w with documents := w.documents ++ documents } := by
  induction documents generalizing w with
  | nil =>
    cases h
    rw [List.append_nil]
  | cons e rest ih =>
    obtain ⟨file, d⟩ := e
    rw [add] at h
    split at h
    · cases h
    · rename_i hnew
      have hget : Assoc.get? w.documents file = none := by simpa [Assoc.has] using hnew
      rw [ih h, Compile.insert_eq_append hget, List.append_assoc, List.singleton_append]

/-- Adding fails at a document whose file is registered, after those before it were added. -/
theorem add_fails (h : (w.add documents).1 = .error e) :
    ∃ before file d after, documents = before ++ (file, d) :: after ∧ e = .duplicateDocument file ∧
      w.add before = (.ok (), (w.add documents).2) ∧ file ∈ Assoc.keys (w.add documents).2.documents := by
  induction documents generalizing w with
  | nil => cases h
  | cons first rest ih =>
    obtain ⟨file, d⟩ := first
    rw [add] at h ⊢
    split at h
    · rename_i hhas
      rw [if_pos hhas]
      cases h
      exact ⟨[], file, d, rest, rfl, rfl, rfl, Assoc.has_iff.1 hhas⟩
    · rename_i hnew
      rw [if_neg hnew]
      obtain ⟨before, file', d', after, hrest, he, hadd, hmem⟩ := ih h
      refine ⟨(file, d) :: before, file', d', after, by rw [hrest, List.cons_append], he, ?_, hmem⟩
      rw [add, if_neg hnew, hadd]

/-- Documents that are all replaced were there, and the files stay as they are. -/
theorem update_eq_keys {w' : Workspace} (h : w.update documents = (.ok (), w')) :
    (∀ e ∈ documents, e.1 ∈ Assoc.keys w.documents) ∧ Assoc.keys w'.documents = Assoc.keys w.documents := by
  induction documents generalizing w with
  | nil =>
    cases h
    exact ⟨fun _ he => absurd he List.not_mem_nil, rfl⟩
  | cons first rest ih =>
    obtain ⟨file, d⟩ := first
    rw [update] at h
    split at h
    · rename_i hhas
      have hmem := Assoc.has_iff.1 hhas
      obtain ⟨journal, hpurge⟩ := w.purge_eq file
      obtain ⟨hrest, hkeys⟩ := ih h
      have hinsert : Assoc.keys (Assoc.insert (w.purge file).documents file d) = Assoc.keys w.documents := by
        rw [hpurge, Assoc.keys_insert, if_pos hmem]
      dsimp only at hrest hkeys
      rw [hinsert] at hrest hkeys
      exact ⟨List.forall_mem_cons.2 ⟨hmem, hrest⟩, hkeys⟩
    · cases h

/-- Replacing fails at a document whose file is not registered, after those before it were replaced. -/
theorem update_fails (h : (w.update documents).1 = .error e) :
    ∃ before file d after, documents = before ++ (file, d) :: after ∧ e = .breach .updateUnknown (some file) ∧
      w.update before = (.ok (), (w.update documents).2) ∧ file ∉ Assoc.keys (w.update documents).2.documents := by
  induction documents generalizing w with
  | nil => cases h
  | cons first rest ih =>
    obtain ⟨file, d⟩ := first
    rw [update] at h ⊢
    split at h
    · rename_i hhas
      rw [if_pos hhas]
      obtain ⟨before, file', d', after, hrest, he, hupdate, hmem⟩ := ih h
      refine ⟨(file, d) :: before, file', d', after, by rw [hrest, List.cons_append], he, ?_, hmem⟩
      rw [update, if_pos hhas]
      exact hupdate
    · rename_i hnew
      rw [if_neg hnew]
      cases h
      exact ⟨[], file, d, rest, rfl, rfl, rfl, mt Assoc.has_iff.2 hnew⟩

/-! ## Calls that fail -/

/-- A call that fails at a document takes those before it and leaves it at that; one with an input that cannot be read
changes nothing. -/
theorem failed_call_takes_those_before (w : Workspace) (inputs : List InputDocument) :
    (Unreadable inputs → w.addInputs inputs = (.error .documentSyntax, w) ∧
      w.updateInputs inputs = (.error .documentSyntax, w)) ∧
    (∀ e w', w.addInputs inputs = (.error e, w') → ¬Unreadable inputs →
      ∃ before file d after, inputs.mapM InputDocument.read = .ok (before ++ (file, d) :: after) ∧
        e = .duplicateDocument file ∧ file ∈ Assoc.keys w'.documents ∧ w.add before = (.ok (), w') ∧
        w' = { w with documents := w.documents ++ before }) ∧
    (∀ e w', w.updateInputs inputs = (.error e, w') → ¬Unreadable inputs →
      ∃ before file d after, inputs.mapM InputDocument.read = .ok (before ++ (file, d) :: after) ∧
        e = .breach .updateUnknown (some file) ∧ file ∉ Assoc.keys w'.documents ∧ w.update before = (.ok (), w') ∧
        (before = [] → w' = w) ∧ Assoc.keys w'.documents = Assoc.keys w.documents) := by
  rcases read_inputs inputs with ⟨hun, hread⟩ | ⟨hreadable, documents, hread⟩
  · refine ⟨fun _ => ?_, fun _ _ _ h => absurd hun h, fun _ _ _ h => absurd hun h⟩
    rw [addInputs, updateInputs, hread]
    exact ⟨rfl, rfl⟩
  · refine ⟨fun h => absurd h hreadable, fun e w' h _ => ?_, fun e w' h _ => ?_⟩
    · rw [addInputs, hread] at h
      dsimp only at h
      obtain ⟨before, file, d, after, hdocuments, he, hadd, hmem⟩ := add_fails (congrArg Prod.fst h)
      rw [h] at hadd hmem
      exact ⟨before, file, d, after, hread.trans (congrArg _ hdocuments), he, hmem, hadd, add_eq_append hadd⟩
    · rw [updateInputs, hread] at h
      dsimp only at h
      obtain ⟨before, file, d, after, hdocuments, he, hupdate, hmem⟩ := update_fails (congrArg Prod.fst h)
      rw [h] at hupdate hmem
      refine ⟨before, file, d, after, hread.trans (congrArg _ hdocuments), he, hmem, hupdate, ?_, (update_eq_keys hupdate).2⟩
      rintro rfl
      cases hupdate
      rfl

/-- A schema with one object type. -/
def bookSchema : Schema where
  types := [("Book", ⟨"Book", .object [] [⟨"id", .named "ID", [], none⟩], none⟩), ("ID", ⟨"ID", .scalar, none⟩)]
  roots := []
  keyed := by decide

/-- A fragment in one document, and an operation without a name in another. -/
def bookDocuments : List (String × Document) :=
  [("a", ⟨[.fragment ⟨"F", "Book", [], [.field ⟨none, "id", [], []⟩ []], none⟩]⟩),
    ("b", ⟨[.operation ⟨.query, none, [], [], [.field ⟨none, "id", [], []⟩ []], none⟩]⟩)]

/-- A query without a name, of the id of a book. -/
def bookQuery : Document := ⟨[.operation ⟨.query, none, [], [], [.field ⟨none, "id", [], []⟩ []], none⟩]⟩

/-- The query for a file twice, and for a file that is there and one that is not. -/
def queryTwice : List InputDocument := [.file "a" bookQuery, .file "a" bookQuery]

def queryForBoth : List InputDocument := [.file "a" bookQuery, .file "b" bookQuery]

/-- A workspace with the document of a fragment. -/
def bookWorkspace : Workspace :=
  { new bookSchema {} with documents := bookDocuments.take 1 }

theorem failed_call_takes_those_before_book :
    Unreadable [.text "("] ∧
      (bookWorkspace.addInputs [.text "("] = (.error .documentSyntax, bookWorkspace) ∧
        bookWorkspace.updateInputs [.text "("] = (.error .documentSyntax, bookWorkspace)) ∧
    ((new bookSchema {}).addInputs queryTwice).1 = .error (.duplicateDocument "a") ∧ ¬Unreadable queryTwice ∧
      (∃ before file d after, queryTwice.mapM InputDocument.read = .ok (before ++ (file, d) :: after) ∧
        Failure.duplicateDocument "a" = .duplicateDocument file ∧
        file ∈ Assoc.keys ((new bookSchema {}).addInputs queryTwice).2.documents ∧
        (new bookSchema {}).add before = (.ok (), ((new bookSchema {}).addInputs queryTwice).2) ∧
        ((new bookSchema {}).addInputs queryTwice).2 =
          { new bookSchema {} with documents := (new bookSchema {}).documents ++ before }) ∧
    (bookWorkspace.updateInputs queryForBoth).1 = .error (.breach .updateUnknown (some "b")) ∧ ¬Unreadable queryForBoth ∧
      ∃ before file d after, queryForBoth.mapM InputDocument.read = .ok (before ++ (file, d) :: after) ∧
        Failure.breach .updateUnknown (some "b") = .breach .updateUnknown (some file) ∧
        file ∉ Assoc.keys (bookWorkspace.updateInputs queryForBoth).2.documents ∧
        bookWorkspace.update before = (.ok (), (bookWorkspace.updateInputs queryForBoth).2) ∧
        (before = [] → (bookWorkspace.updateInputs queryForBoth).2 = bookWorkspace) ∧
        Assoc.keys (bookWorkspace.updateInputs queryForBoth).2.documents = Assoc.keys bookWorkspace.documents := by
  have hun : Unreadable [.text "("] := ⟨"(", List.mem_singleton_self _, by cbv⟩
  have htwice : ¬Unreadable queryTwice := by simp [Unreadable, queryTwice]
  have hboth : ¬Unreadable queryForBoth := by simp [Unreadable, queryForBoth]
  exact ⟨hun, (failed_call_takes_those_before bookWorkspace _).1 hun, rfl, htwice,
    (failed_call_takes_those_before (new bookSchema {}) queryTwice).2.1 _ _ rfl htwice, rfl, hboth,
    (failed_call_takes_those_before bookWorkspace queryForBoth).2.2 _ _ rfl hboth⟩

/-- Calls that fail are not all or nothing: the first document is registered, or replaced, all the same. -/
theorem failed_calls_change_documents :
    ((new bookSchema {}).addInputs queryTwice).1 = .error (.duplicateDocument "a") ∧
      ((new bookSchema {}).addInputs queryTwice).2.documents ≠ (new bookSchema {}).documents ∧
      (bookWorkspace.updateInputs queryForBoth).1 = .error (.breach .updateUnknown (some "b")) ∧
        (bookWorkspace.updateInputs queryForBoth).2.documents ≠ bookWorkspace.documents :=
  ⟨rfl, by decide, rfl, by decide⟩

end ResponseTypes.Workspace
