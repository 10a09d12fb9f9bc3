import ResponseTypes.Proofs.Plan.Drafts
import ResponseTypes.Proofs.Plan.Making
import ResponseTypes.Compile.Input

/-!
# Declaring types

Declaring a type does what a run does (`follows_declare`), and so does what answers the plans of declared types.
-/

namespace ResponseTypes.Compile

set_option autoImplicit false

open GraphQL (TypeRef)

section Tags

variable {c : Sources} {late : TypeRef → Prop} {stack : Stack}

/-- Tags are all that is made for tags. -/
theorem Run.get?_of_tags {file : String} {p p' : Progress} {needs : List Need}
    (h : Run c late stack file p needs (.ok p')) (hneeds : ∀ n ∈ needs, ∃ t, n = .declared (.tag t)) (d : Declared)
    (hd : ∀ t, d ≠ .tag t) : Assoc.get? p' d.node = Assoc.get? p d.node := by
  generalize ho : Except.ok p' = o at h
  induction h with
  | nil =>
    cases ho
    rfl
  | later =>
    obtain ⟨t, ht⟩ := hneeds _ List.mem_cons_self
    cases ht
  | settled _ _ ih => exact ih (fun n hn => hneeds n (List.mem_cons_of_mem _ hn)) ho
  | circular | broken | lacking => cases ho
  | @built _ _ p p₁ p₂ n _ _ _ _ hinner hcomplete _ _ ih =>
    obtain ⟨t, rfl⟩ := hneeds _ List.mem_cons_self
    rw [ih (fun n hn => hneeds n (List.mem_cons_of_mem _ hn)) ho]
    have hnil : p₁ = p := by
      rw [Need.needs, needs_tagDraft] at hinner
      cases hinner
      rfl
    rcases Need.complete_eq hcomplete with ⟨-, rfl⟩ | ⟨node', piece, hn, -, rfl⟩
    · rw [hnil]
    · cases hn
      rw [hnil]
      cases hp : Assoc.get? p d.node with
      | none =>
        rw [Assoc.get?_append_right hp, Assoc.get?_cons, if_neg fun h => hd t (Declared.node_inj h).symm]
        rfl
      | some piece => exact Assoc.get?_append_left hp

end Tags

section Declare

variable {c : Setup} {late : TypeRef → Prop} {jobOf : String → Option Job} {stack : Stack}

/-- What answers the plan of a declared type. -/
theorem answers_inputHost {inner : Declared → Step Unit} {needs : List Need}
    (hneeds : ∀ n ∈ needs, (∃ d, n = .declared d) ∨ ∃ type, n = .code type)
    (hinner : ∀ d, (.declared d ∈ needs ∨ ∃ type, .code type ∈ needs ∧ .declared d ∈ (codePlan c.toConfig type).needs c.toSources) →
      ∀ codes, Follows c late jobOf { stack with codes } (inner d) [.declared d] (fun _ => .ok ())
        (fun _ => False)) :
    ∀ n ∈ needs, Answers c late jobOf stack (inputHost c inner) n := by
  intro n hn
  rcases hneeds n hn with ⟨d, rfl⟩ | ⟨type, rfl⟩
  · exact hinner d (Or.inl hn) stack.codes
  · refine follows_memoized ?_
    have hanswers : ∀ m ∈ (codePlan c.toConfig type).needs c.toSources,
        Answers c late jobOf ((Need.code type).push stack) (declaring inner) m := by
      intro m hm
      obtain ⟨d, rfl⟩ := declared_of_codePlan hm
      exact hinner d (Or.inr ⟨type, hn, hm⟩) _
    refine (follows_perform _ (Or.inr (codes_codePlan type)) hanswers fun name _ => follows_lack _ _).mono fun f => ?_
    rw [fragmentsIn_of_codes (codes_codePlan type)]
    exact ⟨Reached.nil, False.elim⟩

/-- Building the artifact of a declared type does what its run does. -/
theorem builds_draft {inner : Declared → Step Unit} {d : Declared}
    (hinner : ∀ d', d.Asks c.toSources d' → ∀ codes, Follows c late jobOf
      { (Need.declared d).push stack with codes } (inner d') [.declared d'] (fun _ => .ok ()) (fun _ => False))
    (hunmade : ∀ s : State, Sound c.toSources late jobOf ((Need.declared d).push stack) s →
      ∀ file p, Run c.toSources late ((Need.declared d).push stack) file p
        ((Need.declared d).needs c.toSources) (.ok s.progress) → Assoc.get? p d.node = none →
        Assoc.get? s.store d.node = none) :
    Builds c late jobOf stack (.declared d) d.node
      ((draft c.toConfig d).perform c.cached (inputHost c inner)) := by
  intro s hs hget
  have hcodes : (draft c.toConfig d).Codes := codes_draft d
  have hplan : Follows c late jobOf ((Need.declared d).push stack)
      ((draft c.toConfig d).perform c.cached (inputHost c inner)) _ _ _ :=
    follows_perform _ (Or.inr hcodes) (answers_inputHost (Plan.coded_of_codes hcodes) hinner)
      fun name _ => follows_lack _ _
  rcases hplan s hs with ⟨e, hr, he⟩ | ⟨p, hr, hrun⟩
  · exact Or.inl ⟨e, hr, he⟩
  · refine Or.inr ⟨p, hr, ?_⟩
    simp only [Need.complete]
    cases hout : (draft c.toConfig d).outcome c.toSources with
    | error e =>
      rw [hout] at hrun
      exact hrun
    | ok piece =>
      rw [hout] at hrun
      obtain ⟨s', hrun, rfl, hg, heff⟩ := hrun
      have hnone : Assoc.get? s'.store d.node = none := by
        refine hunmade s' hg.sound _ _ hr ?_
        rw [get?_progress, hget]
        rfl
      have hfields : s'.fieldsAt d.node = none := by
        cases d <;> rfl
      refine ⟨piece, s', hrun, rfl, by rw [hfields], hg, heff.mono fun f => ?_, hnone,
        fun name _ hname => absurd hname (d.node_ne_fragment name), fun name hname => ?_⟩
      · rw [fragmentsIn_of_codes hcodes, spreadsOf_declared]
      · exact absurd hname (d.node_ne_fragment name)

/-- A declared type that is not being made. -/
theorem startable_declared {d : Declared} (h : ∀ m ∈ stack.inputs, d ≠ .input m) : Startable stack (.declared d) where
  circular := id
  inputs m hm heq := h m hm (Need.declared.inj heq)
  fragments _ := Need.noConfusion

/-- What is true of building a type, marked or not, is true of building it if it is marked only as an input type. -/
theorem markingInput_of {P : Step Draft → Prop} {build : Step Draft}
    (hmarking : ∀ n, P build → P (marking State.inputMarksPart n build)) (d : Declared) (hbuild : P build) :
    P (markingInput d build) := by
  cases d with
  | input n => exact hmarking n hbuild
  | helper | tag | tagUnion | enum => exact hbuild

theorem follows_declareWith {inner : Declared → Step Unit} {d : Declared} (hd : ∀ m ∈ stack.inputs, d ≠ .input m)
    (hbuild : Builds c late jobOf stack (.declared d) d.node
      ((draft c.toConfig d).perform c.cached (inputHost c inner))) :
    Follows c late jobOf stack (declareWith c inner d) [.declared d] (fun _ => .ok ()) (fun _ => False) := by
  have hartifact : Follows c late jobOf stack (artifact d.kind d.key none
      (markingInput d ((draft c.toConfig d).perform c.cached (inputHost c inner)))) [.declared d] _ _ :=
    follows_artifact rfl (startable_declared hd) (fun _ => rfl)
      (fun m hm => absurd hm (input_notMem_draft d m)) (fun _ => Need.typed_declared _ d) (needOf_declared _ d)
      (markingInput_of (fun m h => h.marking (fun _ _ => ⟨rfl, rfl, rfl, rfl, rfl⟩) m) d hbuild)
  refine (hartifact.andThen (fun p => ⟨_, rfl⟩) fun _ _ _ => follows_pure ()).mono fun f => ?_
  rw [show (d.kind, d.key) = d.node from rfl, spreadsOf_declared]
  exact ⟨fun h => h.elim (fun h => Reached.nil h) id, False.elim⟩

/-- A type that refers to nothing. -/
theorem follows_declareWith_of_needs_nil {inner : Declared → Step Unit} {d : Declared}
    (hd : ∀ m ∈ stack.inputs, d ≠ .input m) (hneeds : (draft c.toConfig d).needs c.toSources = []) :
    Follows c late jobOf stack (declareWith c inner d) [.declared d] (fun _ => .ok ()) (fun _ => False) := by
  refine follows_declareWith hd (builds_draft (fun d' hd' => ?_) fun s _ file p hr hp => ?_)
  · rcases hd' with hd' | ⟨type, ht, -⟩
    · rw [hneeds] at hd'
      cases hd'
    · rw [hneeds] at ht
      cases ht
  · rw [Need.needs, hneeds] at hr
    cases hr
    rw [get?_progress, Option.map_eq_none_iff] at hp
    exact hp

theorem follows_declareFlat {d : Declared} (hd : ∀ m ∈ stack.inputs, d ≠ .input m)
    (hinput : ∀ n, d = .input n → c.schema.type? n = none) :
    Follows c late jobOf stack (declareFlat c d) [.declared d] (fun _ => .ok ()) (fun _ => False) := by
  cases d with
  | helper name => exact follows_declareWith_of_needs_nil hd rfl
  | tag name => exact follows_declareWith_of_needs_nil hd (needs_tagDraft name)
  | enum name => exact follows_declareWith_of_needs_nil hd (needs_enumDraft name)
  | input name => exact follows_declareWith_of_needs_nil hd (needs_of_unknown_input (hinput name rfl))
  | tagUnion name =>
    refine follows_declareWith hd (builds_draft (fun d' hd' codes => ?_) fun s _ file p hr hp => ?_)
    · rcases hd' with hd' | ⟨type, ht, -⟩
      · obtain ⟨t, ht⟩ := tag_of_needs_tagUnion hd'
        cases ht
        exact follows_declareWith_of_needs_nil (fun m _ => Declared.noConfusion) (needs_tagDraft t)
      · obtain ⟨t, ht⟩ := tag_of_needs_tagUnion ht
        cases ht
    · have := hr.get?_of_tags (fun n hn => tag_of_needs_tagUnion hn) (.tagUnion name) fun t => Declared.noConfusion
      rw [hp, get?_progress, Option.map_eq_none_iff] at this
      exact this

/-- Declaring a type on first reference does what a run does. -/
theorem follows_declare (building : List String) (d : Declared) {stack : Stack} (hstack : stack.inputs = building) :
    Follows c late jobOf stack (declare c building d) [.declared d] (fun _ => .ok ()) (fun _ => False) := by
  rw [declare.eq_def]
  cases d with
  | helper name | tag name | tagUnion name | enum name =>
    exact follows_declareFlat (fun _ _ => Declared.noConfusion) fun _ => Declared.noConfusion
  | input n =>
    dsimp only
    split
    · rename_i hb
      intro s hs
      obtain ⟨t, hadd, hmoves⟩ := Tracker.moves_addArtifact hs.tracked .inputType (c.naming.input n)
      refine Or.inr ⟨s.progress, .settled (Or.inl ⟨n, hstack ▸ hb, rfl⟩) .nil, _, runOn_add hadd, rfl, hs.moves hmoves,
        .of_eq hmoves rfl rfl fun m hm => ?_⟩
      cases List.mem_singleton.1 hm
      exact Or.inl ⟨n, hstack ▸ hb, rfl⟩
    · rename_i hb
      have hd : ∀ m ∈ stack.inputs, Declared.input n ≠ .input m := by
        rintro m hm heq
        cases heq
        exact hb (hstack ▸ hm)
      split
      · rename_i type htype
        have hless := remaining_cons_lt (Assoc.mem_keys_of_get? htype) hb
        refine follows_declareWith hd (builds_draft (fun d' _ codes => ?_) fun s hsound file p hr hp => ?_)
        · exact follows_declare (n :: building) d' (congrArg (n :: ·) hstack)
        · have := hsound.unmade.2 n (List.mem_cons_self)
          rw [Assoc.has] at this
          simpa using this
      · rename_i htype
        exact follows_declareFlat hd fun m hm => by
          cases hm
          exact htype
termination_by remaining (Assoc.keys c.schema.types) building
decreasing_by assumption

end Declare

end ResponseTypes.Compile
