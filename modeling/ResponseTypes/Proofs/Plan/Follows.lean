import ResponseTypes.Proofs.Plan.Effect

/-!
# Carrying out a plan follows its run

`Follows act needs out U` : in every good state the step `act` does what a run does that meets `needs`; it fails if the
run does, or if `out` tells that something is lacking, and else it gives the result that `out` tells and notes the use of
the fragments in `U`.  Plans are followed (`perform_follows`), whether shapes are kept or not.
-/

namespace ResponseTypes.Compile

set_option autoImplicit false

open GraphQL (Selection TypeDef TypeRef)
open Dependency (fragmentsUsed)

section Follows

variable (c : Setup) (late : TypeRef → Prop) (jobOf : String → Option Job)

/-- What carrying out a step that meets needs comes to in a state. -/
def FollowsAt {α : Type} (stack : Stack) (act : Step α) (needs : List Need) (out : Progress → Except Lack α)
    (U : String → Prop) (s : State) : Prop :=
  (∃ e, Run c.toSources late stack s.tracker.currentFile s.progress needs (.error e) ∧ (act.runOn s).1 = .error e) ∨
  ∃ p, Run c.toSources late stack s.tracker.currentFile s.progress needs (.ok p) ∧
    match out p with
    | .error e => (act.runOn s).1 = .error (e (some s.tracker.currentFile))
    | .ok a => ∃ s', act.runOn s = (.ok a, s') ∧ s'.progress = p ∧ Good c.toSources late jobOf stack s' ∧
        Effect c jobOf stack U needs s s'

/-- A step does what a run does. -/
def Follows {α : Type} (stack : Stack) (act : Step α) (needs : List Need) (out : Progress → Except Lack α)
    (U : String → Prop) : Prop :=
  ∀ s, Good c.toSources late jobOf stack s → FollowsAt c late jobOf stack act needs out U s

end Follows

variable {c : Setup} {late : TypeRef → Prop} {jobOf : String → Option Job} {stack : Stack} {α β : Type}

theorem runOn_eq_of_fst {act : Step α} {s : State} {e : Failure} (h : (act.runOn s).1 = .error e) :
    ∃ s', act.runOn s = (.error e, s') :=
  ⟨(act.runOn s).2, Prod.ext h rfl⟩

theorem Follows.mono {act : Step α} {needs : List Need} {out : Progress → Except Lack α} {U V : String → Prop}
    (h : Follows c late jobOf stack act needs out U) (hU : ∀ f, U f ↔ V f) :
    Follows c late jobOf stack act needs out V := by
  intro s hs
  rcases h s hs with h | ⟨p, hr, h⟩
  · exact Or.inl h
  · refine Or.inr ⟨p, hr, ?_⟩
    cases hout : out p with
    | error e => simpa [hout] using h
    | ok a =>
      simp only [hout] at h ⊢
      obtain ⟨s', h1, h2, h3, h4⟩ := h
      exact ⟨s', h1, h2, h3, h4.mono hU⟩

theorem follows_pure (a : α) : Follows c late jobOf stack (pure a) [] (fun _ => .ok a) (fun _ => False) :=
  fun s hs => Or.inr ⟨_, .nil, s, rfl, rfl, hs, Effect.refl s⟩

theorem follows_lack (e : Lack) (U : String → Prop) :
    Follows c late jobOf stack (Tracking.failHere e : Step α) [] (fun _ => .error e) U :=
  fun _ _ => Or.inr ⟨_, .nil, rfl⟩

/-- One step after another one that does not fail after its run. -/
theorem FollowsAt.andThen {act : Step α} {f : α → Step β} {needs more : List Need} {first : Progress → Except Lack α}
    {out : Progress → Except Lack β} {U V : String → Prop} {s : State}
    (h : FollowsAt c late jobOf stack act needs first U s) (hfirst : ∀ p, ∃ a, first p = .ok a)
    (hf : ∀ a p, first p = .ok a → ∀ s₁, Good c.toSources late jobOf stack s₁ →
      (∀ node b, Assoc.get? s.store node = some b → Assoc.get? s₁.store node = some b) →
      FollowsAt c late jobOf stack (f a) more out V s₁) :
    FollowsAt c late jobOf stack (act >>= f) (needs ++ more) out (fun x => U x ∨ V x) s := by
  rcases h with ⟨e, hr, he⟩ | ⟨p, hr, hrun⟩
  · obtain ⟨s', hs'⟩ := runOn_eq_of_fst he
    exact Or.inl ⟨e, hr.append_error, by rw [runOn_bind, hs']⟩
  · obtain ⟨a, ha⟩ := hfirst p
    rw [ha] at hrun
    obtain ⟨s₁, h₁, hp, hg, heff⟩ := hrun
    have hrun : (act >>= f).runOn s = (f a).runOn s₁ := by rw [runOn_bind, h₁]
    have hfile := heff.moves.file
    unfold FollowsAt
    rw [hrun]
    rcases hf a p ha s₁ hg heff.kept.store with ⟨e, hr', he⟩ | ⟨p', hr', h'⟩
    · rw [hfile, hp] at hr'
      exact Or.inl ⟨e, hr.append hr', he⟩
    · rw [hfile, hp] at hr'
      refine Or.inr ⟨p', hr.append hr', ?_⟩
      cases hout : out p' with
      | error e =>
        rw [hout, hfile] at h'
        exact h'
      | ok b =>
        rw [hout] at h'
        obtain ⟨s₂, h₂, hp₂, hg₂, heff₂⟩ := h'
        exact ⟨s₂, h₂, hp₂, hg₂, heff.trans heff₂ hg.sound.unmade.2⟩

theorem Follows.andThen {act : Step α} {f : α → Step β} {needs more : List Need} {first : Progress → Except Lack α}
    {out : Progress → Except Lack β} {U V : String → Prop} (h : Follows c late jobOf stack act needs first U)
    (hfirst : ∀ p, ∃ a, first p = .ok a) (hf : ∀ a p, first p = .ok a → Follows c late jobOf stack (f a) more out V) :
    Follows c late jobOf stack (act >>= f) (needs ++ more) out (fun x => U x ∨ V x) :=
  fun s hs => (h s hs).andThen hfirst fun a p ha s₁ hs₁ _ => hf a p ha s₁ hs₁

theorem Follows.bind {act : Step α} {f : α → Step β} {needs more : List Need} {a : α} {out : Progress → Except Lack β}
    {U V : String → Prop} (h : Follows c late jobOf stack act needs (fun _ => .ok a) U)
    (hf : Follows c late jobOf stack (f a) more out V) :
    Follows c late jobOf stack (act >>= f) (needs ++ more) out (fun x => U x ∨ V x) := by
  refine h.andThen (fun _ => ⟨a, rfl⟩) fun b _ hb => ?_
  cases hb
  exact hf

theorem Follows.bind_error {act : Step α} {f : α → Step β} {needs : List Need} {e : Lack} {U : String → Prop}
    (h : Follows c late jobOf stack act needs (fun _ => .error e) U) (V : String → Prop) :
    Follows c late jobOf stack (act >>= f) needs (fun _ => .error e) V := by
  intro s hs
  rcases h s hs with ⟨e, hr, he⟩ | ⟨p, hr, he⟩
  · obtain ⟨s', hs'⟩ := runOn_eq_of_fst he
    exact Or.inl ⟨e, hr, by rw [runOn_bind, hs']⟩
  · obtain ⟨s', hs'⟩ := runOn_eq_of_fst he
    exact Or.inr ⟨p, hr, by rw [runOn_bind, hs']⟩

/-- Changes of counts and of the journal do not matter. -/
theorem follows_modify {γ : Type} (part : Part State γ) (f : γ → γ)
    (h : ∀ s : State, (part.set (f (part.get s)) s).store = s.store ∧
      (part.set (f (part.get s)) s).fieldMaps = s.fieldMaps ∧
      (part.set (f (part.get s)) s).shapes.entries = s.shapes.entries ∧
      (part.set (f (part.get s)) s).inputs.entries = s.inputs.entries ∧
      (part.set (f (part.get s)) s).tracker = s.tracker) :
    Follows c late jobOf stack (part.modify f) [] (fun _ => .ok ()) (fun _ => False) := by
  intro s hs
  obtain ⟨hstore, hmaps, hshapes, hinputs, htracker⟩ := h s
  refine Or.inr ⟨_, .nil, _, rfl, ?_, ⟨hs.sound.congr hstore hmaps hshapes hinputs (by rw [htracker]), ?_⟩, ?_⟩
  · simp only [State.progress, State.fieldsAt, hstore, hmaps]
  · rw [htracker]
    exact hs.tracked
  · refine Effect.of_eq ?_ hstore hinputs fun _ hn => absurd hn List.not_mem_nil
    rw [htracker]
    exact Tracker.Moves.refl _

theorem follows_count (thing : String) :
    Follows c late jobOf stack (count thing) [] (fun _ => .ok ()) (fun _ => False) :=
  follows_modify _ _ fun _ => ⟨rfl, rfl, rfl, rfl, rfl⟩

/-! ## Scopes of their own -/

/-- A scope of its own was opened in the first state with the given file and closed in the second, which gave the keys
and the last tracker. -/
structure Finished (s s₂ : State) (given : Option String) (U : String → Prop) (keys : List String) (t : Tracker) :
    Prop where
  moves : s.tracker.Moves U t
  used : ∀ f, f ∈ fragmentsUsed keys ↔ U f
  recorded : ∀ s' : State, s'.tracker = t → Recorded s' ⟨Tracker.fileAfter s.tracker.currentFile given, keys⟩
  covers : ∀ o, s₂.tracker.enabled → Recorded s₂ o → Covers ⟨Tracker.fileAfter s.tracker.currentFile given, keys⟩ o

/-- What was done in a scope of its own is noted by the scopes around it when it is closed. -/
theorem finished_of_moves {s s₁ s₂ : State} {given : Option String} {U : String → Prop} (hs : s.tracker.Scoped)
    (htracker : s₁.tracker = s.tracker.start given) (hm : s₁.tracker.Moves U s₂.tracker) :
    ∃ keys t, s₂.tracker.finish = .ok (keys, t) ∧ Finished s s₂ given U keys t := by
  rw [htracker] at hm
  obtain ⟨top, keys, t, htop, hfinish, hmoves, hused, hkeys, hcovers⟩ := Tracker.moves_finish hs hm
  refine ⟨keys, t, hfinish, hmoves, hused, ?_, ?_⟩
  · intro s' hs' henabled scope hscope
    rw [hs', hmoves.enabled] at henabled
    exact hcovers henabled scope (hs' ▸ hscope)
  · intro o henabled ho file hne hdep
    have hmem : top ∈ s₂.tracker.scopes := List.mem_of_mem_head? htop
    simp only [Origin.dependsOn, Bool.or_eq_true, List.contains_iff_mem]
    exact Or.inr (hkeys _ (ho henabled top hmem file hne hdep))

/-! ## Memos -/

section Memo

variable {κ : Type} [DecidableEq κ] {memo : Part State (Memo κ α)} {key : κ} {compute : Step α} {s : State}

/-- The state in which a result that is not in a memo is computed. -/
def missed (memo : Part State (Memo κ α)) (s : State) : State :=
  let s := memo.set { memo.get s with misses := (memo.get s).misses + 1 } s
  { s with tracker := s.tracker.start none }

/-- The state after a result was computed and kept. -/
def keptIn (memo : Part State (Memo κ α)) (key : κ) (a : α) (o : Origin) (t : Tracker) (s : State) : State :=
  let s := { s with tracker := t }
  memo.set { memo.get s with entries := Assoc.insert (memo.get s).entries key (a, o) } s

theorem runOn_memoized_hit {a : α} {o : Origin} {t : Tracker} (h : Assoc.get? (memo.get s).entries key = some (a, o))
    (ht : (memo.set { memo.get s with hits := (memo.get s).hits + 1 } s).tracker.merge o.keys (some o.file) = .ok t) :
    (Memo.memoized memo true key compute).runOn s =
      (.ok a, { memo.set { memo.get s with hits := (memo.get s).hits + 1 } s with tracker := t }) := by
  unfold Memo.memoized
  simp only [Bool.not_true, Bool.false_eq_true, if_false]
  rw [runOn_bind, runOn_read]
  simp only [h]
  rw [runOn_bind, runOn_modify]
  dsimp only
  rw [runOn_bind, runOn_merge ht]
  rfl

theorem runOn_memoized_miss (h : Assoc.get? (memo.get s).entries key = none) :
    (Memo.memoized memo true key compute).runOn s = (do
      let a ← compute
      let keys ← Tracking.finish
      memo.modify (fun m =>
        { m with entries := Assoc.insert m.entries key (a, ⟨(missed memo s).tracker.currentFile, keys⟩) })
      return a : Step α).runOn (missed memo s) := by
  unfold Memo.memoized
  simp only [Bool.not_true, Bool.false_eq_true, if_false]
  rw [runOn_bind, runOn_read]
  simp only [h]
  rw [runOn_bind, runOn_modify]
  dsimp only
  rw [runOn_bind, runOn_start]
  dsimp only
  rw [runOn_bind, runOn_currentFile]
  rfl

theorem runOn_memoized_error {e : Failure} {s₂ : State} (h : Assoc.get? (memo.get s).entries key = none)
    (hc : compute.runOn (missed memo s) = (.error e, s₂)) :
    (Memo.memoized memo true key compute).runOn s = (.error e, s₂) := by
  rw [runOn_memoized_miss h, runOn_bind, hc]

theorem runOn_memoized_ok {a : α} {s₂ : State} {keys : List String} {t : Tracker}
    (h : Assoc.get? (memo.get s).entries key = none) (hc : compute.runOn (missed memo s) = (.ok a, s₂))
    (ht : s₂.tracker.finish = .ok (keys, t)) :
    (Memo.memoized memo true key compute).runOn s =
      (.ok a, keptIn memo key a ⟨(missed memo s).tracker.currentFile, keys⟩ t s₂) := by
  rw [runOn_memoized_miss h, runOn_bind, hc]
  dsimp only
  rw [runOn_bind, runOn_finish ht]
  rfl

end Memo

/-- Keeping the shape of a selection does what compiling it does. -/
theorem follows_shape (cached : Bool) {typeName : String} {sels : List Selection} {t : TypeDef} {body : Plan Shape}
    {act : Step Shape} (ht : c.schema.type? typeName = some t)
    (hsel : selection c.toConfig t sels = .keep typeName sels body .done) (hkeeps : body.Keeps c.toSources)
    (hinputs : stack.inputs = [])
    (h : Follows c late jobOf stack act (body.needs c.toSources) (fun _ => body.outcome c.toSources)
      (Reached c.toSources (fragmentsIn (body.needs c.toSources)))) :
    Follows c late jobOf stack (Memo.memoized State.shapesPart cached (typeName, sels) act) (body.needs c.toSources)
      (fun _ => body.outcome c.toSources) (Reached c.toSources (fragmentsIn (body.needs c.toSources))) := by
  cases cached with
  | false => exact h
  | true =>
    have hout : (selection c.toConfig t sels).outcome c.toSources = body.outcome c.toSources := by
      rw [hsel]
      simp only [Plan.outcome]
      cases body.outcome c.toSources <;> rfl
    have hneeds : (selection c.toConfig t sels).needs c.toSources = body.needs c.toSources := by
      rw [hsel]
      simp only [Plan.needs]
      cases body.outcome c.toSources <;> simp
    intro s hs
    cases he : Assoc.get? s.shapes.entries (typeName, sels) with
    | some entry =>
      obtain ⟨shape, o⟩ := entry
      obtain ⟨hok, hbacked, huses⟩ := hs.sound.shapes typeName sels shape o he t ht
      rw [hout] at hok
      rw [hneeds] at hbacked huses
      obtain ⟨t', hmerge, hmoves, hcovers⟩ := Tracker.moves_merge hs.tracked o
      refine Or.inr ⟨_, Run.of_done fun n hn => (hbacked n hn).done, ?_⟩
      rw [hok]
      refine ⟨_, runOn_memoized_hit he hmerge, rfl, ?_, .of_eq (hmoves.mono huses) rfl rfl fun n hn => ?_⟩
      · exact ⟨hs.sound.congr rfl rfl rfl rfl hmoves.enabled, hmoves.scoped hs.tracked⟩
      · exact (hbacked n hn).recorded ⟨hmoves.enabled, fun _ _ h => h⟩ fun henabled => hcovers (hmoves.enabled ▸ henabled)
    | none =>
      have hs₀ : Good c.toSources late jobOf stack (missed State.shapesPart s) :=
        ⟨hs.sound.congr rfl rfl rfl rfl rfl, Tracker.scoped_start _ _⟩
      rcases h _ hs₀ with ⟨e, hr, hrun⟩ | ⟨p, hr, hrun⟩
      · obtain ⟨s₂, hrun⟩ := runOn_eq_of_fst hrun
        exact Or.inl ⟨e, hr, by rw [runOn_memoized_error he hrun]⟩
      · refine Or.inr ⟨p, hr, ?_⟩
        cases hok : body.outcome c.toSources with
        | error e =>
          rw [hok] at hrun
          obtain ⟨s₂, hrun⟩ := runOn_eq_of_fst hrun
          exact congrArg Prod.fst (runOn_memoized_error he hrun)
        | ok shape =>
          rw [hok] at hrun
          obtain ⟨s₂, hrun, rfl, hg, heff⟩ := hrun
          have hstart : (missed State.shapesPart s).tracker = s.tracker.start none := rfl
          obtain ⟨keys, t', hfinish, hf⟩ := finished_of_moves hs.tracked hstart heff.moves
          have hbacked := fun n hn => heff.selected_backed hf.covers (fun _ _ => hinputs) n hn
            (Plan.selected_of_keeps hkeeps n hn)
          have hen : t'.enabled = s₂.tracker.enabled := hf.moves.enabled.trans heff.moves.enabled.symm
          refine ⟨_, runOn_memoized_ok he hrun hfinish, rfl, ⟨?_, hf.moves.scoped hs.tracked⟩, hf.moves,
            ⟨⟨hf.moves.enabled, heff.kept.store⟩, heff.kept.codes⟩, fun n hn => ?_, fun hout =>
              (heff.grows hout).congr rfl rfl rfl rfl rfl rfl hen⟩
          · have hkept : Sound c.toSources late jobOf stack { s₂ with tracker := t' } := hg.sound.congr rfl rfl rfl rfl hen
            refine { hkept with
              distinct := { hkept.distinct with shapes := Assoc.nodup_keys_insert hkept.distinct.shapes _ _ }
              made := fun node a ha => (hkept.made node a ha).congr rfl rfl rfl rfl
              shapes := fun typeName' sels' shape' o' he' t₁ ht₁ => ?_ }
            change Assoc.get? (Assoc.insert s₂.shapes.entries _ _) _ = _ at he'
            rw [Assoc.get?_insert] at he'
            split at he'
            · rename_i hkey
              cases hkey
              cases he'
              cases ht.symm.trans ht₁
              exact ⟨hout.trans hok, fun n hn => (hbacked n (hneeds ▸ hn)).congr (fun _ _ h => h) hen, hneeds ▸ hf.used⟩
            · exact hkept.shapes typeName' sels' shape' o' he' t₁ ht₁
          · exact (hbacked n hn).recorded ⟨hen, fun _ _ h => h⟩ (hf.recorded _ rfl)

/-- What is settled makes no progress. -/
theorem Run.of_settled {file : String} {p : Progress} {needs : List Need} {o : Except Failure Progress}
    (h : Run c.toSources late stack file p needs o)
    (hs : ∀ n ∈ needs, n.Settled c.toSources stack p ∧ ∀ type, n ≠ .code type) : o = .ok p := by
  induction h with
  | nil => rfl
  | later => exact absurd rfl ((hs _ List.mem_cons_self).2 _)
  | settled _ _ ih => exact ih fun n hn => hs n (List.mem_cons_of_mem _ hn)
  | circular hn | broken hn | lacking hn | built hn => exact absurd (hs _ List.mem_cons_self).1 hn

/-- Meeting a type expression. -/
theorem Run.code {file : String} {p p' : Progress} {type : TypeRef} {text : String}
    (h : Run c.toSources late ((Need.code type).push stack) file p ((Need.code type).needs c.toSources) (.ok p'))
    (hout : (codePlan c.toConfig type).outcome c.toSources = .ok text) :
    Run c.toSources late stack file p [.code type] (.ok p') := by
  by_cases hset : (Need.code type).Settled c.toSources stack p
  · have hall : ∀ n ∈ (Need.code type).needs c.toSources,
        n.Settled c.toSources ((Need.code type).push stack) p ∧ ∀ type, n ≠ .code type := by
      intro n hn
      obtain ⟨d, rfl⟩ := declared_of_codePlan hn
      exact ⟨hset.2 d hn, fun _ => Need.noConfusion⟩
    cases h.of_settled hall
    exact .settled hset .nil
  · refine .built hset id h ?_ .nil
    simp only [Need.complete, hout]
    rfl

theorem Run.code_error {file : String} {p : Progress} {type : TypeRef} {e : Failure}
    (h : Run c.toSources late ((Need.code type).push stack) file p ((Need.code type).needs c.toSources) (.error e)) :
    Run c.toSources late stack file p [.code type] (.error e) := by
  refine .broken (fun hset => ?_) id h
  have := h.of_settled fun n hn => by
    obtain ⟨d, rfl⟩ := declared_of_codePlan hn
    exact ⟨hset.2 d hn, fun _ => Need.noConfusion⟩
  cases this

theorem Run.code_lacking {file : String} {p p' : Progress} {type : TypeRef} {e : Lack}
    (h : Run c.toSources late ((Need.code type).push stack) file p ((Need.code type).needs c.toSources) (.ok p'))
    (hout : (codePlan c.toConfig type).outcome c.toSources = .error e) :
    Run c.toSources late stack file p [.code type] (.error (e (some file))) := by
  refine .lacking (fun hset => ?_) id h ?_
  · obtain ⟨⟨text, htext⟩, -⟩ := hset
    cases hout.symm.trans htext
  · simp only [Need.complete, hout]
    rfl

theorem Good.pushCode {s : State} (h : Good c.toSources late jobOf stack s) (type : TypeRef) :
    Good c.toSources late jobOf ((Need.code type).push stack) s :=
  ⟨{ h.sound with inputs := h.sound.inputs, unmade := h.sound.unmade }, h.tracked⟩

theorem Good.popCode {s : State} {type : TypeRef} (h : Good c.toSources late jobOf ((Need.code type).push stack) s) :
    Good c.toSources late jobOf stack s :=
  ⟨{ h.sound with inputs := h.sound.inputs, unmade := h.sound.unmade }, h.tracked⟩

/-- Writing a type expression in a state. -/
def WritesAt (c : Setup) (late : TypeRef → Prop) (jobOf : String → Option Job) (stack : Stack) (type : TypeRef)
    (act : Step String) (s : State) : Prop :=
  FollowsAt c late jobOf ((Need.code type).push stack) act ((Need.code type).needs c.toSources)
    (fun _ => (codePlan c.toConfig type).outcome c.toSources) (fun _ => False) s

/-- Writing a type expression that is not kept. -/
theorem WritesAt.uncached {type : TypeRef} {act : Step String} {s : State} (hcached : c.cached = false)
    (h : WritesAt c late jobOf stack type act s) :
    FollowsAt c late jobOf stack act [.code type] (fun _ => .ok (codeText c.toConfig type)) (fun _ => False) s := by
  rcases h with ⟨e, hr, he⟩ | ⟨p, hr, hrun⟩
  · exact Or.inl ⟨e, hr.code_error, he⟩
  · cases hout : (codePlan c.toConfig type).outcome c.toSources with
    | error e =>
      rw [hout] at hrun
      exact Or.inl ⟨_, hr.code_lacking hout, hrun⟩
    | ok text =>
      rw [hout, outcome_codePlan hout] at hrun
      obtain ⟨s', hrun, hp, hg, heff⟩ := hrun
      refine Or.inr ⟨p, hr.code hout, s', hrun, hp, hg.popCode, heff.moves, heff.kept, fun n hn => ?_, fun hs =>
        (heff.grows hs).code hcached rfl⟩
      cases List.mem_singleton.1 hn
      exact Or.inr fun d hd => heff.recorded _ hd

/-- A type expression that was kept is used again. -/
theorem follows_hit {type : TypeRef} {act : Step String} {s : State} {text : String} {o : Origin}
    (hcached : c.cached = true) (hs : Good c.toSources late jobOf stack s)
    (he : Assoc.get? s.inputs.entries type = some (text, o)) :
    FollowsAt c late jobOf stack (Memo.memoized State.inputsPart true type act) [.code type]
      (fun _ => .ok (codeText c.toConfig type)) (fun _ => False) s := by
  obtain ⟨hok, hdone, huses⟩ := hs.sound.inputs type text o he
  cases outcome_codePlan hok
  obtain ⟨t', hmerge, hmoves, hcovers⟩ := Tracker.moves_merge hs.tracked o
  refine Or.inr ⟨s.progress, Run.of_done fun n hn => List.mem_singleton.1 hn ▸ hdone, ?_⟩
  refine ⟨_, runOn_memoized_hit he hmerge, rfl, ?_, .of_eq (hmoves.mono (by simp [huses])) rfl rfl fun n hn => ?_⟩
  · exact ⟨hs.sound.congr rfl rfl rfl rfl hmoves.enabled, hmoves.scoped hs.tracked⟩
  · cases List.mem_singleton.1 hn
    exact Or.inl ⟨hcached, _, o, he, fun henabled => hcovers (hmoves.enabled ▸ henabled)⟩

/-- A type expression that was not kept is written and kept. -/
theorem WritesAt.missed {type : TypeRef} {act : Step String} {s : State} (hcached : c.cached = true)
    (hs : Good c.toSources late jobOf stack s) (he : Assoc.get? s.inputs.entries type = none)
    (h : WritesAt c late jobOf stack type act (missed State.inputsPart s)) :
    FollowsAt c late jobOf stack (Memo.memoized State.inputsPart true type act) [.code type]
      (fun _ => .ok (codeText c.toConfig type)) (fun _ => False) s := by
  rcases h with ⟨e, hr, hrun⟩ | ⟨p, hr, hrun⟩
  · obtain ⟨s₂, hrun⟩ := runOn_eq_of_fst hrun
    exact Or.inl ⟨e, hr.code_error, by rw [runOn_memoized_error he hrun]⟩
  · cases hout : (codePlan c.toConfig type).outcome c.toSources with
    | error e =>
      rw [hout] at hrun
      obtain ⟨s₂, hrun⟩ := runOn_eq_of_fst hrun
      exact Or.inl ⟨_, hr.code_lacking hout, congrArg Prod.fst (runOn_memoized_error he hrun)⟩
    | ok text =>
      rw [hout, outcome_codePlan hout] at hrun
      obtain ⟨s₂, hrun, rfl, hg, heff⟩ := hrun
      have hstart : (Compile.missed State.inputsPart s).tracker = s.tracker.start none := rfl
      obtain ⟨keys, t', hfinish, hf⟩ := finished_of_moves hs.tracked hstart heff.moves
      have hen : t'.enabled = s₂.tracker.enabled := hf.moves.enabled.trans heff.moves.enabled.symm
      have hrun' := hr.code hout
      have hinsert : ∀ type' e, Assoc.get? s.inputs.entries type' = some e →
          Assoc.get? (Assoc.insert s₂.inputs.entries type
            (codeText c.toConfig type, (⟨(Compile.missed State.inputsPart s).tracker.currentFile, keys⟩ : Origin))) type' =
            some e := by
        intro type' e he'
        refine (Assoc.get?_insert_of_ne _ _ ?_).trans (heff.kept.codes type' e he')
        rintro rfl
        cases he.symm.trans he'
      refine Or.inr ⟨_, hrun', _, runOn_memoized_ok he hrun hfinish, rfl, ⟨?_, hf.moves.scoped hs.tracked⟩, hf.moves,
        ⟨⟨hf.moves.enabled, heff.kept.store⟩, hinsert⟩, fun n hn => ?_, fun hout' => ?_⟩
      · have hkept : Sound c.toSources late jobOf stack { s₂ with tracker := t' } :=
          hg.popCode.sound.congr rfl rfl rfl rfl hen
        refine { hkept with
          distinct := { hkept.distinct with inputs := Assoc.nodup_keys_insert hkept.distinct.inputs _ _ }
          made := fun node a ha => (hkept.made node a ha).congr rfl rfl rfl rfl
          inputs := fun type' text' o' he' => ?_ }
        change Assoc.get? (Assoc.insert s₂.inputs.entries _ _) _ = _ at he'
        rw [Assoc.get?_insert] at he'
        split at he'
        · rename_i hkey
          cases hkey
          cases he'
          refine ⟨hout.trans (by rw [outcome_codePlan hout]), hrun'.done (.code type) (List.mem_singleton_self _),
            List.eq_nil_iff_forall_not_mem.2 fun f hmem => (hf.used f).1 hmem⟩
        · exact hkept.inputs type' text' o' he'
      · cases List.mem_singleton.1 hn
        exact Or.inl ⟨hcached, _, _, Assoc.get?_insert_self _ _ _, hf.recorded _ rfl⟩
      · have hgrows : Grows c jobOf ((Need.code type).push stack) _ s s₂ :=
          (heff.grows hout').congr rfl rfl rfl rfl rfl rfl rfl
        refine hgrows.keep rfl hg.sound.unmade.2 rfl (fun d hd hi => ?_) rfl hen fun type' => Assoc.get?_insert _ _ _ _
        exact heff.node_backed hf.covers hd rfl fun m hm heq => hi m hm (Need.declared.inj heq)

/-- Memoizing a type expression does what writing it does. -/
theorem follows_memoized {type : TypeRef} {act : Step String}
    (h : ∀ s, Good c.toSources late jobOf ((Need.code type).push stack) s → WritesAt c late jobOf stack type act s) :
    Follows c late jobOf stack (Memo.memoized State.inputsPart c.cached type act) [.code type]
      (fun _ => .ok (codeText c.toConfig type)) (fun _ => False) := by
  intro s hs
  cases hcached : c.cached with
  | false => exact (h s (hs.pushCode type)).uncached hcached
  | true =>
    cases he : Assoc.get? s.inputs.entries type with
    | some entry => exact follows_hit hcached hs he
    | none =>
      have hs₀ : Good c.toSources late jobOf stack (missed State.inputsPart s) :=
        ⟨hs.sound.congr rfl rfl rfl rfl rfl, Tracker.scoped_start _ _⟩
      exact (h _ (hs₀.pushCode type)).missed hcached hs he

/-! ## Plans -/

section Plans

variable (c late jobOf stack)

/-- A host does what a run does for a need. -/
def Answers (host : Host) : Need → Prop
  | .declared d => Follows c late jobOf stack (host.declare d) [.declared d] (fun _ => .ok ()) (fun _ => False)
  | .code type =>
    Follows c late jobOf stack (host.code type) [.code type] (fun _ => .ok (codeText c.toConfig type)) (fun _ => False)
  | .fragment name =>
    ∀ f, Assoc.get? c.fragments name = some f →
      Follows c late jobOf stack (host.spread name) [.fragment name] (fun _ => .ok f) (Reached c.toSources [name])
  | .operation _ | .arguments _ => False

end Plans

theorem fragmentsIn_append (needs more : List Need) : fragmentsIn (needs ++ more) = fragmentsIn needs ++ fragmentsIn more :=
  List.filterMap_append

theorem follows_perform {cached : Bool} {host : Host} (p : Plan α) (hp : p.Keeps c.toSources ∧ stack.inputs = [] ∨ p.Codes)
    (hanswers : ∀ n ∈ p.needs c.toSources, Answers c late jobOf stack host n)
    (hunknown : ∀ name, Assoc.get? c.fragments name = none →
      Follows c late jobOf stack (host.spread name) [] (fun _ => .error (.fragmentNotFound name)) (fun _ => False)) :
    Follows c late jobOf stack (p.perform cached host) (p.needs c.toSources) (fun _ => p.outcome c.toSources)
      (Reached c.toSources (fragmentsIn (p.needs c.toSources))) := by
  induction p with
  | done a => exact (follows_pure a).mono fun f => ⟨False.elim, Reached.nil⟩
  | lack e => exact follows_lack e _
  | declare d next ih =>
    have hnext := ih (hp.imp (And.imp_left And.right) id) fun n hn => hanswers n (List.mem_cons_of_mem _ hn)
    have hd : Follows c late jobOf stack (host.declare d) [.declared d] (fun _ => .ok ()) (fun _ => False) :=
      hanswers (.declared d) List.mem_cons_self
    exact (hd.bind hnext).mono fun f => by simp [fragmentsIn]
  | code type next ih =>
    have hnext := ih _ (hp.imp (fun h => h.1.elim) fun h => h _) fun n hn => hanswers n (List.mem_cons_of_mem _ hn)
    have hcode : Follows c late jobOf stack (host.code type) [.code type] (fun _ => .ok (codeText c.toConfig type))
        (fun _ => False) := hanswers (.code type) List.mem_cons_self
    exact (hcode.bind (f := fun text => (next text).perform cached host) hnext).mono fun f => by
      rw [false_or]
      rfl
  | spread name next ih =>
    obtain ⟨hkeeps, hinputs⟩ := hp.resolve_right id
    simp only [Plan.needs, Plan.outcome, Plan.perform] at hanswers ⊢
    cases hf : Assoc.get? c.fragments name with
    | none => exact (hunknown name hf).bind_error _
    | some fragment =>
      rw [hf] at hanswers
      have hnext := ih fragment (Or.inl ⟨hkeeps fragment hf, hinputs⟩) fun n hn =>
        hanswers n (List.mem_cons_of_mem _ hn)
      have hspread : Follows c late jobOf stack (host.spread name) [.fragment name] (fun _ => .ok fragment)
        (Reached c.toSources [name]) := hanswers (.fragment name) List.mem_cons_self fragment hf
      refine (hspread.bind (f := fun fragment => (next fragment).perform cached host) hnext).mono fun f => ?_
      rw [← Reached.append]
      rfl
  | keep typeName sels body next ihb ih =>
    obtain ⟨⟨⟨t, -, ht, hsel⟩, hbody, hkeeps⟩, hinputs⟩ := hp.resolve_right id
    simp only [Plan.needs, Plan.outcome, Plan.perform] at hanswers ⊢
    cases hout : body.outcome c.toSources with
    | error e =>
      rw [hout] at hanswers
      have hshape := follows_shape cached ht hsel hbody hinputs (ihb (Or.inl ⟨hbody, hinputs⟩) hanswers)
      rw [hout] at hshape
      exact hshape.bind_error _
    | ok shape =>
      rw [hout] at hanswers
      have hshape := follows_shape cached ht hsel hbody hinputs
        (ihb (Or.inl ⟨hbody, hinputs⟩) fun n hn => hanswers n (List.mem_append_left _ hn))
      rw [hout] at hshape
      have hnext := ih shape (Or.inl ⟨hkeeps shape hout, hinputs⟩) fun n hn =>
        hanswers n (List.mem_append_right _ hn)
      refine (hshape.bind (f := fun s => (next s).perform cached host) hnext).mono fun f => ?_
      rw [← Reached.append, fragmentsIn_append]
  | count thing next ih =>
    exact ((follows_count thing).bind (ih hp hanswers)).mono fun f => by simp

end ResponseTypes.Compile
