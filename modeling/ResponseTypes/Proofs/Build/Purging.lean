import ResponseTypes.Proofs.Build.Linked
import ResponseTypes.Proofs.Plan.Meeting

/-!
# Purging

`State.without` : a state without what came from a file or depends on it.  What depends on something depends on its files,
so that a purge leaves a state sound (`Sound.purge`); what referred to input types in a circle can still be relied on
(`Rooted.purge`).
-/

namespace ResponseTypes.Compile

set_option autoImplicit false

open GraphQL (TypeRef)

/-- The type expression can be written. -/
def Writable (c : Sources) (type : TypeRef) : Prop :=
  ∃ text, (codePlan c.toConfig type).outcome c = .ok text

/-- The state without what came from a file or depends on it. -/
def State.without (s : State) (file : String) : State :=
  { s with
    store := Store.purge s.store file
    shapes := s.shapes.purge file
    inputs := s.inputs.purge file
    fieldMaps := s.fieldMaps.filter (fun e => !e.2.origin.dependsOn file) }

/-- The second state is the first without what depends on the file. -/
structure Purged (file : String) (s s' : State) : Prop where
  tracker : s'.tracker = s.tracker
  distinct : s'.Distinct
  store : ∀ node a, Assoc.get? s'.store node = some a ↔ Assoc.get? s.store node = some a ∧ !a.origin.dependsOn file
  maps : ∀ name m, Assoc.get? s'.fieldMaps name = some m ↔ Assoc.get? s.fieldMaps name = some m ∧ !m.origin.dependsOn file
  shapes : ∀ key e, Assoc.get? s'.shapes.entries key = some e ↔
    Assoc.get? s.shapes.entries key = some e ∧ !e.2.dependsOn file
  inputs : ∀ type e, Assoc.get? s'.inputs.entries type = some e ↔
    Assoc.get? s.inputs.entries type = some e ∧ !e.2.dependsOn file
  kinds : ∀ e ∈ s'.store, e ∈ s.store

theorem State.Distinct.purged {s : State} (h : s.Distinct) (file : String) : Purged file s (s.without file) where
  tracker := rfl
  distinct := ⟨Assoc.nodup_keys_filter h.store _, Assoc.nodup_keys_filter h.maps _, Assoc.nodup_keys_filter h.shapes _,
    Assoc.nodup_keys_filter h.inputs _⟩
  store := Assoc.get?_filter h.store _
  maps := Assoc.get?_filter h.maps _
  shapes := Assoc.get?_filter h.shapes _
  inputs := Assoc.get?_filter h.inputs _
  kinds _ he := (List.mem_filter.1 he).1

section Purge

variable {c : Setup} {late : TypeRef → Prop} {jobOf : String → Option Job} {jobs jobs' : Job → Prop} {file : String}
  {s s' : State} {o o' : Origin} {type : TypeRef} {node : Node} {n : Need}

/-- What a result depends on stays as long as the result does. -/
theorem Covers.stays (h : Covers o o') (hne : file ≠ "") (ho : !o.dependsOn file) : !o'.dependsOn file := by
  rw [Bool.not_eq_true', ← Bool.not_eq_true] at ho ⊢
  exact fun ho' => ho (h file hne ho')

theorem Backed.purge (h : Backed s o node) (hp : Purged file s s') (hne : file ≠ "") (henabled : s.tracker.enabled)
    (ho : !o.dependsOn file) : Backed s' o node := by
  obtain ⟨a, ha, hc⟩ := h
  exact ⟨a, (hp.store node a).2 ⟨ha, (hc henabled).stays hne ho⟩, fun _ => hc henabled⟩

theorem Need.Backed.purge (h : n.Backed s o) (hp : Purged file s s') (hne : file ≠ "") (henabled : s.tracker.enabled)
    (ho : !o.dependsOn file) : n.Backed s' o := by
  cases n with
  | declared d | fragment name => exact Compile.Backed.purge h hp hne henabled ho
  | code type | operation j | arguments j => exact h.elim

/-! ## Soundness -/

namespace Sound

variable {c : Sources} {stack : Stack}

/-- The fields of fragments stay as long as the fragments do. -/
theorem fieldsAt_purge (h : Sound c late jobOf stack s) (hp : Purged file s s') (hne : file ≠ "")
    (hhas : Assoc.has s'.store node) : s'.fieldsAt node = s.fieldsAt node := by
  obtain ⟨a, ha⟩ := Option.isSome_iff_exists.1 hhas
  obtain ⟨ha, ho⟩ := (hp.store node a).1 ha
  obtain ⟨kind, name⟩ := node
  unfold State.fieldsAt
  split
  · rename_i hkind
    cases hkind
    obtain ⟨m, hm, -⟩ := h.fields name (by rw [Assoc.has, fragmentNode, ha]; rfl)
    rw [hm, (hp.maps name m).2 ⟨hm, (h.maps name a m ha hm).stays hne ho⟩]
  · rfl

/-- What is reached from fragments that stay stays. -/
theorem reached_purge (h : Sound c late jobOf stack s) (hp : Purged file s s') (hne : file ≠ "")
    (henabled : s.tracker.enabled) {names : List String} {other : String}
    (hnames : ∀ name ∈ names, Assoc.has s'.store (fragmentNode name)) (hr : Reached c names other) :
    Assoc.has s'.store (fragmentNode other) := by
  obtain ⟨name, hname, hr⟩ := hr
  induction hr with
  | refl => exact hnames name hname
  | tail _ hs ih =>
    obtain ⟨a, ha⟩ := Option.isSome_iff_exists.1 ih
    obtain ⟨ha, ho⟩ := (hp.store _ a).1 ha
    obtain ⟨b, hb, -⟩ := (h.spread _ a ha _ (mem_fragmentsIn.2 hs)).purge hp hne henabled ho
    rw [Assoc.has, hb]
    rfl

theorem sameFields_purge (h : Sound c late jobOf stack s) (hp : Purged file s s') (hne : file ≠ "") {name : String}
    (hhas : Assoc.has s'.store (fragmentNode name)) :
    s'.progress.fieldsOf name = s.progress.fieldsOf name ∧ s'.progress.heightOf name = s.progress.heightOf name := by
  have hfields := h.fieldsAt_purge hp hne hhas
  obtain ⟨a, ha⟩ := Option.isSome_iff_exists.1 hhas
  have hold := ((hp.store _ a).1 ha).1
  simp only [Progress.fieldsOf, Progress.heightOf, get?_progress, ha, hold, hfields, and_self]

/-- What a purge leaves is as sound as it was. -/
theorem purge (h : Sound c late jobOf .empty s) (hp : Purged file s s') (hne : file ≠ "")
    (henabled : s.tracker.enabled) : Sound c (Writable c) jobOf .empty s' := by
  refine ⟨h.named, hp.distinct, fun name hname => ?_, fun name a m ha hm => ?_, fun node a ha => ⟨?_, ?_⟩,
    fun node a ha => h.uses node a ((hp.store node a).1 ha).1, fun typeName sels shape origin he t ht => ?_,
    fun type text origin he => ?_, fun _ ht => ht, fun e he => h.kinds e (hp.kinds e he),
    fun name hname => absurd hname List.not_mem_nil, fun name hname => absurd hname List.not_mem_nil⟩
  · obtain ⟨a, ha⟩ := Option.isSome_iff_exists.1 hname
    obtain ⟨ha, ho⟩ := (hp.store _ a).1 ha
    obtain ⟨m, hm, hrefs⟩ := h.fields name (by rw [Assoc.has, ha]; rfl)
    exact ⟨m, (hp.maps name m).2 ⟨hm, (h.maps name a m ha hm).stays hne ho⟩, hrefs⟩
  · exact h.maps name a m ((hp.store _ a).1 ha).1 ((hp.maps name m).1 hm).1
  · obtain ⟨hold, ho⟩ := (hp.store node a).1 ha
    obtain ⟨⟨n, hn, hmet⟩, hbacked⟩ := h.made node a hold
    refine ⟨n, hn, ?_⟩
    rw [Need.Meets, h.fieldsAt_purge hp hne (by rw [Assoc.has, ha]; rfl)]
    refine Need.complete_congr h.named (h.closed _) (fun name hname => h.sameFields_purge hp hne ?_) hmet
    refine h.reached_purge hp hne henabled (fun first hfirst => ?_) (deep_fragment.1 (fragment_leaves.1 hname))
    have hfirst := (hbacked (.fragment first) (needsAt_eq hn ▸ mem_fragmentsIn.1 hfirst) trivial)
    exact has_progress s' _ ▸ (hfirst.purge hp hne henabled ho).has
  · obtain ⟨hold, ho⟩ := (hp.store node a).1 ha
    exact fun n hn hsel => ((h.made node a hold).backed n hn hsel).purge hp hne henabled ho
  · obtain ⟨hold, ho⟩ := (hp.shapes _ _).1 he
    obtain ⟨hout, hneeds, huses⟩ := h.shapes typeName sels shape origin hold t ht
    exact ⟨hout, fun n hn => (hneeds n hn).purge hp hne henabled ho, huses⟩
  · obtain ⟨hout, -, huses⟩ := h.inputs type text origin ((hp.inputs _ _).1 he).1
    exact ⟨hout, Or.inr ⟨type, rfl, text, hout⟩, huses⟩

end Sound

/-! ## References -/

/-- What stays refers to what can be relied on, among operations of other files. -/
theorem Linked.purge (h : Linked c jobs s o type) (hp : Purged file s s') (hne : file ≠ "")
    (henabled : s.tracker.enabled) (hjobs : ∀ j, jobs j → j.file ≠ file → jobs' j) (ho : !o.dependsOn file) :
    Linked c jobs' s' o type := by
  induction h with
  | strong h => exact .strong fun d hd => (h d hd).purge hp hne henabled ho
  | @stems o _ m j _ hm hj hdep hchain _ _ hmade hkept =>
    have hfile : j.file ≠ file := by
      rintro rfl
      rw [hdep henabled] at ho
      cases ho
    refine .stems hm (hjobs j hj hfile) (hp.tracker ▸ hdep) hchain (fun step hstep node a hnode ha => ?_)
      fun step hstep hcached text o' ho' => ?_
    · obtain ⟨ha, ho⟩ := (hp.store node a).1 ha
      exact hmade step hstep node a hnode ha ho
    · obtain ⟨he, ho⟩ := (hp.inputs _ _).1 ho'
      exact hkept step hstep hcached text o' he ho

theorem Rooted.purge (h : Rooted c jobOf jobs s) (hp : Purged file s s') (hne : file ≠ "")
    (henabled : s.tracker.enabled) (hjobs : ∀ j, jobs j → j.file ≠ file → jobs' j) : Rooted c jobOf jobs' s' where
  made node a ha type ht := by
    obtain ⟨ha, ho⟩ := (hp.store node a).1 ha
    exact (h.made node a ha type ht).purge hp hne henabled hjobs ho
  kept hcached type text o he := by
    obtain ⟨he, ho⟩ := (hp.inputs _ _).1 he
    exact (h.kept hcached type text o he).purge hp hne henabled hjobs ho

end Purge

end ResponseTypes.Compile
