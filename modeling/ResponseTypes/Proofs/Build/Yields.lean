import ResponseTypes.Proofs.Plan.Effect

/-!
# What a build yields

What was made and kept before a build stays while it is carried out, and what is made newly refers to input types
strongly, through what was kept before, or in the file of an operation through which they are made again (`Yields`).
-/

namespace ResponseTypes.Compile

set_option autoImplicit false

open GraphQL (TypeRef)

section Yields

variable {c : Setup} {jobOf : String → Option Job} {jobs : Job → Prop} {stack : Stack} {needs : List Need}
  {s s' s'' t t' : State} {o : Origin} {m : String}

/-- A result of an origin refers to an input type that is new and hangs on an operation of a file that it depends on. -/
structure Stems (c : Setup) (jobs : Job → Prop) (s s' : State) (o : Origin) (m : String) : Prop where
  fresh : Fresh s s' m
  job : ∃ j, jobs j ∧ Firm c s' (.arguments j) m ∧ (s.tracker.enabled → j.file ≠ "" → o.dependsOn j.file)

theorem upward_stems : Upward s.tracker.enabled (Stems c jobs s s') := by
  rintro o o' hc m ⟨hfresh, j, hj, hfirm, hdep⟩
  exact ⟨hfresh, j, hj, hfirm, fun henabled hne => hc henabled _ hne (hdep henabled hne)⟩

/-- What was made and kept stays, and what is new refers to input types that it can rely on. -/
structure Yields (c : Setup) (jobOf : String → Option Job) (jobs : Job → Prop) (s s' : State) : Prop where
  kept : Preserves s s'
  links : c.schema.OutputTyped → Links c jobOf (Stems c jobs s s') s s'

namespace Yields

theorem of_eq (hstore : s'.store = s.store) (hcodes : s'.inputs.entries = s.inputs.entries)
    (henabled : s'.tracker.enabled = s.tracker.enabled) : Yields c jobOf jobs s s' where
  kept := ⟨⟨henabled, hstore ▸ fun _ _ h => h⟩, hcodes ▸ fun _ _ h => h⟩
  links _ := (show Grows c jobOf .empty [] s s' from .of_eq hstore hcodes).links.mono fun o m hw => by
    rcases hw.1 with hm | hfresh
    · cases hm
    · have := hfresh.after
      rw [hstore, Assoc.has, hfresh.before] at this
      cases this

theorem refl (s : State) : Yields c jobOf jobs s s :=
  of_eq rfl rfl rfl

theorem trans (h : Yields c jobOf jobs s s') (h' : Yields c jobOf jobs s' s'') : Yields c jobOf jobs s s'' where
  kept := h.kept.trans h'.kept
  links hout := by
    refine (h.links hout).trans ((h'.links hout).mono ?_) h.kept h'.kept upward_stems ?_
    · rintro o m ⟨hfresh, j, hj, hfirm, hdep⟩
      exact ⟨hfresh.of_extends h.kept.toExtends, j, hj, hfirm, h.kept.enabled ▸ hdep⟩
    · rintro o m ⟨hfresh, j, hj, hfirm, hdep⟩
      refine ⟨hfresh.mono h'.kept.toExtends, j, hj, hfirm.mono h'.kept.toExtends fun type ht => ?_, hdep⟩
      refine ht.mono h'.kept (h'.links hout) fun o m hm => ?_
      rw [Assoc.has, hm.fresh.before]
      rfl

/-- What a step yields that meets needs. -/
theorem of_effect {U : String → Prop} (h : Effect c jobOf stack U needs s s') (hinputs : stack.inputs = [])
    (hneeds : ∀ n ∈ needs, ∀ m, n.Hangs c s' m → ∃ j, jobs j ∧ Firm c s' (.arguments j) m ∧
      (j.file ≠ "" → s.tracker.currentFile = j.file)) : Yields c jobOf jobs s s' where
  kept := h.kept
  links hout := by
    refine (h.grows hout).links.mono ?_
    rintro o m ⟨hm, hdep⟩
    have hfresh : Fresh s s' m := hm.resolve_left (hinputs ▸ List.not_mem_nil)
    obtain ⟨n, hn, hhangs⟩ := (h.grows hout).hung m hfresh
    obtain ⟨j, hj, hfirm, hfile⟩ := hneeds n hn m hhangs
    exact ⟨hfresh, j, hj, hfirm, fun henabled hne => hfile hne ▸ hdep henabled (hfile hne ▸ hne)⟩

/-- Only what was made and kept matters, and whether dependencies are tracked. -/
theorem congr (h : Yields c jobOf jobs s s') (hstore : t.store = s.store) (hcodes : t.inputs.entries = s.inputs.entries)
    (henabled : t.tracker.enabled = s.tracker.enabled) (hstore' : t'.store = s'.store)
    (hcodes' : t'.inputs.entries = s'.inputs.entries) (henabled' : t'.tracker.enabled = s'.tracker.enabled) :
    Yields c jobOf jobs t t' :=
  ((of_eq hstore.symm hcodes.symm henabled.symm).trans h).trans (of_eq hstore' hcodes' henabled')

end Yields

end Yields

end ResponseTypes.Compile
