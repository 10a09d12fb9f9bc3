import ResponseTypes.Proofs.Plan.Drafts

/-!
# What selections on interfaces and unions come to

Selections on an abstract type take the fast path (`fastPath?`) if they are nothing but fragment spreads of a simple kind.
Else there is one branch for each possible type (`outcome_selection_abstract`): an object with the fields that all types
share and those of its own, in which each tag is the tag of the branch (`branchFields`).
-/

namespace ResponseTypes.Compile

set_option autoImplicit false

open GraphQL (Selection TypeDef)

variable {c : Sources}

/-- The shape of selections that take the fast path: fragments are referred to and no fields are written out. -/
def fastPath? (c : Sources) (t : TypeDef) (sels : List Selection) : Option Shape :=
  match (@groups (fun l => sizeOf l < sizeOf sels) c.toConfig t sels (fun _ h => h) {}).outcome c with
  | .error _ => none
  | .ok g =>
    if g.base.isEmpty && g.concreteInlines.isEmpty && g.abstractInlines.isEmpty then
      shortcut? c.toConfig t (c.schema.possible t.name) g
    else none

/-- The tag that the types which are not targeted share. -/
def sharedTagOf (t : TypeDef) (possible targeted : List String) : TypeTag :=
  let others := possible.filter (fun n => !targeted.contains n)
  if targeted.isEmpty then .allOf t.name
  else if others.length > targeted.length && others.length > 2 then .ofNames targeted (some t.name)
  else .ofNames others none

/-- The tag of the branch of a possible type. -/
def branchTag (c : Config) (t : TypeDef) (possible : List String) (per : TypeFields) (name : String) : TypeTag :=
  if Assoc.has per name || !c.output.mergeTags then .single name
  else sharedTagOf t possible (possible.filter (Assoc.has per))

/-- The fields of the branch of a possible type. -/
def branchFields (c : Config) (t : TypeDef) (possible : List String) (base : Fields) (per : TypeFields) (name : String) :
    Fields :=
  retag (branchTag c t possible per name) (Shape.mergeFields base (per.of name))

theorem outcome_forM_tag (names : List String) :
    (names.forM fun n => Plan.declare (.tag n) (.done ())).outcome c = .ok () := by
  induction names with
  | nil => rfl
  | cons name names ih => exact ih

theorem outcome_sharedTag (t : TypeDef) (possible targeted : List String) :
    (sharedTag t possible targeted).outcome c = .ok (sharedTagOf t possible targeted) := by
  unfold sharedTag sharedTagOf
  dsimp only
  split
  · rfl
  · split
    · rfl
    · rw [Plan.outcome_bind, outcome_forM_tag]
      rfl

/-- Fields without tags stay as they are. -/
theorem retag_of_untagged {fields : Fields} (h : (fields.any fun e => e.2.isTag) = false) (tag : TypeTag) :
    retag tag fields = fields := by
  rw [List.any_eq_false] at h
  have hsame : ∀ e ∈ fields, (e.1, if e.2.isTag then Shape.tag tag { nullable := e.2.nullable } else e.2) = e :=
    fun e he => by rw [if_neg (h e he)]
  exact (List.map_congr_left hsame).trans (List.map_id fields)

/-- The tags of fields that are added for a possible type become its tag. -/
theorem outcome_resolveTags (name : String) (fields : Fields) :
    (resolveTags name fields).outcome c = .ok (retag (.single name) fields) := by
  unfold resolveTags
  split
  · refine (Plan.mapM_eq fun e _ => ?_).1
    split <;> rfl
  · rename_i h
    rw [Bool.not_eq_true] at h
    rw [retag_of_untagged h]
    rfl

theorem outcome_branchesFrom (t : TypeDef) (possible : List String) (base : Fields) (per : TypeFields)
    {shared : Option TypeTag} (hshared : ∀ tag ∈ shared, tag = sharedTagOf t possible (possible.filter (Assoc.has per)))
    (names : List String) :
    (branchesFrom c.toConfig t possible base per shared names).outcome c =
      .ok (names.map fun n => .object n (branchFields c.toConfig t possible base per n) {}) := by
  induction names generalizing shared with
  | nil => rfl
  | cons name rest ih =>
    rw [branchesFrom, List.map_cons]
    dsimp only
    split
    · rename_i hany
      rw [Plan.outcome_bind, ih hshared, branchFields, retag_of_untagged (by simpa using hany)]
      rfl
    · split
      · rename_i hown
        rw [Plan.outcome_bind, branchFields, branchTag, if_pos hown]
        change Plan.outcome c (_ >>= _) = _
        rw [Plan.outcome_bind, ih hshared]
        rfl
      · rename_i hown
        have hrest : (branchesFrom c.toConfig t possible base per
            (some (sharedTagOf t possible (possible.filter (Assoc.has per)))) rest).outcome c = _ :=
          ih fun tag htag => (Option.mem_some_iff.1 htag).symm
        rw [branchFields, branchTag, if_neg hown]
        cases shared with
        | none =>
          rw [Plan.outcome_bind, outcome_sharedTag]
          change Plan.outcome c (_ >>= _) = _
          rw [Plan.outcome_bind, hrest]
          rfl
        | some tag =>
          obtain rfl := hshared tag rfl
          rw [Plan.outcome_bind, Plan.outcome_pure]
          change Plan.outcome c (_ >>= _) = _
          rw [Plan.outcome_bind, hrest]
          rfl

/-- Selections on an abstract type that do not take the fast path come to one branch for each possible type. -/
theorem outcome_selection_abstract {t : TypeDef} (ht : t.body.isAbstract = true) {sels : List Selection} {shape : Shape}
    (h : (selection c.toConfig t sels).outcome c = .ok shape) :
    fastPath? c t sels = some shape ∨
      fastPath? c t sels = none ∧ ∃ g per,
        (@groups (fun l => sizeOf l < sizeOf sels) c.toConfig t sels (fun _ h => h) {}).outcome c = .ok g ∧
        (typeFields c.toConfig ⟨fun t' s => selection c.toConfig t' s.1, fun t' s => sharedAndOwn c.toConfig t' s.1⟩ t
          (c.schema.possible t.name) g).outcome c = .ok per ∧
        shape = ofBranches t ((c.schema.possible t.name).map fun n =>
          .object n (branchFields c.toConfig t (c.schema.possible t.name) (baseFields c.toConfig t g) per n) {}) := by
  rw [selection] at h
  simp only [Plan.outcome, if_pos ht] at h
  split at h
  · cases h
  · rename_i s hs
    cases h
    obtain ⟨g, hg, hs⟩ := Plan.outcome_bind_ok hs
    have hfast : fastPath? c t sels =
        if g.base.isEmpty && g.concreteInlines.isEmpty && g.abstractInlines.isEmpty then
          shortcut? c.toConfig t (c.schema.possible t.name) g
        else none := by
      unfold fastPath?
      rw [hg]
    unfold ofGroups at hs
    dsimp only at hs
    rw [← hfast] at hs
    split at hs
    · rename_i s hfound
      cases hs
      exact Or.inl hfound
    · rename_i hnone
      obtain ⟨per, hper, hs⟩ := Plan.outcome_bind_ok hs
      obtain ⟨branches, hbranches, hs⟩ := Plan.outcome_bind_ok hs
      cases (outcome_branchesFrom t _ _ _ (by simp) _).symm.trans hbranches
      cases hs
      exact Or.inr ⟨hnone, g, per, hg, hper, rfl⟩

/-- Selections below a type condition on an abstract type come to the fields that all types share and to those of each, as
selections on the type itself do. -/
theorem outcome_sharedAndOwn {t : TypeDef} {sels : List Selection} {g : Groups fun l => sizeOf l < sizeOf sels} {per : TypeFields}
    (hg : (groups c.toConfig t sels (fun _ h => h) {}).outcome c = .ok g)
    (hper : (typeFields c.toConfig ⟨fun t' s => selection c.toConfig t' s.1, fun t' s => sharedAndOwn c.toConfig t' s.1⟩ t
      (c.schema.possible t.name) g).outcome c = .ok per) :
    (sharedAndOwn c.toConfig t sels).outcome c = .ok (baseFields c.toConfig t g, per) := by
  rw [sharedAndOwn, Plan.outcome_bind, hg]
  change Plan.outcome c (_ >>= _) = _
  rw [Plan.outcome_bind, hper]
  rfl

end ResponseTypes.Compile
