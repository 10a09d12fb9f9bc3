import ResponseTypes.Proofs.Assoc
import ResponseTypes.Proofs.Plan.Kept

/-!
# Runs

A `Run` is the history of a compilation without memos and dependency keys: what is needed is made once, in order, each
thing after those it needs itself.  `Progress` is what was made so far; the things that are being made form a `Stack`.
A run reads nothing but its `Sources`, so it has one end at most (`Run.unique`).

Type expressions of input values in `late` may be skipped: what they need gets made later.
-/

namespace ResponseTypes.Compile

set_option autoImplicit false

open GraphQL (TypeRef)

/-- The kind and the key of an artifact. -/
abbrev Node := ArtifactKind × String

def Declared.node (d : Declared) : Node :=
  (d.kind, d.key)

/-- The node of a fragment. -/
def fragmentNode (name : String) : Node :=
  (.fragment, name)

/-- The node of an operation's response. -/
def operationNode (name : String) : Node :=
  (.operation, name)

/-- The node of an operation's variables. -/
def variablesNode (name : String) : Node :=
  (.operationVariables, name)

theorem Declared.node_inj {d d' : Declared} (h : d.node = d'.node) : d = d' := by
  cases d <;> cases d' <;> simp_all [node, kind, key]

theorem Declared.node_ne_fragment (d : Declared) (name : String) : d.node ≠ fragmentNode name := by
  cases d <;> simp [node, kind, fragmentNode]

/-- An artifact without what it depends on. -/
structure Piece where
  draft : Draft
  file : String
  /-- the fields of a fragment, with their height -/
  fields : Option (Fields × Nat)

/-- Artifacts in the order in which they were made. -/
abbrev Progress := Assoc Node Piece

/-- The fields of a fragment that was made. -/
def Progress.fieldsOf (p : Progress) (fragment : String) : Option Fields :=
  (Assoc.get? p (fragmentNode fragment)).bind (fun piece => piece.fields.map Prod.fst)

/-- The height of the fields of a fragment. -/
def Progress.heightOf (p : Progress) (fragment : String) : Nat :=
  (((Assoc.get? p (fragmentNode fragment)).bind Piece.fields).map Prod.snd).getD 0

/-- What is being made. -/
structure Stack where
  fragments : List String
  /-- input types above the last fragment -/
  inputs : List String
  /-- type expressions of input values above the last fragment -/
  codes : List TypeRef

/-- Nothing is being made. -/
def Stack.empty : Stack :=
  ⟨[], [], []⟩

namespace Need

/-- The node that a need stands for. -/
def node? : Need → Option Node
  | declared d => some d.node
  | code _ => none
  | fragment name => some (fragmentNode name)
  | operation j => some (operationNode j.name)
  | arguments j => some (variablesNode j.name)

theorem eq_of_node {n : Need} {d : Declared} (h : n.node? = some d.node) : n = .declared d := by
  cases n with
  | declared d' => rw [Declared.node_inj (Option.some.inj h)]
  | code type => cases h
  | fragment name => exact absurd (Option.some.inj h).symm (d.node_ne_fragment name)
  | operation j | arguments j => cases d <;> cases h

theorem eq_fragment_of_node {n : Need} {name : String} (h : n.node? = some (fragmentNode name)) : n = .fragment name := by
  cases n with
  | fragment other => exact congrArg (fun node : Node => Need.fragment node.2) (Option.some.inj h)
  | declared d => exact absurd (Option.some.inj h) (d.node_ne_fragment name)
  | code type | operation j | arguments j => cases h

/-- What has to be made for a need. -/
def needs (c : Sources) : Need → List Need
  | declared d => (draft c.toConfig d).needs c
  | code type => (codePlan c.toConfig type).needs c
  | fragment name =>
    match Assoc.get? c.fragments name with
    | none => []
    | some f => (fragmentPlan c.toConfig f).needs c
  | operation j => (ensureHelpers c.toConfig).needs c ++ (operationPlan c j.op j.root).needs c
  | arguments j => (variablesPlan c.toConfig j).needs c

/-- The stack while a need is being met. -/
def push (stack : Stack) : Need → Stack
  | declared (.input n) => { stack with inputs := n :: stack.inputs }
  | declared _ | operation _ | arguments _ => stack
  | code type => { stack with codes := type :: stack.codes }
  | fragment name => ⟨name :: stack.fragments, [], []⟩

/-- The current file while a need is being met. -/
def fileWithin (c : Sources) (file : String) : Need → String
  | declared _ | code _ | operation _ | arguments _ => file
  | fragment name =>
    match Assoc.get? c.fragments name with
    | none => file
    | some f => if f.file = "" then file else f.file

/-- A declared type was made, or is an input type that is being made. -/
def DeclaredSettled (stack : Stack) (p : Progress) (d : Declared) : Prop :=
  (∃ n ∈ stack.inputs, d = .input n) ∨ Assoc.has p d.node

/-- There is nothing to make for a need. -/
def Settled (c : Sources) (stack : Stack) (p : Progress) : Need → Prop
  | declared d => DeclaredSettled stack p d
  | code type =>
    (∃ text, (codePlan c.toConfig type).outcome c = .ok text) ∧
      ∀ d, .declared d ∈ (codePlan c.toConfig type).needs c → DeclaredSettled stack p d
  | fragment name => Assoc.has p (fragmentNode name)
  | operation j => Assoc.has p (operationNode j.name)
  | arguments j => Assoc.has p (variablesNode j.name)

/-- The need is a fragment that is being made. -/
def Circular (stack : Stack) : Need → Prop
  | fragment name => name ∈ stack.fragments
  | _ => False

/-- The failure to make what is being made. -/
def circularity (file : String) : Need → Failure
  | fragment name => .breach (.circularFragment name) (some file)
  | _ => .breach (.circularFragment "") (some file)

end Need

/-- The shape with its fragments composed. -/
def finished (p : Progress) (s : Shape) : Except Lack Shape :=
  (finishWithin (height p.heightOf s) s).answer p.fieldsOf

/-- A fragment, from what is selected in it. -/
def fragmentPiece (c : Config) (file : String) (p : Progress) (f : FragmentDef) (s : Shape) : Except Lack Piece := do
  let fields ← (flatFields s).answer p.fieldsOf
  let shape ← finished p s
  return ⟨fragmentDraft c f shape, file, some (fields, fieldsHeight p.heightOf fields)⟩

/-- Meets a need after all that it needs was made. -/
def Need.complete (c : Sources) (file : String) (p : Progress) : Need → Except Lack Progress
  | .declared d => do
    let draft ← (draft c.toConfig d).outcome c
    return p ++ [(d.node, ⟨draft, file, none⟩)]
  | .code type => do
    let _ ← (codePlan c.toConfig type).outcome c
    return p
  | .fragment name =>
    match Assoc.get? c.fragments name with
    | none => .error (.fragmentNotFound name)
    | some f => do
      let s ← (fragmentPlan c.toConfig f).outcome c
      let piece ← fragmentPiece c.toConfig file p f s
      return p ++ [(fragmentNode name, piece)]
  | .operation j => do
    let s ← (operationPlan c j.op j.root).outcome c
    let shape ← finished p s
    return p ++ [(operationNode j.name, ⟨operationDraft c.toConfig j shape, file, none⟩)]
  | .arguments j => do
    let draft ← (variablesPlan c.toConfig j).outcome c
    return p ++ [(variablesNode j.name, ⟨draft, file, none⟩)]

/-- There is nothing to make for a need, or it is made later. -/
def Need.Done (c : Sources) (late : TypeRef → Prop) (stack : Stack) (p : Progress) (n : Need) : Prop :=
  n.Settled c stack p ∨ ∃ type, n = .code type ∧ late type

/-- Meeting needs one after the other. -/
inductive Run (c : Sources) (late : TypeRef → Prop) :
    Stack → String → Progress → List Need → Except Failure Progress → Prop
  | nil {stack : Stack} {file : String} {p : Progress} : Run c late stack file p [] (.ok p)
  | later {stack : Stack} {file : String} {p : Progress} {type : TypeRef} {rest : List Need}
      {o : Except Failure Progress} :
      late type → Run c late stack file p rest o → Run c late stack file p (.code type :: rest) o
  | settled {stack : Stack} {file : String} {p : Progress} {n : Need} {rest : List Need}
      {o : Except Failure Progress} :
      n.Settled c stack p → Run c late stack file p rest o → Run c late stack file p (n :: rest) o
  | circular {stack : Stack} {file : String} {p : Progress} {n : Need} {rest : List Need} :
      ¬n.Settled c stack p → n.Circular stack → Run c late stack file p (n :: rest) (.error (n.circularity file))
  | broken {stack : Stack} {file : String} {p : Progress} {n : Need} {rest : List Need} {e : Failure} :
      ¬n.Settled c stack p → ¬n.Circular stack →
      Run c late (n.push stack) (n.fileWithin c file) p (n.needs c) (.error e) →
      Run c late stack file p (n :: rest) (.error e)
  | lacking {stack : Stack} {file : String} {p p' : Progress} {n : Need} {rest : List Need} {e : Lack} :
      ¬n.Settled c stack p → ¬n.Circular stack →
      Run c late (n.push stack) (n.fileWithin c file) p (n.needs c) (.ok p') →
      n.complete c (n.fileWithin c file) p' = .error e →
      Run c late stack file p (n :: rest) (.error (e (some (n.fileWithin c file))))
  | built {stack : Stack} {file : String} {p p' p'' : Progress} {n : Need} {rest : List Need}
      {o : Except Failure Progress} :
      ¬n.Settled c stack p → ¬n.Circular stack →
      Run c late (n.push stack) (n.fileWithin c file) p (n.needs c) (.ok p') →
      n.complete c (n.fileWithin c file) p' = .ok p'' →
      Run c late stack file p'' rest o → Run c late stack file p (n :: rest) o

namespace Run

variable {c : Sources} {late : TypeRef → Prop}

theorem append {stack : Stack} {file : String} {p p' : Progress} {needs more : List Need}
    {o : Except Failure Progress} (h : Run c late stack file p needs (.ok p'))
    (h' : Run c late stack file p' more o) : Run c late stack file p (needs ++ more) o := by
  generalize he : Except.ok p' = o' at h
  induction h with
  | nil =>
    cases he
    exact h'
  | later ht _ ih => exact later ht (ih h' he)
  | settled hs _ ih => exact settled hs (ih h' he)
  | circular => cases he
  | broken => cases he
  | lacking => cases he
  | built hs hc hn hb _ _ ih => exact built hs hc hn hb (ih h' he)

theorem append_error {stack : Stack} {file : String} {p : Progress} {needs more : List Need} {e : Failure}
    (h : Run c late stack file p needs (.error e)) : Run c late stack file p (needs ++ more) (.error e) := by
  generalize he : Except.error e = o at h
  induction h with
  | nil => cases he
  | later ht _ ih => exact later ht (ih he)
  | settled hs _ ih => exact settled hs (ih he)
  | circular hs hc => exact circular hs hc
  | broken hs hc hn =>
    cases he
    exact broken hs hc hn
  | lacking hs hc hn hb => exact lacking hs hc hn hb
  | built hs hc hn hb _ _ ih => exact built hs hc hn hb (ih he)

/-- Needs for which there is nothing to make are met without a change. -/
theorem of_done {stack : Stack} {file : String} {p : Progress} {needs : List Need}
    (h : ∀ n ∈ needs, n.Done c late stack p) : Run c late stack file p needs (.ok p) := by
  induction needs with
  | nil => exact nil
  | cons n rest ih =>
    have hrest := ih fun m hm => h m (List.mem_cons_of_mem n hm)
    rcases h n List.mem_cons_self with hs | ⟨type, rfl, ht⟩
    · exact settled hs hrest
    · exact later ht hrest

/-- Without late types a run has one end at most. -/
theorem unique {stack : Stack} {file : String} {p : Progress} {needs : List Need} {o o' : Except Failure Progress}
    (h : Run c (fun _ => False) stack file p needs o) (h' : Run c (fun _ => False) stack file p needs o') : o = o' := by
  induction h generalizing o' with
  | nil =>
    cases h'
    rfl
  | later ht => exact ht.elim
  | settled hs _ ih =>
    cases h' with
    | later ht => exact ht.elim
    | settled _ hr => exact ih hr
    | circular hs' => exact absurd hs hs'
    | broken hs' => exact absurd hs hs'
    | lacking hs' => exact absurd hs hs'
    | built hs' => exact absurd hs hs'
  | circular hs hc =>
    cases h' with
    | later ht => exact ht.elim
    | settled hs' => exact absurd hs' hs
    | circular => rfl
    | broken _ hc' => exact absurd hc hc'
    | lacking _ hc' => exact absurd hc hc'
    | built _ hc' => exact absurd hc hc'
  | broken hs hc _ ih =>
    cases h' with
    | later ht => exact ht.elim
    | settled hs' => exact absurd hs' hs
    | circular _ hc' => exact absurd hc' hc
    | broken _ _ hn => exact ih hn
    | lacking _ _ hn => cases ih hn
    | built _ _ hn => cases ih hn
  | lacking hs hc _ hb ih =>
    cases h' with
    | later ht => exact ht.elim
    | settled hs' => exact absurd hs' hs
    | circular _ hc' => exact absurd hc' hc
    | broken _ _ hn => cases ih hn
    | lacking _ _ hn hb' =>
      cases ih hn
      cases hb.symm.trans hb'
      rfl
    | built _ _ hn hb' =>
      cases ih hn
      cases hb.symm.trans hb'
  | built hs hc _ hb _ ih ihr =>
    cases h' with
    | later ht => exact ht.elim
    | settled hs' => exact absurd hs' hs
    | circular _ hc' => exact absurd hc' hc
    | broken _ _ hn => cases ih hn
    | lacking _ _ hn hb' =>
      cases ih hn
      cases hb.symm.trans hb'
    | built _ _ hn hb' hr =>
      cases ih hn
      cases hb.symm.trans hb'
      exact ihr hr

end Run

/-! ## Progress only grows -/

/-- Everything of the first progress is in the second. -/
def Progress.Le (p p' : Progress) : Prop :=
  ∀ node piece, Assoc.get? p node = some piece → Assoc.get? p' node = some piece

theorem Progress.Le.has {p p' : Progress} (h : p.Le p') {node : Node} (hn : Assoc.has p node) : Assoc.has p' node := by
  obtain ⟨piece, hp⟩ := Option.isSome_iff_exists.1 hn
  exact Option.isSome_iff_exists.2 ⟨piece, h node piece hp⟩

theorem Progress.le_append (p more : Progress) : p.Le (p ++ more) :=
  fun _ _ => Assoc.get?_append_left

section Growth

variable {c : Sources} {late : TypeRef → Prop} {stack : Stack} {file : String} {p p' : Progress}

theorem Need.DeclaredSettled.mono {d : Declared} (h : DeclaredSettled stack p d) (hp : p.Le p') :
    DeclaredSettled stack p' d :=
  h.imp id hp.has

theorem Need.Settled.mono {n : Need} (h : n.Settled c stack p) (hp : p.Le p') : n.Settled c stack p' := by
  cases n with
  | declared d => exact DeclaredSettled.mono h hp
  | code type => exact ⟨h.1, fun d hd => (h.2 d hd).mono hp⟩
  | fragment name | operation j | arguments j => exact hp.has h

theorem Need.Done.mono {n : Need} (h : n.Done c late stack p) (hp : p.Le p') : n.Done c late stack p' :=
  h.imp (fun hs => hs.mono hp) id

theorem except_bind_ok {ε α β : Type} {x : Except ε α} {f : α → Except ε β} {b : β} (h : (x >>= f) = .ok b) :
    ∃ a, x = .ok a ∧ f a = .ok b := by
  cases x with
  | error e => cases h
  | ok a => exact ⟨a, rfl, h⟩

theorem except_map_ok {ε α β : Type} {x : Except ε α} {f : α → β} {b : β} (h : x.map f = .ok b) :
    ∃ a, x = .ok a ∧ f a = b := by
  cases x with
  | error e => cases h
  | ok a => exact ⟨a, rfl, Except.ok.inj h⟩

/-- What does not fail gives a result. -/
theorem eq_ok_of_isOk {ε α σ : Type} {x : Except ε α × σ} (h : x.1.isOk = true) : ∃ a s, x = (.ok a, s) := by
  obtain ⟨_ | a, s⟩ := x
  · cases h
  · exact ⟨a, s, rfl⟩

/-- A fragment that is met is known. -/
theorem Need.known_of_complete {name : String} (h : (Need.fragment name).complete c file p = .ok p') :
    ∃ f, Assoc.get? c.fragments name = some f := by
  simp only [Need.complete] at h
  cases hf : Assoc.get? c.fragments name with
  | none => simp [hf] at h
  | some f => exact ⟨f, rfl⟩

/-- Meeting a need adds a piece for its node, in the file. -/
theorem Need.complete_eq {n : Need} (h : n.complete c file p = .ok p') :
    n.node? = none ∧ p' = p ∨
      ∃ node piece, n.node? = some node ∧ piece.file = file ∧ p' = p ++ [(node, piece)] := by
  cases n with
  | declared d =>
    obtain ⟨draft, -, h⟩ := except_bind_ok h
    exact Or.inr ⟨_, _, rfl, rfl, (Except.ok.inj h).symm⟩
  | code type =>
    obtain ⟨text, -, h⟩ := except_bind_ok h
    exact Or.inl ⟨rfl, (Except.ok.inj h).symm⟩
  | fragment name =>
    simp only [Need.complete] at h
    cases hf : Assoc.get? c.fragments name with
    | none => simp [hf] at h
    | some f =>
      rw [hf] at h
      obtain ⟨s, -, h⟩ := except_bind_ok h
      obtain ⟨piece, hpiece, h⟩ := except_bind_ok h
      obtain ⟨fields, -, hpiece⟩ := except_bind_ok hpiece
      obtain ⟨shape, -, hpiece⟩ := except_bind_ok hpiece
      exact Or.inr ⟨_, _, rfl, congrArg Piece.file (Except.ok.inj hpiece).symm, (Except.ok.inj h).symm⟩
  | operation j =>
    obtain ⟨s, -, h⟩ := except_bind_ok h
    obtain ⟨shape, -, h⟩ := except_bind_ok h
    exact Or.inr ⟨_, _, rfl, rfl, (Except.ok.inj h).symm⟩
  | arguments j =>
    obtain ⟨draft, -, h⟩ := except_bind_ok h
    exact Or.inr ⟨_, _, rfl, rfl, (Except.ok.inj h).symm⟩

theorem Need.le_complete {n : Need} (h : n.complete c file p = .ok p') : p.Le p' := by
  rcases Need.complete_eq h with ⟨-, rfl⟩ | ⟨node, piece, -, -, rfl⟩
  · exact fun _ _ h => h
  · exact Progress.le_append p _

theorem Run.le {needs : List Need} (h : Run c late stack file p needs (.ok p')) : p.Le p' := by
  generalize ho : Except.ok p' = o at h
  induction h generalizing p' with
  | nil =>
    cases ho
    exact fun _ _ h => h
  | later _ _ ih => exact ih ho
  | settled _ _ ih => exact ih ho
  | circular => cases ho
  | broken => cases ho
  | lacking => cases ho
  | built _ _ _ hb _ ih ihr =>
    exact fun node piece hn => ihr ho node piece (Need.le_complete hb node piece (ih rfl node piece hn))

theorem has_append_self (p : Progress) (node : Node) (piece : Piece) : Assoc.has (p ++ [(node, piece)]) node := by
  rw [Assoc.has]
  cases hp : Assoc.get? p node with
  | none => simp [Assoc.get?_append_right hp, Assoc.get?_cons]
  | some piece => simp [Assoc.get?_append_left hp]

/-- The node of a need that was met was made. -/
theorem Need.has_complete {n : Need} {node : Node} (h : n.complete c file p = .ok p') (hn : n.node? = some node) :
    Assoc.has p' node := by
  rcases Need.complete_eq h with ⟨hnone, -⟩ | ⟨node', piece, hnode, -, rfl⟩
  · rw [hn] at hnone
    cases hnone
  · rw [hn] at hnode
    cases hnode
    exact has_append_self p node piece

/-- A need that was met is settled, once there is nothing to make for what it needs. -/
theorem Need.settled_complete {n : Need} (h : n.complete c file p = .ok p')
    (hneeds : ∀ m ∈ n.needs c, m.Done c late (n.push stack) p) : n.Settled c stack p' := by
  cases n with
  | declared d => exact Or.inr (Need.has_complete h rfl)
  | code type =>
    have hle := Need.le_complete h
    obtain ⟨text, hd, -⟩ := except_bind_ok h
    refine ⟨⟨text, hd⟩, fun d hd => ?_⟩
    rcases hneeds _ hd with hs | ⟨type, ht, -⟩
    · exact DeclaredSettled.mono hs hle
    · cases ht
  | fragment name | operation j | arguments j => exact Need.has_complete h rfl

/-- After a run there is nothing to make for what was needed. -/
theorem Run.done {needs : List Need} (h : Run c late stack file p needs (.ok p')) :
    ∀ n ∈ needs, n.Done c late stack p' := by
  generalize ho : Except.ok p' = o at h
  induction h generalizing p' with
  | nil => exact fun n hn => absurd hn List.not_mem_nil
  | later ht _ ih =>
    intro n hn
    rcases List.mem_cons.1 hn with rfl | hn
    · exact Or.inr ⟨_, rfl, ht⟩
    · exact ih ho n hn
  | settled hs hr ih =>
    intro n hn
    rcases List.mem_cons.1 hn with rfl | hn
    · exact Or.inl (hs.mono (Run.le (ho ▸ hr)))
    · exact ih ho n hn
  | circular => cases ho
  | broken => cases ho
  | lacking => cases ho
  | built _ _ _ hb hr ih ihr =>
    intro n hn
    rcases List.mem_cons.1 hn with rfl | hn
    · exact Or.inl ((Need.settled_complete hb (ih rfl)).mono (Run.le (ho ▸ hr)))
    · exact ihr ho n hn

end Growth

end ResponseTypes.Compile
