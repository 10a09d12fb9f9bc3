import ResponseTypes.Compile.Fragment

/-!
# Compiling operations

The shape of an operation's response is the shape of its selections on the root type; fragments on the root type itself
stand there with their selections.  Each named operation yields two types, of its response and of its variables.
-/

namespace ResponseTypes.Compile

set_option autoImplicit false

open GraphQL (Operation Selection TypeDef VariableDef)

/-- A named operation of a file, with its root type. -/
structure Job where
  op : Operation
  name : String
  root : TypeDef
  file : String

namespace Job

/-- The name of the type of the response. -/
def typeName (c : Config) (j : Job) : String :=
  c.naming.operation j.name j.root.name

/-- The name of the type of the variables. -/
def variablesTypeName (c : Config) (j : Job) : String :=
  c.naming.operationVariables j.name j.root.name

end Job

theorem sizeOf_fragment_lt {fragments : Assoc String FragmentDef} {name : String} {f : FragmentDef}
    (h : Assoc.get? fragments name = some f) : sizeOf f.fragment.selections < sizeOf fragments := by
  have hentry := List.sizeOf_lt_of_mem (Assoc.mem_of_get? h)
  have hselections : sizeOf f.fragment.selections < sizeOf (name, f) := by
    obtain ⟨⟨_, _, _, _, _⟩, _⟩ := f
    simp only [Prod.mk.sizeOf_spec, FragmentDef.mk.sizeOf_spec, GraphQL.Fragment.mk.sizeOf_spec]
    omega
  omega

/-- The selections with the selections of each fragment on the root type in the place of its spread.  The fragments in
`inside` are being replaced: replacing one of them again would never end.  Asking for a fragment finds out whether it
spreads itself, but only if its type is yet to be generated. -/
def inlineRoot (c : Sources) (root : String) (inside : List String) : List Selection → Plan (List Selection)
  | [] => .done []
  | .spread name directives :: rest =>
    .spread name fun _ =>
      match _h : Assoc.get? c.fragments name with
      | none => .lack (.fragmentNotFound name)
      | some f =>
        if f.fragment.condition = root then
          if _hi : name ∈ inside then .lack (fun _ => .endless)
          else do
            let inlined ← inlineRoot c root (name :: inside) f.fragment.selections
            return inlined ++ (← inlineRoot c root inside rest)
        else do return .spread name directives :: (← inlineRoot c root inside rest)
  | s :: rest => do return s :: (← inlineRoot c root inside rest)
termination_by sels => remaining (Assoc.keys c.fragments) inside * sizeOf c.fragments + sizeOf sels
decreasing_by
  · -- the selections of a fragment are smaller than all fragments, and one more of these is inside
    have hless := remaining_cons_lt (Assoc.mem_keys_of_get? _h) _hi
    have hinside := Nat.mul_le_mul_right (sizeOf c.fragments) (Nat.succ_le_of_lt hless)
    have hsmall := sizeOf_fragment_lt _h
    rw [Nat.succ_mul] at hinside
    omega
  all_goals
    simp only [List.cons.sizeOf_spec]
    omega

/-- What is selected in an operation, before fragments are composed. -/
def operationPlan (c : Sources) (op : Operation) (root : TypeDef) : Plan Shape := do
  let sels ← inlineRoot c root.name [] op.selections
  let s ← selection c.toConfig root sels
  return s.simplify

/-- The shape of an operation's response. -/
def operationShape (c : Setup) (op : Operation) (root : TypeDef) : Step Shape := do
  let spread := useFragment c (generator c)
  let s ← (operationPlan c.toSources op root).perform c.cached (host c spread)
  finish (generator c) s

/-- The type of an operation's response, given its shape. -/
def operationDraft (c : Config) (j : Job) (s : Shape) : Draft where
  name := j.typeName c
  code := c.templates.typeAlias (j.typeName c) (Script.render c.output 0 s)
    (Script.typeDoc c.output none (linkable j.file) j.op.source) true
  graphqlName := some j.name
  source := j.op.source
  identifier := some j.name

/-- Compiles the response of an operation. -/
def buildOperation (c : Setup) (j : Job) : Step Draft := do
  count "operations"
  (ensureHelpers c.toConfig).perform c.cached (host c (useFragment c (generator c)))
  return operationDraft c.toConfig j (← operationShape c j.op j.root)

/-- A variable as a field of the variables' type. -/
def variableEntry (c : Config) (v : VariableDef) : Plan Script.Entry := do
  if (c.schema.type? v.type.base).isNone then .lack (.typeNotFound v.type.base)
  else
    let code ← inputCode v.type
    return ⟨v.name, ⟨!v.type.isNonNull || v.hasDefault, none⟩, code⟩

/-- What compiling the variables of an operation does. -/
def variablesPlan (c : Config) (j : Job) : Plan Draft := do
  ensureHelpers c
  .declare (.helper Script.exactName) (.done ())
  let entries ← j.op.variableDefs.mapM (variableEntry c)
  let entries := Assoc.values (Assoc.ofList (entries.map (fun e => (e.key, e))))
  let code := if entries.isEmpty then Script.noVariables else Script.renderInputFields c.output entries
  return {
    name := j.variablesTypeName c
    code := c.templates.typeAlias (j.variablesTypeName c) (Script.exactName ++ "<" ++ code ++ ">") none true
    graphqlName := some j.name }

/-- Compiles the variables of an operation. -/
def buildVariables (c : Setup) (j : Job) : Step Draft :=
  (variablesPlan c.toConfig j).perform c.cached (host c (useFragment c (generator c)))

/-- The variable must be given: it can be neither null nor left out. -/
def isRequired (c : Config) (v : VariableDef) : Bool :=
  (c.schema.type? v.type.base).isSome && v.type.isNonNull && !v.hasDefault

/-- An operation with what it depends on. -/
def collected (c : Config) (j : Job) (keys : List String) : CollectedOperation where
  name := j.name
  kind := j.op.kind
  typeName := j.typeName c
  variablesTypeName := j.variablesTypeName c
  hasVariables := !j.op.variableDefs.isEmpty
  needsVariables := j.op.variableDefs.any (isRequired c)
  origin := ⟨j.file, keys⟩
  source := j.op.source

/-- Generates the types of an operation. -/
def generateJob (c : Setup) (j : Job) : Step CollectedOperation := do
  Tracking.start none
  let _ ← artifact .operation j.name none (buildOperation c j)
  let _ ← artifact .operationVariables j.name none (buildVariables c j)
  return collected c.toConfig j (← Tracking.finish)

/-- Generates the types of an operation of a file.  An operation without a name is skipped. -/
def generateOperation (c : Setup) (op : Operation) (file : String) : Step (Option CollectedOperation) := do
  match op.name with
  | none =>
    note .debug ("Skipping anonymous " ++ op.kind.name ++ " in " ++ file)
    return none
  | some name =>
    match c.schema.root? op.kind with
    | none => Action.fail (.rootTypeMissing name op.kind.name (some file))
    | some root => return some (← generateJob c ⟨op, name, root, file⟩)

end ResponseTypes.Compile
