/-!
# Documents

The definitions that a document of the query language holds: operations, fragments, and the definitions of a schema.
Texts of operations and fragments are kept as they were written (`source`); documents may come without them.
-/

namespace ResponseTypes.GraphQL

set_option autoImplicit false

/-! ## Values and directives -/

/-- How a value without parts is written. -/
inductive LiteralKind where
  | variable
  | int
  | float
  | string
  | block
  | boolean
  | null
  | enum
deriving DecidableEq, Repr

inductive Value where
  | literal (kind : LiteralKind) (text : String)
  | list (items : List Value)
  | object (fields : List (String × Value))
deriving Repr, Inhabited

namespace Value

mutual

/-- Equality of values is decidable. -/
def decEq : (a b : Value) → Decidable (a = b)
  | literal k t, literal k' t' => decidable_of_iff (k = k' ∧ t = t') (by simp)
  | list as, list bs => @decidable_of_iff _ (as = bs) (by simp) (decEqList as bs)
  | object as, object bs => @decidable_of_iff _ (as = bs) (by simp) (decEqFields as bs)
  | literal _ _, list _ | literal _ _, object _ | list _, literal _ _ | list _, object _
  | object _, literal _ _ | object _, list _ => isFalse nofun

/-- Equality of lists of values is decidable. -/
def decEqList : (as bs : List Value) → Decidable (as = bs)
  | [], [] => isTrue rfl
  | [], _ :: _ | _ :: _, [] => isFalse nofun
  | a :: as, b :: bs =>
    @decidable_of_iff _ (a = b ∧ as = bs) (by simp) (@instDecidableAnd _ _ (decEq a b) (decEqList as bs))

/-- Equality of lists of named values is decidable. -/
def decEqFields : (as bs : List (String × Value)) → Decidable (as = bs)
  | [], [] => isTrue rfl
  | [], _ :: _ | _ :: _, [] => isFalse nofun
  | (k, a) :: as, (l, b) :: bs =>
    @decidable_of_iff _ ((k = l ∧ a = b) ∧ as = bs) (by simp)
      (@instDecidableAnd _ _ (@instDecidableAnd _ _ inferInstance (decEq a b)) (decEqFields as bs))

end

instance : DecidableEq Value := decEq

end Value

structure Directive where
  name : String
  arguments : List (String × Value)
deriving DecidableEq, Repr

/-! ## Selections -/

/-- A selected field without what is selected below it. -/
structure FieldHead where
  /-- the key it asks for instead of its name -/
  label : Option String
  name : String
  arguments : List (String × Value)
  directives : List Directive
deriving DecidableEq, Repr

/-- The key of a field in the response. -/
def FieldHead.key (f : FieldHead) : String :=
  f.label.getD f.name

inductive Selection where
  /-- a field; nothing is selected below a leaf -/
  | field (head : FieldHead) (below : List Selection)
  | spread (fragment : String) (directives : List Directive)
  /-- selections that apply to values of a type, or of any type -/
  | inline (condition : Option String) (directives : List Directive) (below : List Selection)
deriving Repr, Inhabited

namespace Selection

mutual

/-- Equality of selections is decidable. -/
def decEq : (a b : Selection) → Decidable (a = b)
  | field f as, field g bs =>
    @decidable_of_iff _ (f = g ∧ as = bs) (by simp) (@instDecidableAnd _ _ inferInstance (decEqList as bs))
  | spread f ds, spread g es => decidable_of_iff (f = g ∧ ds = es) (by simp)
  | inline c ds as, inline d es bs =>
    @decidable_of_iff _ ((c = d ∧ ds = es) ∧ as = bs) (by simp [and_assoc])
      (@instDecidableAnd _ _ inferInstance (decEqList as bs))
  | field _ _, spread _ _ | field _ _, inline _ _ _ | spread _ _, field _ _ | spread _ _, inline _ _ _
  | inline _ _ _, field _ _ | inline _ _ _, spread _ _ => isFalse nofun

/-- Equality of lists of selections is decidable. -/
def decEqList : (as bs : List Selection) → Decidable (as = bs)
  | [], [] => isTrue rfl
  | [], _ :: _ | _ :: _, [] => isFalse nofun
  | a :: as, b :: bs =>
    @decidable_of_iff _ (a = b ∧ as = bs) (by simp) (@instDecidableAnd _ _ (decEq a b) (decEqList as bs))

end

instance : DecidableEq Selection := decEq

def directives : Selection → List Directive
  | field f _ => f.directives
  | spread _ ds | inline _ ds _ => ds

/-- A directive may remove the selection from the response. -/
def isConditional (s : Selection) : Bool :=
  s.directives.any (fun d => d.name == "skip" || d.name == "include")

end Selection

/-! ## Definitions -/

/-- A type as it is written: a name in list and non-null wrappers. -/
inductive TypeRef where
  | named (name : String)
  | list (of : TypeRef)
  | nonNull (of : TypeRef)
deriving DecidableEq, Repr, Inhabited

namespace TypeRef

/-- The name inside all wrappers. -/
def base : TypeRef → String
  | named n => n
  | list t | nonNull t => base t

/-- The written form. -/
def text : TypeRef → String
  | named n => n
  | list t => "[" ++ text t ++ "]"
  | nonNull t => text t ++ "!"

def isNonNull : TypeRef → Bool
  | nonNull _ => true
  | _ => false

end TypeRef

inductive OperationKind where
  | query
  | mutation
  | subscription
deriving DecidableEq, Repr

namespace OperationKind

def name : OperationKind → String
  | query => "query"
  | mutation => "mutation"
  | subscription => "subscription"

/-- The name of the root type that a schema uses unless it says otherwise. -/
def defaultRoot : OperationKind → String
  | query => "Query"
  | mutation => "Mutation"
  | subscription => "Subscription"

def all : List OperationKind :=
  [query, mutation, subscription]

def ofName? (s : String) : Option OperationKind :=
  all.find? (fun k => k.name == s)

end OperationKind

structure VariableDef where
  name : String
  type : TypeRef
  hasDefault : Bool
deriving DecidableEq, Repr

structure Operation where
  kind : OperationKind
  name : Option String
  variableDefs : List VariableDef
  directives : List Directive
  selections : List Selection
  source : Option String
deriving DecidableEq, Repr

structure Fragment where
  name : String
  condition : String
  directives : List Directive
  selections : List Selection
  source : Option String
deriving DecidableEq, Repr

/-- An argument, or a field of an input type. -/
structure InputDef where
  name : String
  type : TypeRef
  description : Option String
deriving DecidableEq, Repr

structure FieldDef where
  name : String
  type : TypeRef
  arguments : List InputDef
  description : Option String
deriving DecidableEq, Repr

structure EnumValueDef where
  name : String
  description : Option String
deriving DecidableEq, Repr

inductive TypeBody where
  | scalar
  | object (interfaces : List String) (fields : List FieldDef)
  | interface (interfaces : List String) (fields : List FieldDef)
  | union (members : List String)
  | enum (values : List EnumValueDef)
  | input (fields : List InputDef)
deriving DecidableEq, Repr

structure TypeDef where
  name : String
  body : TypeBody
  description : Option String
deriving DecidableEq, Repr

/-- The root types that a schema lists. -/
abbrev RootDefs := List (OperationKind × String)

inductive Definition where
  | operation (op : Operation)
  | fragment (frag : Fragment)
  | schema (roots : RootDefs)
  | type (type : TypeDef)
  | directive (name : String) (arguments : List InputDef)
  | extendSchema (roots : RootDefs)
  | extendType (type : TypeDef)
deriving DecidableEq, Repr

structure Document where
  definitions : List Definition
deriving DecidableEq, Repr

namespace Document

def fragments (d : Document) : List Fragment :=
  d.definitions.filterMap (fun
    | .fragment f => some f
    | _ => none)

def operations (d : Document) : List Operation :=
  d.definitions.filterMap (fun
    | .operation op => some op
    | _ => none)

/-- The document as if its text were not known. -/
def withoutSources (d : Document) : Document :=
  ⟨d.definitions.map (fun
    | .operation op => .operation { op with source := none }
    | .fragment f => .fragment { f with source := none }
    | other => other)⟩

end Document

end ResponseTypes.GraphQL
