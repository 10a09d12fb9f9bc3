import ResponseTypes.Shape.Basic
import ResponseTypes.Text.Quoted

/-!
# Shape keys

Two shapes are identical when their keys are equal.  Descriptions and the names of concrete types do not take part; the
order of fields, of omitted fields and of union branches does not either.  Union branches are ordered by the written
form of their keys, `ShapeKey.text`.
-/

namespace ResponseTypes

set_option autoImplicit false

/-- A nested sequence of texts and truth values. -/
inductive ShapeKey where
  | text (s : String)
  | flag (b : Bool)
  | absent
  | seq (items : List ShapeKey)
deriving Repr, Inhabited

namespace ShapeKey

mutual

/-- Equality of keys is decidable. -/
def decEq : (a b : ShapeKey) → Decidable (a = b)
  | text a, text b => decidable_of_iff (a = b) (by simp)
  | flag a, flag b => decidable_of_iff (a = b) (by simp)
  | absent, absent => isTrue rfl
  | seq as, seq bs => @decidable_of_iff _ (as = bs) (by simp) (decEqList as bs)
  | text _, flag _ | text _, absent | text _, seq _ | flag _, text _ | flag _, absent | flag _, seq _
  | absent, text _ | absent, flag _ | absent, seq _ | seq _, text _ | seq _, flag _ | seq _, absent => isFalse nofun

/-- Equality of lists of keys is decidable. -/
def decEqList : (as bs : List ShapeKey) → Decidable (as = bs)
  | [], [] => isTrue rfl
  | [], _ :: _ | _ :: _, [] => isFalse nofun
  | a :: as, b :: bs =>
    @decidable_of_iff _ (a = b ∧ as = bs) (by simp) (@instDecidableAnd _ _ (decEq a b) (decEqList as bs))

end

instance : DecidableEq ShapeKey := decEq

mutual

/-- The written form of a key: items stand in parentheses, a lone one is followed by a comma. -/
def print : ShapeKey → String
  | text s => Text.quoted s
  | flag b => if b then "True" else "False"
  | absent => "None"
  | seq [] => "()"
  | seq [a] => "(" ++ print a ++ ",)"
  | seq (a :: b :: rest) => "(" ++ print a ++ printRest (b :: rest) ++ ")"

/-- The written form of the items after the first. -/
def printRest : List ShapeKey → String
  | [] => ""
  | a :: rest => ", " ++ print a ++ printRest rest

end

/-- A text, or nothing. -/
def ofOption : Option String → ShapeKey
  | some s => text s
  | none => absent

/-- The keys in the order of their written forms. -/
def sortByPrint (keys : List ShapeKey) : List ShapeKey :=
  Text.sortBy (fun a b => decide (a.print ≤ b.print)) keys

end ShapeKey

namespace Shape

/-- Entries in the order of their keys. -/
def sortEntries {α : Type} (entries : List (String × α)) : List (String × α) :=
  Text.sortBy (fun a b => decide (a.1 ≤ b.1)) entries

/-- What stands in a key for a type tag that is ignored. -/
def anyTag : ShapeKey :=
  .seq [.text "discriminant"]

mutual

/-- The key of a shape.  With `ignoreTags` the tags among its own fields all count as one. -/
def key (ignoreTags : Bool) : Shape → ShapeKey
  | scalar code n => .seq [.text "scalar", .text code, .flag n.nullable]
  | tag t n =>
    .seq [.text "discriminant", .seq (t.names.map .text), .ofOption t.within, .flag n.nullable]
  | object _ fields n =>
    .seq [.text "object",
      .seq ((sortEntries (fieldKeys ignoreTags fields)).map (fun e => .seq [.text e.1, e.2])), .flag n.nullable]
  | array element elementNullable n =>
    .seq [.text "array", key false element, .flag elementNullable, .flag n.nullable]
  | union branches n =>
    .seq [.text "union", .seq (ShapeKey.sortByPrint (listKeys branches)), .flag n.nullable]
  | inter parts n => .seq [.text "intersection", .seq (listKeys parts), .flag n.nullable]
  | ref r n =>
    .seq [.text "fragment", .text r.artifact, .seq ((Text.sorted r.omitted).map .text), .flag n.nullable]

/-- The keys of some shapes. -/
def listKeys : List Shape → List ShapeKey
  | [] => []
  | s :: rest => key false s :: listKeys rest

/-- The keys of some fields. -/
def fieldKeys (ignoreTags : Bool) : List (String × Shape) → List (String × ShapeKey)
  | [] => []
  | (k, s) :: rest =>
    (k, if ignoreTags && s.isTag then anyTag else key false s) :: fieldKeys ignoreTags rest

end

/-- The two describe the same shape. -/
def identical (a b : Shape) : Bool :=
  decide (key false a = key false b)

/-- Some shape of the list is identical to `s`. -/
def occursIn (s : Shape) (shapes : List Shape) : Bool :=
  shapes.any (fun t => identical s t)

end Shape

end ResponseTypes
