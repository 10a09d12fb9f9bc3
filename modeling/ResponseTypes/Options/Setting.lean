import ResponseTypes.Decimal
import ResponseTypes.Hook
import ResponseTypes.Naming.Conventions
import ResponseTypes.Text.Quoted

/-!
# Settings

A `Setting` is a value that options are given by, before it is known whether it fits.  `Setting.print` writes one in a
message.
-/

namespace ResponseTypes

set_option autoImplicit false

inductive Setting where
  | null
  | bool (b : Bool)
  | int (n : Int)
  /-- a number with a fraction or an exponent -/
  | decimal (d : Decimal)
  /-- a number beyond all others -/
  | infinite (negative : Bool)
  /-- no number, where there should be one -/
  | undefined
  | text (s : String)
  | list (items : List Setting)
  | object (entries : List (String × Setting))
  | naming (conventions : Naming.Conventions)
  | hook (hook : Hook)
deriving Inhabited

namespace Setting

/-- The setting says nothing. -/
def isEmpty : Setting → Bool
  | null | bool false | text "" | list [] | object [] => true
  | int n => n == 0
  | decimal d => d.digits == 0
  | _ => false

mutual

/-- The written form of a setting. -/
def print : Setting → String
  | null => "None"
  | bool true => "True"
  | bool false => "False"
  | int n => toString n
  | decimal d => d.print
  | infinite negative => if negative then "-inf" else "inf"
  | undefined => "nan"
  | text s => Text.quoted s
  | list items => "[" ++ Text.joinWith ", " (printList items) ++ "]"
  | object entries => "\x7b" ++ Text.joinWith ", " (printEntries entries) ++ "\x7d"
  | naming _ => "naming conventions"
  | hook _ => "a hook"

def printList : List Setting → List String
  | [] => []
  | s :: rest => print s :: printList rest

def printEntries : List (String × Setting) → List String
  | [] => []
  | (k, s) :: rest => (Text.quoted k ++ ": " ++ print s) :: printEntries rest

end

end Setting

end ResponseTypes
