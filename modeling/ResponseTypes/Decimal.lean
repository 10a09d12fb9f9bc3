/-!
# Decimal fractions

A `Decimal` is a number written in decimal digits, with a sign and a power of ten.  `Decimal.print` writes it with a
point if its size is moderate, and with an exponent otherwise.
-/

namespace ResponseTypes

set_option autoImplicit false

/-- The number `digits * 10 ^ power`, or its opposite.  Zero has a sign too. -/
structure Decimal where
  negative : Bool
  digits : Nat
  power : Int
deriving DecidableEq, Repr, Inhabited

namespace Decimal

/-- The whole number that it is, if it is one. -/
def whole? (d : Decimal) : Option Int :=
  let signed : Int := if d.negative then -d.digits else d.digits
  if 0 ≤ d.power then some (signed * Nat.pow 10 d.power.toNat)
  else
    let unit : Int := Nat.pow 10 d.power.natAbs
    if signed % unit = 0 then some (signed / unit) else none

/-- Digits without zeros at the end; zero has one digit. -/
def significant (digits : Nat) : List Char :=
  let shown := (toString digits).toList
  match (shown.reverse.dropWhile (· == '0')).reverse with
  | [] => ['0']
  | kept => kept

/-- Digits with the point after the first `point` of them, filled up with zeros on both sides. -/
def printFixed (shown : List Char) (point : Int) : List Char :=
  if point ≤ 0 then '0' :: '.' :: List.replicate point.natAbs '0' ++ shown
  else
    let whole := shown.take point.toNat
    let rest := shown.drop point.toNat
    whole ++ List.replicate (point.toNat - whole.length) '0' ++ '.' :: (if rest.isEmpty then ['0'] else rest)

/-- Digits with the point after the first, and a power of ten of two digits at least. -/
def printScientific (shown : List Char) (power : Int) : List Char :=
  let size := (toString power.natAbs).toList
  let rest := shown.drop 1
  shown.take 1 ++ (if rest.isEmpty then [] else '.' :: rest) ++
    ['e', if power < 0 then '-' else '+'] ++ List.replicate (2 - size.length) '0' ++ size

/-- The written form.  A point is enough while the first digit stands at most four places behind it or the last at most
sixteen before it. -/
def print (d : Decimal) : String :=
  let shown := significant d.digits
  let point : Int := if d.digits = 0 then 1 else (toString d.digits).length + d.power
  String.ofList ((if d.negative then ['-'] else []) ++
    if -4 < point && point ≤ 16 then printFixed shown point else printScientific shown (point - 1))

end Decimal

end ResponseTypes
