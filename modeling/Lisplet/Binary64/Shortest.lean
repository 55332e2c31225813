import Lisplet.Binary64.Fixed

/-!
Shortest text: the fewest significant digits that read back as the same number, of several such
the nearest to it, a tie to the even last digit.
-/

set_option autoImplicit false

namespace Lisplet.Binary64

/-- `digits * 10 ^ exponent`. -/
structure Decimal where
  digits : Nat
  exponent : Int
  deriving DecidableEq

/-- The grid that all texts of a number are taken from: its value times `10 ^ 400` has at least
one significant digit, however small it is. -/
abbrev gridPlaces : Nat := 400

def onGrid (rank : Nat) : Nat := units rank * 10 ^ gridPlaces

def Decimal.readsBack (rank : Nat) (d : Decimal) : Bool :=
  ofScaled false d.digits 10 d.exponent == ofRank false rank

/-- The text of `count` digits that reads back, if the value's two neighbours of that length
hold one. `length` is the number of digits of the value on the grid, before its point. -/
def shorter? (rank length count : Nat) : Option Decimal :=
  let step := unitsPerOne * 10 ^ (length - count)
  let exponent : Int := (length : Int) - gridPlaces - count
  let low : Decimal := ⟨onGrid rank / step, exponent⟩
  let high : Decimal := ⟨low.digits + 1, exponent⟩
  let near : Decimal := ⟨divNearest (onGrid rank) step, exponent⟩
  match low.readsBack rank, high.readsBack rank with
  | true, true => some near
  | true, false => some low
  | false, true => some high
  | false, false => none

/-- Seventeen significant digits always read back. -/
def shortest (rank : Nat) : Decimal :=
  let length := (onGrid rank / unitsPerOne).repr.length
  match (List.range 17).findSome? fun i => shorter? rank length (i + 1) with
  | some d => d
  | none => ⟨0, 0⟩

def Decimal.digitText (d : Decimal) : List Char :=
  (d.digits.repr.toList.reverse.dropWhile (· == '0')).reverse

def Decimal.point (d : Decimal) : Int := (d.digits.repr.length : Int) + d.exponent

def exponentText (e : Int) : List Char :=
  let digits := e.natAbs.repr.toList
  'e' :: (if e < 0 then '-' else '+') :: (List.replicate (2 - digits.length) '0' ++ digits)

/-- Magnitudes from `10 ^ -4` up to `10 ^ 16` are written without an exponent, and then with at
least one decimal. -/
def Decimal.text (d : Decimal) : List Char :=
  let digits := d.digitText
  let point := d.point
  if point ≤ -4 || 16 < point then
    match digits with
    | [] => []
    | [first] => first :: exponentText (point - 1)
    | first :: rest => first :: '.' :: (rest ++ exponentText (point - 1))
  else if point ≤ 0 then '0' :: '.' :: (List.replicate (-point).toNat '0' ++ digits)
  else
    let whole := point.toNat
    if digits.length ≤ whole then
      digits ++ List.replicate (whole - digits.length) '0' ++ ['.', '0']
    else digits.take whole ++ '.' :: digits.drop whole

example : Decimal.text ⟨5, -324⟩ = "5e-324".toList := by decide +kernel
example : Decimal.text ⟨1, 16⟩ = "1e+16".toList := by decide +kernel
example : Decimal.text ⟨12500, -2⟩ = "125.0".toList := by decide +kernel
example : Decimal.text ⟨1, -4⟩ = "0.0001".toList := by decide +kernel

def shortText : Binary64 → String
  | .nan => "nan"
  | .infinite negative => signText negative ++ "inf"
  | .finite negative rank =>
    signText negative ++
      if rank.val = 0 then "0.0" else String.ofList (shortest rank).text

end Lisplet.Binary64
