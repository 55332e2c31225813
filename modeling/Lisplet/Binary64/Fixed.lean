import Lisplet.Binary64.Rounding

/-!
Fixed places: the exact value of a number rounded once to so many decimals, a tie to the even
last digit, with every digit of the integer part written out.
-/

set_option autoImplicit false

namespace Lisplet.Binary64

def signText (negative : Bool) : String := if negative then "-" else ""

def pointText (places scaled : Nat) : String :=
  let fraction := (scaled % 10 ^ places).repr
  (scaled / 10 ^ places).repr ++ "." ++ "".pushn '0' (places - fraction.length) ++ fraction

def toPlaces (places rank : Nat) : Nat := divNearest (units rank * 10 ^ places) unitsPerOne

/-- The sign stays when all the digits are zeros. What is no number has none. -/
def fixedText (places : Nat) : Binary64 → String
  | .nan => "nan"
  | .infinite negative => signText negative ++ "inf"
  | .finite negative rank => signText negative ++ pointText places (toPlaces places rank)

end Lisplet.Binary64
