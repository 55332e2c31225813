import Lisplet.Binary64.Rounding

/-!
The four operations: each rounds its exact result once. A sum of finite numbers that is exactly
zero is negative only when both operands are; products and quotients take the sign their
operands make.
-/

set_option autoImplicit false

namespace Lisplet.Binary64

/-- The number nearest to a whole count of units, where zero takes the sign given. -/
def ofSignedUnits (zeroNegative : Bool) (n : Int) : Binary64 :=
  if n = 0 then zeroOf zeroNegative else ofRatio (n < 0) n.natAbs 1

def add : Binary64 → Binary64 → Binary64
  | .nan, _ | _, .nan => .nan
  | .infinite s, .infinite t => if s = t then .infinite s else .nan
  | .infinite s, .finite _ _ => .infinite s
  | .finite _ _, .infinite t => .infinite t
  | .finite s r, .finite t q => ofSignedUnits (s && t) (signedUnits s r + signedUnits t q)

def sub (x y : Binary64) : Binary64 := x.add y.neg

def mul : Binary64 → Binary64 → Binary64
  | .nan, _ | _, .nan => .nan
  | .infinite s, .infinite t => .infinite (s != t)
  | .infinite s, .finite t q => if q.val = 0 then .nan else .infinite (s != t)
  | .finite s r, .infinite t => if r.val = 0 then .nan else .infinite (s != t)
  | .finite s r, .finite t q => ofRatio (s != t) (units r * units q) unitsPerOne

def div : Binary64 → Binary64 → Binary64
  | .nan, _ | _, .nan => .nan
  | .infinite _, .infinite _ => .nan
  | .infinite s, .finite t _ => .infinite (s != t)
  | .finite s _, .infinite t => zeroOf (s != t)
  | .finite s r, .finite t q =>
    if q.val = 0 then if r.val = 0 then .nan else .infinite (s != t)
    else ofRatio (s != t) (units r * unitsPerOne) (units q)

end Lisplet.Binary64
