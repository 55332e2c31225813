import Lisplet.Binary64.Rounding
import Lisplet.Value

/-!
Numbers as values. Arithmetic works on binary64 numbers, and a result that is an integer of the
signed 64-bit range is a `long`, so each number has one form.
-/

set_option autoImplicit false

namespace Lisplet

def isLong (n : Int) : Bool := -(2 ^ 63 : Int) ≤ n && n < (2 ^ 63 : Int)

/-- The integer part, when it exists and a `long` holds it. -/
def Binary64.toLong? (x : Binary64) : Option Int :=
  match x.truncate with
  | some n => if isLong n then some n else none
  | none => none

theorem Binary64.isLong_of_toLong? {x : Binary64} {n : Int} (h : x.toLong? = some n) :
    isLong n = true := by
  unfold Binary64.toLong? at h
  split at h
  · split at h
    · cases h; assumption
    · cases h
  · cases h

namespace Value

def ofNumber (x : Binary64) : Value :=
  match x.toLong? with
  | some n => if x.isInt n then .long n else .double x
  | none => .double x

def number? : Value → Option Binary64
  | .long n => some (.ofInt n)
  | .double x => some x
  | _ => none

theorem ofNumber_cases (x : Binary64) : (∃ n, ofNumber x = .long n) ∨ ofNumber x = .double x := by
  unfold ofNumber
  split
  · split
    · exact .inl ⟨_, rfl⟩
    · exact .inr rfl
  · exact .inr rfl

theorem isNumber_ofNumber (x : Binary64) : (ofNumber x).isNumber = true := by
  rcases ofNumber_cases x with ⟨n, hlong⟩ | hdouble
  · rw [hlong]
    rfl
  · rw [hdouble]
    rfl

end Value

end Lisplet
