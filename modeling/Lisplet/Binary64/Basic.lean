/-!
Binary64 numbers. The magnitudes from zero upwards are numbered in rising order, and a finite
number is its sign and the rank of its magnitude. Every magnitude is a whole number of units of
2^-1074, so exact arithmetic on these numbers is arithmetic on natural numbers.
-/

set_option autoImplicit false

-- Powers stay those of natural numbers and integers when an algebraic library is imported too.
attribute [instance (2000), default_instance 20000] instPowNat

namespace Lisplet

namespace Binary64

/-- Finite magnitudes have the ranks below this one. -/
abbrev rankBound : Nat := 2047 * 2 ^ 52

/-- Neighbouring magnitudes of this rank are two to this power units apart. -/
def exponentOf (rank : Nat) : Nat := rank / 2 ^ 52 - 1

def significandOf (rank : Nat) : Nat := rank - exponentOf rank * 2 ^ 52

/-- The magnitude of a rank, in units of 2^-1074. -/
def units (rank : Nat) : Nat := significandOf rank * 2 ^ exponentOf rank

abbrev unitsPerOne : Nat := 2 ^ 1074

theorem units_zero : units 0 = 0 := by simp [units, significandOf]

theorem units_of_lt {rank : Nat} (h : rank < 2 ^ 53) : units rank = rank := by
  have h0 : exponentOf rank = 0 := by unfold exponentOf; omega
  simp [units, significandOf, h0]

theorem significandOf_lt (rank : Nat) : significandOf rank < 2 ^ 53 := by
  unfold significandOf exponentOf; omega

theorem significandOf_ge {rank : Nat} (h : 2 ^ 52 ≤ rank) : 2 ^ 52 ≤ significandOf rank := by
  unfold significandOf exponentOf; omega

theorem units_succ (rank : Nat) : units (rank + 1) = units rank + 2 ^ exponentOf rank := by
  by_cases h : exponentOf (rank + 1) = exponentOf rank
  · have hs : significandOf (rank + 1) = significandOf rank + 1 := by
      unfold significandOf
      rw [h]
      unfold exponentOf
      omega
    rw [units, units, hs, h, Nat.add_mul, Nat.one_mul]
  · have he : exponentOf (rank + 1) = exponentOf rank + 1 := by
      unfold exponentOf at *; omega
    have hs : significandOf (rank + 1) = 2 ^ 52 := by
      unfold significandOf exponentOf at *; omega
    have hr : significandOf rank + 1 = 2 ^ 53 := by
      unfold significandOf exponentOf at *; omega
    have : units rank + 2 ^ exponentOf rank = (significandOf rank + 1) * 2 ^ exponentOf rank := by
      rw [units, Nat.add_mul, Nat.one_mul]
    rw [this, hr, units, hs, he, Nat.pow_succ]
    omega

theorem units_lt_succ (rank : Nat) : units rank < units (rank + 1) := by
  rw [units_succ]
  exact Nat.lt_add_of_pos_right (Nat.two_pow_pos _)

theorem units_strictMono {r s : Nat} (h : r < s) : units r < units s := by
  induction h with
  | refl => exact units_lt_succ r
  | step _ ih => exact Nat.lt_trans ih (units_lt_succ _)

theorem units_injective {r s : Nat} (h : units r = units s) : r = s := by
  rcases Nat.lt_trichotomy r s with hlt | heq | hgt
  · exact absurd h (Nat.ne_of_lt (units_strictMono hlt))
  · exact heq
  · exact absurd h.symm (Nat.ne_of_lt (units_strictMono hgt))

end Binary64

inductive Binary64 where
  | nan
  | infinite (negative : Bool)
  | finite (negative : Bool) (rank : Fin Binary64.rankBound)
  deriving DecidableEq

namespace Binary64

def zeroOf (negative : Bool) : Binary64 := .finite negative ⟨0, by decide⟩

def withSign (negative : Bool) (magnitude : Nat) : Int :=
  if negative then -(magnitude : Int) else magnitude

def signedUnits (negative : Bool) (rank : Nat) : Int := withSign negative (units rank)

/-- Where a number stands in the order; an infinity stands where the next rank would. -/
def position : Binary64 → Option Int
  | .nan => none
  | .infinite negative => some (signedUnits negative rankBound)
  | .finite negative rank => some (signedUnits negative rank)

def compare (test : Int → Int → Bool) (x y : Binary64) : Bool :=
  match x.position, y.position with
  | some a, some b => test a b
  | _, _ => false

def lt : Binary64 → Binary64 → Bool := compare (· < ·)
def le : Binary64 → Binary64 → Bool := compare (· ≤ ·)
def eq : Binary64 → Binary64 → Bool := compare (· == ·)

def isZero : Binary64 → Bool
  | .finite _ rank => rank.val == 0
  | _ => false

def isInt (n : Int) : Binary64 → Bool
  | .finite negative rank => n * unitsPerOne == signedUnits negative rank
  | _ => false

def truncate : Binary64 → Option Int
  | .finite negative rank => some (withSign negative (units rank / unitsPerOne))
  | _ => none

def neg : Binary64 → Binary64
  | .nan => .nan
  | .infinite negative => .infinite (!negative)
  | .finite negative rank => .finite (!negative) rank

/-- The number with these 64 bits: the sign, and below it the rank. What lies above the rank of
an infinity is no number. -/
def ofBits (bits : Nat) : Binary64 :=
  let negative := bits / 2 ^ 63 % 2 == 1
  let rank := bits % 2 ^ 63
  if h : rank < rankBound then .finite negative ⟨rank, h⟩
  else if rank == rankBound then .infinite negative
  else .nan

def signBit (negative : Bool) : Nat := if negative then 2 ^ 63 else 0

/-- The bits of a number; the quiet one stands for all that are no number. -/
def toBits : Binary64 → Nat
  | .nan => rankBound + 2 ^ 51
  | .infinite negative => signBit negative + rankBound
  | .finite negative rank => signBit negative + rank

theorem ofBits_toBits (x : Binary64) : ofBits x.toBits = x := by
  cases x with
  | nan => decide +kernel
  | infinite negative => cases negative <;> decide +kernel
  | finite negative rank =>
    have h : rank.val < 2047 * 2 ^ 52 := rank.isLt
    cases negative
    · have h1 : rank.val / 2 ^ 63 % 2 = 0 := by omega
      have h2 : rank.val % 2 ^ 63 = rank.val := by omega
      simp only [ofBits, toBits, signBit, Bool.false_eq_true, ↓reduceIte, Nat.zero_add, h1, h2, h,
        ↓reduceDIte]
      rfl
    · have h1 : (2 ^ 63 + rank.val) / 2 ^ 63 % 2 = 1 := by omega
      have h2 : (2 ^ 63 + rank.val) % 2 ^ 63 = rank.val := by omega
      simp only [ofBits, toBits, signBit, ↓reduceIte, h1, h2, h, ↓reduceDIte]
      rfl

end Binary64

end Lisplet
