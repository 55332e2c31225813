import Lisplet.Binary64.Basic

/-!
Rounding an exact value to the nearest binary64 number, a tie to the even rank. Rank parity is
the parity of the last significand bit, and the rank after the greatest finite one stands for
infinity, so one rule covers small, large and overflowing values.
-/

set_option autoImplicit false

namespace Lisplet

/-- The integer nearest to a quotient; a tie goes to the even one. -/
def divNearest (a b : Nat) : Nat :=
  let quotient := a / b
  let twice := 2 * (a % b)
  if twice < b then quotient
  else if b < twice then quotient + 1
  else quotient + quotient % 2

theorem divNearest_near (a : Nat) {b : Nat} (hb : 0 < b) :
    2 * a ≤ 2 * (divNearest a b * b) + b ∧ 2 * (divNearest a b * b) ≤ 2 * a + b := by
  have hm := Nat.div_add_mod a b
  have hl := Nat.mod_lt a hb
  have hc : b * (a / b) = a / b * b := Nat.mul_comm _ _
  simp only [divNearest]
  split
  · omega
  · split
    · rw [Nat.add_mul]; omega
    · rcases Nat.mod_two_eq_zero_or_one (a / b) with h | h <;> rw [h]
      · simp only [Nat.add_zero]; omega
      · rw [Nat.add_mul]; omega

namespace Binary64

/-- The rank nearest to a quotient of units: the quotient keeps 53 binary digits. -/
def nearestRank (numerator denominator : Nat) : Nat :=
  let exponent := (numerator / denominator).log2 - 52
  exponent * 2 ^ 52 + divNearest numerator (denominator * 2 ^ exponent)

def ofRank (negative : Bool) (rank : Nat) : Binary64 :=
  if h : rank < rankBound then .finite negative ⟨rank, h⟩ else .infinite negative

def ofRatio (negative : Bool) (numerator denominator : Nat) : Binary64 :=
  ofRank negative (nearestRank numerator denominator)

def ofInt (n : Int) : Binary64 := ofRatio (n < 0) (n.natAbs * unitsPerOne) 1

/-- The number nearest to `significand * base ^ exponent`, for a base of at least two. Far outside
the range of binary64 numbers the power is not computed. -/
def ofScaled (negative : Bool) (significand base : Nat) (exponent : Int) : Binary64 :=
  if significand == 0 || exponent + 1076 + significand.log2 < 0 then zeroOf negative
  else if 2100 < exponent then .infinite negative
  else if 0 ≤ exponent then
    ofRatio negative (significand * base ^ exponent.toNat * unitsPerOne) 1
  else ofRatio negative (significand * unitsPerOne) (base ^ (-exponent).toNat)

theorem ofRank_toRank (negative : Bool) (rank : Fin rankBound) :
    ofRank negative rank = .finite negative rank := by
  simp [ofRank]

theorem nearestRank_units (rank : Nat) : nearestRank (units rank) 1 = rank := by
  have hlog : (units rank).log2 - 52 = exponentOf rank := by
    by_cases h : rank < 2 ^ 52
    · have hu : units rank = rank := units_of_lt (Nat.lt_trans h (by decide))
      have he : exponentOf rank = 0 := by unfold exponentOf; omega
      rw [hu, he]
      by_cases h0 : rank = 0
      · subst h0; decide
      · have := (Nat.log2_lt h0).2 h
        omega
    · have hlow := significandOf_ge (Nat.le_of_not_lt h)
      have hhigh := significandOf_lt rank
      have hpos : units rank ≠ 0 := by
        unfold units
        exact Nat.mul_ne_zero (by omega) (Nat.ne_of_gt (Nat.two_pow_pos _))
      have h1 : (units rank).log2 < exponentOf rank + 53 := by
        rw [Nat.log2_lt hpos, units, Nat.add_comm, Nat.pow_add]
        exact Nat.mul_lt_mul_of_pos_right hhigh (Nat.two_pow_pos _)
      have h2 : exponentOf rank + 52 ≤ (units rank).log2 := by
        rw [Nat.le_log2 hpos, units, Nat.add_comm, Nat.pow_add]
        exact Nat.mul_le_mul_right _ hlow
      omega
  have hdiv : divNearest (units rank) (2 ^ exponentOf rank) = significandOf rank := by
    have hp : 0 < 2 ^ exponentOf rank := Nat.two_pow_pos _
    have hq : units rank / 2 ^ exponentOf rank = significandOf rank := by
      unfold units; exact Nat.mul_div_cancel _ hp
    have hm : units rank % 2 ^ exponentOf rank = 0 := by
      unfold units; exact Nat.mul_mod_left _ _
    simp [divNearest, hq, hm, hp]
  simp only [nearestRank, Nat.div_one, Nat.one_mul, hlog, hdiv]
  unfold significandOf exponentOf
  omega

theorem ofRatio_units (negative : Bool) (rank : Fin rankBound) :
    ofRatio negative (units rank) 1 = .finite negative rank := by
  rw [ofRatio, nearestRank_units, ofRank_toRank]

end Binary64

end Lisplet
