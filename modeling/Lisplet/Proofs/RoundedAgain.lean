import Lisplet.Binary64.Fixed
import Lisplet.Proofs.CanonicalNumber
import Mathlib.Data.Nat.Dist

/-!
Rounding again. Printing rounds a number to so many places, and reading rounds the places to a
number. No number is nearer to an exact value than the one it is rounded to, so the number that is
read is as near to the places as the one that was printed. It therefore has the same places, also
where the first one stood halfway between two: the even one was taken then.
-/

set_option autoImplicit false

namespace Lisplet

theorem divNearest_cases (a b : Nat) :
    2 * (a % b) < b ∧ divNearest a b = a / b ∨
      b < 2 * (a % b) ∧ divNearest a b = a / b + 1 ∨
      2 * (a % b) = b ∧ divNearest a b = a / b + a / b % 2 := by
  simp only [divNearest]
  by_cases hdown : 2 * (a % b) < b
  · exact .inl ⟨hdown, if_pos hdown⟩
  rw [if_neg hdown]
  by_cases hup : b < 2 * (a % b)
  · exact .inr (.inl ⟨hup, if_pos hup⟩)
  · exact .inr (.inr ⟨by omega, if_neg hup⟩)

section

variable {a b : Nat} (hb : 0 < b)
include hb

theorem divNearest_eq_iff {n : Nat} :
    divNearest a b = n ↔
      2 * a.dist (n * b) < b ∨ 2 * a.dist (n * b) = b ∧ n % 2 = 0 := by
  have hcases := divNearest_cases a b
  have hdiv := Nat.div_add_mod a b
  have hmod := Nat.mod_lt a hb
  rw [Nat.mul_comm] at hdiv
  unfold Nat.dist
  generalize divNearest a b = rounded at hcases ⊢
  generalize a / b = quotient at hcases hdiv
  -- Only the quotient and the integer after it are near enough.
  by_cases hlow : n + 1 ≤ quotient
  · have hle : (n + 1) * b ≤ quotient * b := Nat.mul_le_mul_right b hlow
    rw [Nat.add_mul] at hle
    omega
  by_cases hhigh : quotient + 2 ≤ n
  · have hle : (quotient + 2) * b ≤ n * b := Nat.mul_le_mul_right b hhigh
    rw [Nat.add_mul] at hle
    omega
  obtain rfl | rfl : n = quotient ∨ n = quotient + 1 := by omega
  · omega
  · rw [Nat.add_mul]
    omega

theorem two_mul_dist_divNearest_le : 2 * a.dist (divNearest a b * b) ≤ b := by
  have hnear := divNearest_near a hb
  unfold Nat.dist
  omega

theorem dist_divNearest_lt_or {n : Nat} (hne : n ≠ divNearest a b) :
    a.dist (divNearest a b * b) < a.dist (n * b) ∨
      a.dist (divNearest a b * b) = a.dist (n * b) ∧ divNearest a b % 2 = 0 := by
  have hnear := (divNearest_eq_iff hb).mp (Eq.refl (divNearest a b))
  generalize divNearest a b = m at hne hnear ⊢
  -- Two multiples are a step apart, so both are half a step away when they are as far.
  rcases Nat.lt_or_gt_of_ne hne with h | h
  · have hle : (n + 1) * b ≤ m * b := Nat.mul_le_mul_right b h
    rw [Nat.add_mul] at hle
    unfold Nat.dist at *
    omega
  · have hle : (m + 1) * b ≤ n * b := Nat.mul_le_mul_right b h
    rw [Nat.add_mul] at hle
    unfold Nat.dist at *
    omega

theorem dist_divNearest_le (n : Nat) : a.dist (divNearest a b * b) ≤ a.dist (n * b) := by
  by_cases hne : n = divNearest a b
  · rw [hne]
  · rcases dist_divNearest_lt_or hb hne with hlt | ⟨heq, -⟩
    · exact Nat.le_of_lt hlt
    · exact Nat.le_of_eq heq

theorem divNearest_of_dist_le {a' : Nat}
    (h : a'.dist (divNearest a b * b) ≤ a.dist (divNearest a b * b)) :
    divNearest a' b = divNearest a b := by
  rw [divNearest_eq_iff hb]
  rcases (divNearest_eq_iff hb).mp (Eq.refl (divNearest a b)) with hnear | ⟨hhalf, heven⟩
  · exact .inl (by omega)
  · rcases Nat.lt_or_eq_of_le h with hlt | heq
    · exact .inl (by omega)
    · exact .inr ⟨by omega, heven⟩

end

namespace Binary64

theorem units_of_rounded {exponent significand : Nat} (hhigh : significand ≤ 2 ^ 53)
    (hlow : exponent = 0 ∨ 2 ^ 52 ≤ significand) :
    units (exponent * 2 ^ 52 + significand) = significand * 2 ^ exponent := by
  rcases Nat.lt_or_eq_of_le hhigh with hlt | rfl
  · by_cases hnormal : 2 ^ 52 ≤ significand
    · exact units_of_significand hnormal hlt exponent
    · obtain rfl := hlow.resolve_right hnormal
      rw [Nat.zero_mul, Nat.zero_add, units_of_lt hlt, Nat.pow_zero, Nat.mul_one]
  · -- Rounding has gone up to the next power of two.
    have hnext := units_of_significand (Nat.le_refl (2 ^ 52)) (by decide) (exponent + 1)
    rw [show exponent * 2 ^ 52 + 2 ^ 53 = (exponent + 1) * 2 ^ 52 + 2 ^ 52 by omega, hnext,
      Nat.pow_succ]
    omega

section

variable {numerator denominator : Nat} (hden : 0 < denominator)
include hden

theorem units_nearestRank :
    let exponent := (numerator / denominator).log2 - 52
    units (nearestRank numerator denominator) * denominator =
      divNearest numerator (denominator * 2 ^ exponent) * (denominator * 2 ^ exponent) ∧
    (exponent ≠ 0 → 2 ^ 52 * (denominator * 2 ^ exponent) ≤ numerator) := by
  intro exponent
  let step := denominator * 2 ^ exponent
  have hstep : 0 < step := Nat.mul_pos hden (Nat.two_pow_pos _)
  have hnear := @two_mul_dist_divNearest_le numerator step hstep
  have hless : numerator < 2 ^ 53 * step := by
    have hlt : numerator / denominator < 2 ^ (exponent + 53) :=
      Nat.lt_of_lt_of_le Nat.lt_log2_self (Nat.pow_le_pow_right Nat.two_pos (by omega))
    rw [Nat.div_lt_iff_lt_mul hden, Nat.add_comm, Nat.pow_add, Nat.mul_assoc] at hlt
    rwa [Nat.mul_comm (2 ^ exponent) denominator] at hlt
  have hmore : exponent ≠ 0 → 2 ^ 52 * step ≤ numerator := by
    intro hne
    have hlog : (numerator / denominator).log2 = 52 + exponent := by omega
    have hquotient : numerator / denominator ≠ 0 := by
      intro hzero
      rw [hzero, Nat.log2_zero] at hlog
      omega
    have hle := Nat.log2_self_le hquotient
    rw [hlog, Nat.le_div_iff_mul_le hden, Nat.pow_add, Nat.mul_assoc] at hle
    rwa [Nat.mul_comm (2 ^ exponent) denominator] at hle
  refine ⟨?_, hmore⟩
  change units (exponent * 2 ^ 52 + divNearest numerator step) * denominator =
    divNearest numerator step * step
  generalize divNearest numerator step = significand at hnear ⊢
  have hhigh : significand ≤ 2 ^ 53 := by
    by_contra hnot
    have hle : (2 ^ 53 + 1) * step ≤ significand * step := Nat.mul_le_mul_right step (by omega)
    rw [Nat.add_mul] at hle
    unfold Nat.dist at hnear
    omega
  have hlow : exponent = 0 ∨ 2 ^ 52 ≤ significand := by
    by_contra hnot
    rw [not_or] at hnot
    have hle : (significand + 1) * step ≤ 2 ^ 52 * step := Nat.mul_le_mul_right step (by omega)
    have hmore' := hmore hnot.1
    rw [Nat.add_mul] at hle
    unfold Nat.dist at hnear
    omega
  rw [units_of_rounded hhigh hlow, Nat.mul_assoc, Nat.mul_comm (2 ^ exponent)]

theorem units_multiple_or_lt (rank exponent : Nat) :
    (∃ multiple, units rank * denominator = multiple * (denominator * 2 ^ exponent)) ∨
      exponent ≠ 0 ∧ units rank * denominator < 2 ^ 52 * (denominator * 2 ^ exponent) := by
  by_cases hle : exponent ≤ exponentOf rank
  · have hpower : 2 ^ exponentOf rank = 2 ^ (exponentOf rank - exponent) * 2 ^ exponent := by
      rw [← Nat.pow_add, Nat.sub_add_cancel hle]
    refine .inl ⟨significandOf rank * 2 ^ (exponentOf rank - exponent), ?_⟩
    rw [units, hpower]
    ac_rfl
  · have hunits : units rank < 2 ^ 52 * 2 ^ exponent := by
      calc units rank < 2 ^ 53 * 2 ^ exponentOf rank :=
            Nat.mul_lt_mul_of_pos_right (significandOf_lt rank) (Nat.two_pow_pos _)
        _ ≤ 2 ^ 53 * 2 ^ (exponent - 1) :=
            Nat.mul_le_mul_left _ (Nat.pow_le_pow_right Nat.two_pos (by omega))
        _ = 2 ^ 52 * 2 ^ exponent := by
            rw [← Nat.pow_add, ← Nat.pow_add]
            congr 1
            omega
    refine .inr ⟨by omega, ?_⟩
    rw [Nat.mul_comm denominator, ← Nat.mul_assoc]
    exact Nat.mul_lt_mul_of_pos_right hunits hden

/-- Another rank is farther away than the one that is rounded to, or as far, and then that one is
even. It does not matter whether the ranks are finite. -/
theorem dist_nearestRank_lt_or {rank : Nat} (hne : rank ≠ nearestRank numerator denominator) :
    numerator.dist (units (nearestRank numerator denominator) * denominator) <
        numerator.dist (units rank * denominator) ∨
      numerator.dist (units (nearestRank numerator denominator) * denominator) =
        numerator.dist (units rank * denominator) ∧ nearestRank numerator denominator % 2 = 0 := by
  obtain ⟨hunits, hmore⟩ := @units_nearestRank numerator denominator hden
  have hrank : nearestRank numerator denominator =
      ((numerator / denominator).log2 - 52) * 2 ^ 52 + divNearest numerator
        (denominator * 2 ^ ((numerator / denominator).log2 - 52)) := rfl
  have hother : units rank * denominator ≠
      units (nearestRank numerator denominator) * denominator :=
    fun heq => hne (units_injective (Nat.eq_of_mul_eq_mul_right hden heq))
  generalize (numerator / denominator).log2 - 52 = exponent at hunits hmore hrank
  have hstep : 0 < denominator * 2 ^ exponent := Nat.mul_pos hden (Nat.two_pow_pos _)
  rw [hunits] at hother ⊢
  rcases @units_multiple_or_lt denominator hden rank exponent with
    ⟨multiple, hmultiple⟩ | ⟨hexponent, hbelow⟩
  · rw [hmultiple] at hother ⊢
    have hne' : multiple ≠ divNearest numerator (denominator * 2 ^ exponent) :=
      fun h => hother (by rw [h])
    rcases dist_divNearest_lt_or hstep hne' with hlt | ⟨heq, heven⟩
    · exact .inl hlt
    · exact .inr ⟨heq, by omega⟩
  · -- The quotient does not lie below the multiples of the step, and the rank does.
    have hless := hmore hexponent
    have hle := @dist_divNearest_le numerator _ hstep (2 ^ 52)
    left
    unfold Nat.dist at *
    omega

theorem dist_nearestRank_le (rank : Nat) :
    numerator.dist (units (nearestRank numerator denominator) * denominator) ≤
      numerator.dist (units rank * denominator) := by
  by_cases hne : rank = nearestRank numerator denominator
  · rw [hne]
  · rcases @dist_nearestRank_lt_or numerator denominator hden rank hne with hlt | ⟨heq, -⟩
    · exact Nat.le_of_lt hlt
    · exact Nat.le_of_eq heq

end

def reread (places : Nat) : Binary64 → Binary64
  | .finite negative rank =>
    .ofRatio negative (toPlaces places rank * unitsPerOne) (10 ^ places)
  | x => x

theorem dist_toPlaces_reread (places rank : Nat) :
    let rounded := toPlaces places rank * unitsPerOne
    (units (nearestRank rounded (10 ^ places)) * 10 ^ places).dist rounded ≤
      (units rank * 10 ^ places).dist rounded := by
  intro rounded
  rw [Nat.dist_comm _ rounded, Nat.dist_comm _ rounded]
  exact dist_nearestRank_le (Nat.pow_pos (by decide)) rank

theorem units_le_units {r s : Nat} (h : r ≤ s) : units r ≤ units s := by
  rcases Nat.lt_or_eq_of_le h with hlt | rfl
  · exact Nat.le_of_lt (units_strictMono hlt)
  · exact Nat.le_refl _

theorem unitsPerOne_lt_two_pow {k : Nat} (h : 1074 < k) : unitsPerOne < 2 ^ k := by
  unfold unitsPerOne
  generalize 1074 = m at h ⊢
  exact Nat.pow_lt_pow_right (by decide) h

theorem units_add_lt_of_rankBound_le {rank other : Nat} (h : rank < rankBound)
    (hother : rankBound ≤ other) : units rank + unitsPerOne < units other := by
  have hlast : units rank ≤ units (rankBound - 1) := units_le_units (Nat.le_pred_of_lt h)
  have hnext : units (rankBound - 1 + 1) ≤ units other := units_le_units hother
  have hstep : unitsPerOne < 2 ^ exponentOf (rankBound - 1) :=
    unitsPerOne_lt_two_pow (by decide +kernel)
  rw [units_succ] at hnext
  exact Nat.lt_of_lt_of_le (Nat.add_lt_add_of_le_of_lt hlast hstep) hnext

/-- The places of a number are not so far from it that they would be read as an infinity. -/
theorem nearestRank_lt_rankBound (places : Nat) {rank : Nat} (h : rank < rankBound) :
    nearestRank (toPlaces places rank * unitsPerOne) (10 ^ places) < rankBound := by
  by_contra hnot
  have hnear := dist_toPlaces_reread places rank
  have hhalf : 2 * (units rank * 10 ^ places).dist (toPlaces places rank * unitsPerOne) ≤
      unitsPerOne := two_mul_dist_divNearest_le unitsPerOne_pos
  have hpower : 0 < 10 ^ places := Nat.pow_pos (by decide)
  have hgap := Nat.mul_lt_mul_of_pos_right
    (units_add_lt_of_rankBound_le h (Nat.le_of_not_lt hnot)) hpower
  rw [Nat.add_mul] at hgap
  generalize unitsPerOne = one at hnear hhalf hgap
  have hone : one ≤ one * 10 ^ places := Nat.le_mul_of_pos_right one hpower
  unfold Nat.dist at hnear hhalf
  omega

theorem exists_reread (places : Nat) (negative : Bool) (rank : Fin rankBound) :
    ∃ other : Fin rankBound, (finite negative rank).reread places = .finite negative other ∧
      toPlaces places other = toPlaces places rank := by
  have hlt := nearestRank_lt_rankBound places rank.isLt
  refine ⟨⟨_, hlt⟩, ?_, divNearest_of_dist_le unitsPerOne_pos (dist_toPlaces_reread places rank)⟩
  rw [reread, ofRatio, ofRank, dif_pos hlt]

/-- Read again, a number has the places that were printed of it. -/
theorem fixedText_reread (places : Nat) (x : Binary64) :
    (x.reread places).fixedText places = x.fixedText places := by
  cases x with
  | nan => rfl
  | infinite negative => rfl
  | finite negative rank =>
    obtain ⟨other, hreread, hplaces⟩ := exists_reread places negative rank
    rw [hreread, fixedText, fixedText, hplaces]

end Binary64

end Lisplet
