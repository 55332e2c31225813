import Lisplet.Proofs.ExactValue
import Lisplet.Proofs.NumeralText
import Lisplet.Proofs.RoundedAgain
import Mathlib.Tactic.Linarith

/-!
The nearest number. Rounding gives a rational the finite number nearest to it, of two that are
equally near the one with an even last digit, and beyond the greatest finite number an infinity.
That tells the value of the result for each rational. A numeral with a significand and an exponent
is rounded once, from its exact value, also where the power of its base is never computed.
-/

set_option autoImplicit false

namespace Lisplet.Binary64

def signed (negative : Bool) (q : ℚ) : ℚ := if negative then -q else q

/-- Halfway between the greatest finite number and the power of two after it. -/
def overflowBound : ℚ := 2 ^ 1024 - 2 ^ 970

/-- What a rational is rounded to. The sign of a zero is left open. -/
inductive RoundsTo (q : ℚ) : Binary64 → Prop
  | finite {negative : Bool} {rank : Fin rankBound} (hbelow : |q| < overflowBound)
    (hnearest : ∀ (s : Bool) (r : Fin rankBound),
      |q - signedValue negative rank| ≤ |q - signedValue s r|)
    (heven : ∀ (s : Bool) (r : Fin rankBound), signedValue s r ≠ signedValue negative rank →
      |q - signedValue s r| = |q - signedValue negative rank| → significandOf rank % 2 = 0) :
    RoundsTo q (.finite negative rank)
  | infinite (habove : overflowBound ≤ |q|) : RoundsTo q (.infinite (decide (q < 0)))

theorem significandOf_mod_two (rank : Nat) : significandOf rank % 2 = rank % 2 := by
  unfold significandOf exponentOf
  omega

section

variable {numerator denominator : Nat} (hden : 0 < denominator)
include hden

/-- Rounding overflows from the middle between the last finite magnitude and the next one. -/
theorem rankBound_le_nearestRank_iff : rankBound ≤ nearestRank numerator denominator ↔
    (units (rankBound - 1) + units rankBound) * denominator ≤ 2 * numerator := by
  have hless : units (rankBound - 1) * denominator < units rankBound * denominator :=
    Nat.mul_lt_mul_of_pos_right (units_lt_succ _) hden
  rw [Nat.add_mul]
  constructor
  · intro hover
    have hle : units rankBound * denominator ≤
        units (nearestRank numerator denominator) * denominator :=
      Nat.mul_le_mul_right _ (units_le_units hover)
    have hnear := @dist_nearestRank_le numerator denominator hden (rankBound - 1)
    unfold Nat.dist at hnear
    omega
  · intro hmiddle
    by_contra hnot
    have hle : units (nearestRank numerator denominator) * denominator ≤
        units (rankBound - 1) * denominator :=
      Nat.mul_le_mul_right _ (units_le_units (by omega))
    have hne : rankBound ≠ nearestRank numerator denominator := by omega
    rcases @dist_nearestRank_lt_or numerator denominator hden _ hne with hlt | ⟨heq, heven⟩
    · unfold Nat.dist at hlt
      omega
    · -- The last finite rank is odd, so another one is nearest, but farther away.
      have hparity : rankBound % 2 = 0 := by decide
      have hlast : nearestRank numerator denominator < rankBound - 1 := by omega
      have hstrict : units (nearestRank numerator denominator) * denominator <
          units (rankBound - 1) * denominator :=
        Nat.mul_lt_mul_of_pos_right (units_strictMono hlast) hden
      unfold Nat.dist at heq
      omega

end

theorem abs_signed (negative : Bool) (q : ℚ) : |signed negative q| = |q| := by
  cases negative <;> simp [signed]

theorem abs_signed_sub_signed (negative : Bool) (p q : ℚ) :
    |signed negative p - signed negative q| = |p - q| := by
  cases negative with
  | false => rfl
  | true =>
    rw [signed, signed, if_pos rfl, if_pos rfl, ← neg_sub', abs_neg]

theorem abs_signed_sub_signed_of_ne {negative s : Bool} (h : s ≠ negative) {p q : ℚ} (hp : 0 ≤ p)
    (hq : 0 ≤ q) : |signed negative p - signed s q| = p + q := by
  obtain rfl : s = !negative := by
    cases s <;> cases negative <;> simp at h ⊢
  have hsum : signed negative p - signed (!negative) q = signed negative (p + q) := by
    cases negative with
    | false => simp [signed]
    | true =>
      simp [signed]
      ring
  rw [hsum, abs_signed, abs_of_nonneg (add_nonneg hp hq)]

theorem decide_signed_lt_zero (negative : Bool) {q : ℚ} (h : 0 < q) :
    decide (signed negative q < 0) = negative := by
  cases negative with
  | false => simp [signed, le_of_lt h]
  | true => simp [signed, h]

theorem overflowBound_pos : 0 < overflowBound :=
  sub_pos.mpr (pow_lt_pow_right₀ one_lt_two (by decide))

def magnitude (rank : Nat) : ℚ := (units rank : ℚ) / unitsPerOne

theorem magnitude_nonneg (rank : Nat) : 0 ≤ magnitude rank :=
  div_nonneg (Nat.cast_nonneg _) (le_of_lt unitsPerOne_pos_rat)

theorem magnitude_zero : magnitude 0 = 0 := by rw [magnitude, units_zero, Nat.cast_zero, zero_div]

theorem signedValue_eq (negative : Bool) (rank : Nat) :
    signedValue negative rank = signed negative (magnitude rank) := by
  cases negative with
  | false => rw [signedValue, signedUnits_false, signed, if_neg Bool.false_ne_true, magnitude,
      Int.cast_natCast]
  | true => rw [signedValue, signedUnits_true, signed, if_pos rfl, magnitude, Int.cast_neg,
      Int.cast_natCast, neg_div]

def quotient (numerator denominator : Nat) : ℚ := numerator / (denominator * unitsPerOne : ℚ)

theorem cast_dist (a b : Nat) : ((a.dist b : Nat) : ℚ) = |(a : ℚ) - b| := by
  rcases Nat.le_total a b with h | h
  · rw [Nat.dist_eq_sub_of_le h, Nat.cast_sub h, abs_sub_comm, abs_of_nonneg]
    exact sub_nonneg.mpr (Nat.cast_le.mpr h)
  · rw [Nat.dist_eq_sub_of_le_right h, Nat.cast_sub h, abs_of_nonneg]
    exact sub_nonneg.mpr (Nat.cast_le.mpr h)

section

variable {numerator denominator : Nat} (hden : 0 < denominator)
include hden

theorem scale_pos : (0 : ℚ) < denominator * unitsPerOne :=
  mul_pos (Nat.cast_pos.mpr hden) unitsPerOne_pos_rat

theorem abs_quotient_sub_magnitude (rank : Nat) :
    |quotient numerator denominator - magnitude rank| =
      (numerator.dist (units rank * denominator) : Nat) / (denominator * unitsPerOne : ℚ) := by
  have hscale := @scale_pos denominator hden
  have hden' : (denominator : ℚ) ≠ 0 := ne_of_gt (Nat.cast_pos.mpr hden)
  rw [cast_dist, ← abs_of_pos hscale, ← abs_div, quotient, magnitude, sub_div,
    Nat.cast_mul, mul_comm (units rank : ℚ), mul_div_mul_left _ _ hden']

theorem quotient_nonneg : 0 ≤ quotient numerator denominator :=
  div_nonneg (Nat.cast_nonneg _) (le_of_lt (scale_pos hden))

omit hden in
theorem two_mul_overflowBound : 2 * overflowBound * unitsPerOne =
    (units (rankBound - 1) + units rankBound : Nat) := by
  have hcast : ∀ sum one i j : Nat, sum + 2 * 2 ^ i * one = 2 * 2 ^ j * one →
      2 * ((2 : ℚ) ^ j - 2 ^ i) * one = sum := by
    intro sum one i j h
    have hrat := congrArg (Nat.cast : Nat → ℚ) h
    push_cast at hrat
    linarith
  exact hcast _ unitsPerOne 970 1024 (by decide +kernel)

theorem overflowBound_le_quotient_iff : overflowBound ≤ quotient numerator denominator ↔
    rankBound ≤ nearestRank numerator denominator := by
  rw [rankBound_le_nearestRank_iff hden, quotient, le_div_iff₀ (scale_pos hden)]
  have htwice : overflowBound * (denominator * unitsPerOne : ℚ) * 2 =
      ((units (rankBound - 1) + units rankBound) * denominator : Nat) := by
    rw [Nat.cast_mul, ← two_mul_overflowBound]
    ring
  rw [← Nat.cast_le (α := ℚ), ← htwice, Nat.cast_mul, Nat.cast_ofNat, mul_comm (2 : ℚ)]
  exact (mul_le_mul_iff_left₀ two_pos).symm

theorem abs_quotient_sub_magnitude_le (negative s : Bool) (rank : Nat) :
    |quotient numerator denominator - magnitude rank| ≤
      |signed negative (quotient numerator denominator) - signedValue s rank| := by
  have hle := abs_abs_sub_abs_le (signed negative (quotient numerator denominator))
    (signedValue s rank)
  rwa [signedValue_eq, abs_signed, abs_signed, abs_of_nonneg (quotient_nonneg hden),
    abs_of_nonneg (magnitude_nonneg rank), ← signedValue_eq] at hle

omit hden in
theorem abs_signed_quotient_sub (negative : Bool) (rank : Nat) :
    |signed negative (quotient numerator denominator) - signedValue negative rank| =
      |quotient numerator denominator - magnitude rank| := by
  rw [signedValue_eq, abs_signed_sub_signed]

theorem abs_quotient_sub_nearest_le (rank : Nat) :
    |quotient numerator denominator - magnitude (nearestRank numerator denominator)| ≤
      |quotient numerator denominator - magnitude rank| := by
  rw [abs_quotient_sub_magnitude hden, abs_quotient_sub_magnitude hden]
  exact div_le_div_of_nonneg_right (Nat.cast_le.mpr (dist_nearestRank_le hden rank))
    (le_of_lt (scale_pos hden))

theorem nearestRank_even {rank : Nat} (hne : rank ≠ nearestRank numerator denominator)
    (htie : |quotient numerator denominator - magnitude rank| ≤
      |quotient numerator denominator - magnitude (nearestRank numerator denominator)|) :
    nearestRank numerator denominator % 2 = 0 := by
  rcases dist_nearestRank_lt_or hden hne with hlt | ⟨-, heven⟩
  · rw [abs_quotient_sub_magnitude hden, abs_quotient_sub_magnitude hden,
      div_le_div_iff_of_pos_right (scale_pos hden), Nat.cast_le] at htie
    exact absurd hlt (Nat.not_lt_of_le htie)
  · exact heven

theorem lt_abs_sub_of_opposite {negative s : Bool}
    (hne : signedValue s (nearestRank numerator denominator) ≠
      signedValue negative (nearestRank numerator denominator)) :
    |quotient numerator denominator - magnitude (nearestRank numerator denominator)| <
      |signed negative (quotient numerator denominator) -
        signedValue s (nearestRank numerator denominator)| := by
  have hquotient := @quotient_nonneg numerator denominator hden
  have hmagnitude := magnitude_nonneg (nearestRank numerator denominator)
  have hzero := @abs_quotient_sub_nearest_le numerator denominator hden 0
  rw [signedValue_eq, signedValue_eq] at hne
  have hsign : s ≠ negative := fun h => hne (by rw [h])
  have hmagnitude' : magnitude (nearestRank numerator denominator) ≠ 0 := by
    intro h
    rw [h] at hne
    exact hne (by cases s <;> cases negative <;> simp [signed])
  rw [signedValue_eq, abs_signed_sub_signed_of_ne hsign hquotient hmagnitude]
  rw [magnitude_zero, sub_zero, abs_of_nonneg hquotient] at hzero
  generalize quotient numerator denominator = p at *
  generalize magnitude (nearestRank numerator denominator) = q at *
  have hpos : 0 < q := lt_of_le_of_ne hmagnitude hmagnitude'.symm
  -- The nearest magnitude of zero is zero.
  have hpos' : 0 < p := by
    rw [abs_le] at hzero
    linarith
  rw [abs_lt]
  constructor <;> linarith

theorem roundsTo_ofRatio (negative : Bool) :
    RoundsTo (signed negative (quotient numerator denominator))
      (ofRatio negative numerator denominator) := by
  have habs : |signed negative (quotient numerator denominator)| =
      quotient numerator denominator := by
    rw [abs_signed, abs_of_nonneg (quotient_nonneg hden)]
  rw [ofRatio, ofRank]
  split
  · next hlt =>
    constructor
    case hbelow =>
      rw [habs, ← not_le, overflowBound_le_quotient_iff hden]
      exact Nat.not_le_of_lt hlt
    case hnearest =>
      intro s r
      rw [abs_signed_quotient_sub]
      exact (abs_quotient_sub_nearest_le hden r).trans (abs_quotient_sub_magnitude_le hden _ s r)
    case heven =>
      intro s r hne htie
      rw [significandOf_mod_two]
      rw [abs_signed_quotient_sub] at htie
      have hle := (abs_quotient_sub_magnitude_le hden negative s r).trans_eq htie
      by_cases hrank : r.val = nearestRank numerator denominator
      · rw [hrank] at hne htie
        exact absurd htie (ne_of_gt (lt_abs_sub_of_opposite hden hne))
      · exact nearestRank_even hden hrank hle
  · next hge =>
    have hover := (overflowBound_le_quotient_iff hden).mpr (Nat.le_of_not_lt hge)
    have hsign := decide_signed_lt_zero negative (overflowBound_pos.trans_le hover)
    have hrounds := RoundsTo.infinite (hover.trans_eq habs.symm)
    rwa [hsign] at hrounds

end

theorem units_lt_iff {r s : Nat} : units r < units s ↔ r < s :=
  ⟨fun h => Nat.lt_of_not_le fun hle => absurd h (Nat.not_lt_of_le (units_le_units hle)),
    units_strictMono⟩

theorem units_pos_iff {r : Nat} : 0 < units r ↔ 0 < r := by
  have h := @units_lt_iff 0 r
  rwa [units_zero] at h

theorem signedValue_lt_iff_rank {s t : Bool} {r p : Nat} :
    signedValue s r < signedValue t p ↔ withSign s r < withSign t p := by
  have hr : 0 < units r ↔ 0 < r := units_pos_iff
  have hp : 0 < units p ↔ 0 < p := units_pos_iff
  have hlt := @units_lt_iff r p
  have hgt := @units_lt_iff p r
  rw [signedValue_lt_iff, signedUnits, signedUnits]
  cases s <;> cases t <;> simp [withSign] <;> omega

theorem exists_signedValue_between {s t : Bool} {r p : Fin rankBound}
    (hlt : signedValue s r < signedValue t p) (hr : r.val % 2 = 0) (hp : p.val % 2 = 0) :
    ∃ (u : Bool) (k : Fin rankBound),
      signedValue s r < signedValue u k ∧ signedValue u k < signedValue t p := by
  rw [signedValue_lt_iff_rank] at hlt
  have hr' := natAbs_withSign s r
  have hp' := natAbs_withSign t p
  have hbound : (withSign s r + 1).natAbs < rankBound := by
    have hrlt := r.isLt
    have hplt := p.isLt
    omega
  have hnext := withSign_natAbs (withSign s r + 1)
  refine ⟨decide (withSign s r + 1 < 0), ⟨_, hbound⟩, ?_, ?_⟩
  · rw [signedValue_lt_iff_rank, hnext]
    omega
  · rw [signedValue_lt_iff_rank, hnext]
    omega

theorem not_tie_of_even {q : ℚ} {s t : Bool} {r p : Fin rankBound}
    (hnearest : ∀ (u : Bool) (k : Fin rankBound), |q - signedValue s r| ≤ |q - signedValue u k|)
    (htie : |q - signedValue s r| = |q - signedValue t p|) (hr : significandOf r % 2 = 0)
    (hp : significandOf p % 2 = 0) : ¬signedValue s r < signedValue t p := by
  intro hlt
  rw [significandOf_mod_two] at hr hp
  obtain ⟨u, k, hbefore, hafter⟩ := exists_signedValue_between hlt hr hp
  have hle := hnearest u k
  have hmiddle : q - signedValue s r = signedValue t p - q := by
    rcases abs_eq_abs.mp htie with h | h
    · linarith
    · linarith
  rw [hmiddle, abs_of_pos (by linarith), le_abs] at hle
  rcases hle with hle | hle <;> linarith

theorem RoundsTo.ofNumber_eq {q : ℚ} {x y : Binary64} (hx : RoundsTo q x) (hy : RoundsTo q y) :
    Value.ofNumber x = Value.ofNumber y := by
  cases hx with
  | @finite s r hbelow hnearest heven =>
    cases hy with
    | @finite t p _ hnearest' heven' =>
      have htie := le_antisymm (hnearest t p) (hnearest' s r)
      have hvalue : signedValue s r = signedValue t p := by
        by_contra hne
        have hr := heven t p (Ne.symm hne) htie.symm
        have hp := heven' s r hne htie
        rcases lt_or_gt_of_ne hne with hlt | hlt
        · exact not_tie_of_even hnearest htie hr hp hlt
        · exact not_tie_of_even hnearest' htie.symm hp hr hlt
      exact Value.ofNumber_eq_of_toRat? rfl (congrArg some hvalue.symm)
    | infinite habove => exact absurd hbelow (not_lt.mpr habove)
  | infinite habove =>
    cases hy with
    | finite hbelow => exact absurd hbelow (not_lt.mpr habove)
    | infinite => rfl

theorem quotient_mul_unitsPerOne (numerator denominator : Nat) :
    quotient (numerator * unitsPerOne) denominator = numerator / denominator := by
  rw [quotient, Nat.cast_mul, mul_div_mul_right _ _ (ne_of_gt unitsPerOne_pos_rat)]

theorem nearestRank_eq_zero {numerator denominator : Nat} (h : 2 * numerator < denominator) :
    nearestRank numerator denominator = 0 := by
  have hdiv : numerator / denominator = 0 := Nat.div_eq_of_lt (by omega)
  have hmod : numerator % denominator = numerator := Nat.mod_eq_of_lt (by omega)
  simp [nearestRank, divNearest, hdiv, hmod, h]

theorem two_mul_lt_pow {significand base exponent : Nat} (hbase : 2 ≤ base)
    (h : 1076 + significand.log2 < exponent) :
    2 * (significand * unitsPerOne) < base ^ exponent := by
  calc 2 * (significand * unitsPerOne)
      < 2 * (2 ^ (significand.log2 + 1) * unitsPerOne) :=
        Nat.mul_lt_mul_of_pos_left (Nat.mul_lt_mul_of_pos_right Nat.lt_log2_self unitsPerOne_pos)
          Nat.two_pos
    _ = 2 ^ (1076 + significand.log2) := by
        rw [two_pow_mul_unitsPerOne, ← Nat.pow_succ']
        congr 1
        omega
    _ ≤ 2 ^ exponent := Nat.pow_le_pow_right Nat.two_pos (Nat.le_of_lt h)
    _ ≤ base ^ exponent := Nat.pow_le_pow_left hbase exponent

theorem roundsTo_ratio (negative : Bool) (numerator : Nat) {denominator : Nat}
    (hden : 0 < denominator) : RoundsTo (signed negative (numerator / denominator))
      (ofRatio negative (numerator * unitsPerOne) denominator) := by
  rw [← quotient_mul_unitsPerOne]
  exact roundsTo_ofRatio hden negative

theorem roundsTo_zero (negative : Bool) : RoundsTo (signed negative 0) (zeroOf negative) := by
  have h := roundsTo_ratio negative 0 Nat.one_pos
  rwa [Nat.zero_mul, ofRatio_zero negative Nat.one_pos, Nat.cast_zero, zero_div] at h

theorem roundsTo_infinite (negative : Bool) {q : ℚ} (h : overflowBound ≤ q) :
    RoundsTo (signed negative q) (.infinite negative) := by
  have hpos := overflowBound_pos.trans_le h
  have hrounds := RoundsTo.infinite
    (h.trans_eq ((abs_signed negative q).trans (abs_of_pos hpos)).symm)
  rwa [decide_signed_lt_zero negative hpos] at hrounds

theorem overflowBound_le_of_two_pow_le {n k : Nat} (hk : 1024 ≤ k) (h : 2 ^ k ≤ n) :
    overflowBound ≤ n := by
  calc overflowBound ≤ 2 ^ 1024 := sub_le_self _ (pow_nonneg two_pos.le 970)
    _ ≤ 2 ^ k := pow_le_pow_right₀ one_le_two hk
    _ = ((2 ^ k : Nat) : ℚ) := by push_cast; rfl
    _ ≤ n := Nat.cast_le.mpr h

section

variable (negative : Bool) {significand base : Nat} (hs : significand ≠ 0) (hbase : 2 ≤ base)
include hs hbase

theorem roundsTo_ofScaled_natCast (k : Nat) :
    RoundsTo (signed negative (significand * base ^ k : Nat))
      (ofScaled negative significand base k) := by
  have hrange : ¬((k : Int) + 1076 + significand.log2 < 0) := by omega
  by_cases hhigh : 2100 < (k : Int)
  · have hle : 2 ^ k ≤ significand * base ^ k :=
      calc 2 ^ k ≤ base ^ k := Nat.pow_le_pow_left hbase k
        _ ≤ significand * base ^ k := Nat.le_mul_of_pos_left _ (Nat.pos_of_ne_zero hs)
    have hover := roundsTo_infinite negative (overflowBound_le_of_two_pow_le (by omega) hle)
    simpa only [ofScaled, hs, hrange, hhigh, beq_iff_eq, Bool.or_eq_true, decide_eq_true_eq,
      or_self, if_false, if_true] using hover
  · have hrounds := roundsTo_ratio negative (significand * base ^ k) Nat.one_pos
    rw [Nat.cast_one, div_one] at hrounds
    simpa [ofScaled, hs, hrange, hhigh] using hrounds

theorem roundsTo_ofScaled_neg (k : Nat) :
    RoundsTo (signed negative (significand / (base ^ (k + 1) : Nat)))
      (ofScaled negative significand base (-(k + 1 : Nat))) := by
  have hrounds := roundsTo_ratio negative significand
    (show 0 < base ^ (k + 1) from Nat.pow_pos (by omega))
  by_cases hlow : -((k + 1 : Nat) : Int) + 1076 + significand.log2 < 0
  · have hrank : nearestRank (significand * unitsPerOne) (base ^ (k + 1)) = 0 :=
      nearestRank_eq_zero (two_mul_lt_pow hbase (by omega))
    have hzero : ofRank negative 0 = zeroOf negative := rfl
    rw [ofRatio, hrank, hzero] at hrounds
    simpa only [ofScaled, hs, hlow, beq_iff_eq, Bool.or_eq_true, decide_eq_true_eq, or_true,
      if_true] using hrounds
  · have hhigh : ¬2100 < -((k + 1 : Nat) : Int) := by omega
    have hneg : ¬0 ≤ -((k + 1 : Nat) : Int) := by omega
    simpa only [ofScaled, hs, hlow, hhigh, hneg, Int.neg_neg, Int.toNat_natCast, beq_iff_eq,
      Bool.or_eq_true, decide_eq_true_eq, or_self, if_false] using hrounds

end

theorem roundsTo_ofScaled (negative : Bool) (significand : Nat) {base : Nat} (hbase : 2 ≤ base)
    (exponent : Int) : RoundsTo (signed negative (significand * (base : ℚ) ^ exponent))
      (ofScaled negative significand base exponent) := by
  by_cases hs : significand = 0
  · simpa [ofScaled, hs] using roundsTo_zero negative
  by_cases hnonneg : 0 ≤ exponent
  · obtain ⟨k, rfl⟩ := Int.eq_ofNat_of_zero_le hnonneg
    have hrounds := roundsTo_ofScaled_natCast negative hs hbase k
    rwa [Nat.cast_mul, Nat.cast_pow, ← zpow_natCast] at hrounds
  · obtain ⟨k, rfl⟩ : ∃ k : Nat, exponent = -((k + 1 : Nat) : Int) :=
      ⟨exponent.natAbs - 1, by omega⟩
    have hrounds := roundsTo_ofScaled_neg negative hs hbase k
    rwa [Nat.cast_pow, div_eq_mul_inv, ← zpow_natCast, ← zpow_neg] at hrounds

end Lisplet.Binary64
