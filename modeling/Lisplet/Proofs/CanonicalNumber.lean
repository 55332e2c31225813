import Lisplet.Primitive

/-!
Canonical numbers. An integer is a number exactly when its magnitude has at most 53 significant
binary digits. The integer parts of numbers are such integers, and so are their remainders, which
is why a remainder is canonical although it is not rounded.
-/

set_option autoImplicit false

namespace Lisplet

namespace Binary64

theorem unitsPerOne_pos : 0 < unitsPerOne := by
  apply Nat.pow_pos
  decide

theorem two_pow_mul_unitsPerOne (k : Nat) : 2 ^ k * unitsPerOne = 2 ^ (k + 1074) := by
  rw [Nat.pow_add]

theorem two_pow_le_unitsPerOne {k : Nat} (h : k ≤ 1074) : 2 ^ k ≤ unitsPerOne := by
  unfold unitsPerOne
  generalize 1074 = m at h ⊢
  exact Nat.pow_le_pow_right Nat.two_pos h

theorem natAbs_withSign (negative : Bool) (magnitude : Nat) :
    (withSign negative magnitude).natAbs = magnitude := by
  cases negative <;> simp [withSign]

theorem withSign_natAbs (n : Int) : withSign (n < 0) n.natAbs = n := by
  unfold withSign
  split <;> rename_i h <;> simp only [decide_eq_true_eq] at h <;> omega

theorem withSign_mul (negative : Bool) (a b : Nat) :
    withSign negative (a * b) = withSign negative a * (b : Int) := by
  cases negative with
  | false => exact Int.natCast_mul a b
  | true =>
    rw [withSign, if_pos rfl, Int.natCast_mul, withSign, if_pos rfl]
    exact (Int.neg_mul _ _).symm

theorem isInt_iff {n : Int} {x : Binary64} : x.isInt n = true ↔
    ∃ (negative : Bool) (rank : Fin rankBound), x = .finite negative rank ∧
      units rank = n.natAbs * unitsPerOne ∧ withSign negative n.natAbs = n := by
  have hone : (unitsPerOne : Int) ≠ 0 := Int.ofNat_ne_zero.mpr (Nat.ne_of_gt unitsPerOne_pos)
  constructor
  · intro h
    cases x with
    | nan => cases h
    | infinite negative => cases h
    | finite negative rank =>
      have heq : n * (unitsPerOne : Nat) = signedUnits negative rank := beq_iff_eq.mp h
      have hunits : units rank = n.natAbs * unitsPerOne := by
        have habs := congrArg Int.natAbs heq
        rw [Int.natAbs_mul, Int.natAbs_natCast, signedUnits, natAbs_withSign] at habs
        exact habs.symm
      refine ⟨negative, rank, rfl, hunits, ?_⟩
      rw [signedUnits, hunits, withSign_mul] at heq
      exact (Int.eq_of_mul_eq_mul_right hone heq).symm
  · rintro ⟨negative, rank, rfl, hunits, hsign⟩
    rw [isInt, beq_iff_eq, signedUnits, hunits, withSign_mul, hsign]

theorem isInt_ofInt {n : Int} {x : Binary64} (h : x.isInt n = true) : (ofInt n).isInt n = true := by
  obtain ⟨negative, rank, rfl, hunits, -⟩ := isInt_iff.mp h
  refine isInt_iff.mpr ⟨n < 0, rank, ?_, hunits, withSign_natAbs n⟩
  rw [ofInt, ← hunits, ofRatio_units]

/-- A magnitude with at most 53 significant binary digits, within the range of the numbers. -/
def HasFewDigits (n : Nat) : Prop := ∃ a k, a < 2 ^ 53 ∧ k ≤ 971 ∧ n = a * 2 ^ k

theorem units_of_significand {a : Nat} (hlow : 2 ^ 52 ≤ a) (hhigh : a < 2 ^ 53) (t : Nat) :
    units (t * 2 ^ 52 + a) = a * 2 ^ t := by
  have hexponent : exponentOf (t * 2 ^ 52 + a) = t := by
    unfold exponentOf
    omega
  have hsignificand : significandOf (t * 2 ^ 52 + a) = a := by
    unfold significandOf
    rw [hexponent]
    omega
  rw [units, hsignificand, hexponent]

theorem exists_normal {a : Nat} (hpos : a ≠ 0) (hlt : a < 2 ^ 53) :
    ∃ j ≤ 52, 2 ^ 52 ≤ a * 2 ^ j ∧ a * 2 ^ j < 2 ^ 53 := by
  have hlow := Nat.log2_self_le hpos
  have hhigh : a < 2 ^ (a.log2 + 1) := Nat.lt_log2_self
  have hlog : a.log2 < 53 := (Nat.log2_lt hpos).mpr hlt
  refine ⟨52 - a.log2, Nat.sub_le _ _, ?_, ?_⟩
  · calc 2 ^ 52 = 2 ^ a.log2 * 2 ^ (52 - a.log2) := by
          rw [← Nat.pow_add]
          congr 1
          omega
      _ ≤ a * 2 ^ (52 - a.log2) := Nat.mul_le_mul_right _ hlow
  · calc a * 2 ^ (52 - a.log2) < 2 ^ (a.log2 + 1) * 2 ^ (52 - a.log2) :=
          Nat.mul_lt_mul_of_pos_right hhigh (Nat.two_pow_pos _)
      _ = 2 ^ 53 := by
          rw [← Nat.pow_add]
          congr 1
          omega

theorem HasFewDigits.exists_rank {n : Nat} (h : HasFewDigits n) :
    ∃ rank : Fin rankBound, units rank = n * unitsPerOne := by
  obtain ⟨a, k, hlt, hk, rfl⟩ := h
  by_cases hzero : a = 0
  · subst hzero
    exact ⟨⟨0, by decide⟩, by simp [units_zero]⟩
  · obtain ⟨j, hj, hlow, hhigh⟩ := exists_normal hzero hlt
    have hbound : (k + 1074 - j) * 2 ^ 52 + a * 2 ^ j < rankBound := by
      have : (k + 1074 - j) * 2 ^ 52 ≤ 2045 * 2 ^ 52 := Nat.mul_le_mul_right _ (by omega)
      unfold rankBound
      omega
    refine ⟨⟨(k + 1074 - j) * 2 ^ 52 + a * 2 ^ j, hbound⟩, ?_⟩
    calc units ((k + 1074 - j) * 2 ^ 52 + a * 2 ^ j)
        = a * 2 ^ j * 2 ^ (k + 1074 - j) := units_of_significand hlow hhigh _
      _ = a * 2 ^ (j + (k + 1074 - j)) := by rw [Nat.mul_assoc, ← Nat.pow_add]
      _ = a * 2 ^ (k + 1074) := by rw [show j + (k + 1074 - j) = k + 1074 by omega]
      _ = a * (2 ^ k * unitsPerOne) := by rw [two_pow_mul_unitsPerOne]
      _ = a * 2 ^ k * unitsPerOne := (Nat.mul_assoc _ _ _).symm

theorem exists_isInt {n : Int} (h : HasFewDigits n.natAbs) : ∃ x : Binary64, x.isInt n = true := by
  obtain ⟨rank, hunits⟩ := h.exists_rank
  exact ⟨.finite (n < 0) rank, isInt_iff.mpr ⟨_, rank, rfl, hunits, withSign_natAbs n⟩⟩

theorem hasFewDigits_truncate {rank : Nat} (h : rank < rankBound) :
    HasFewDigits (units rank / unitsPerOne) := by
  have hlt := significandOf_lt rank
  have hexponent : exponentOf rank ≤ 2045 := by
    unfold exponentOf rankBound at *
    omega
  unfold units
  by_cases hlarge : 1074 ≤ exponentOf rank
  · refine ⟨significandOf rank, exponentOf rank - 1074, hlt, by omega, ?_⟩
    have hsum : exponentOf rank - 1074 + 1074 = exponentOf rank := by omega
    have hpow := two_pow_mul_unitsPerOne (exponentOf rank - 1074)
    rw [hsum] at hpow
    rw [← hpow, ← Nat.mul_assoc]
    exact Nat.mul_div_cancel (significandOf rank * 2 ^ (exponentOf rank - 1074)) unitsPerOne_pos
  · have hle : 2 ^ exponentOf rank ≤ unitsPerOne := two_pow_le_unitsPerOne (by omega)
    refine ⟨significandOf rank * 2 ^ exponentOf rank / unitsPerOne, 0, ?_, by omega, by simp⟩
    refine Nat.lt_of_le_of_lt (Nat.div_le_of_le_mul ?_) hlt
    rw [Nat.mul_comm]
    exact Nat.mul_le_mul_right _ hle

theorem hasFewDigits_of_toLong? {x : Binary64} {n : Int} (h : x.toLong? = some n) :
    HasFewDigits n.natAbs := by
  unfold toLong? at h
  cases x with
  | finite negative rank =>
    simp only [truncate] at h
    split at h
    · cases h
      rw [natAbs_withSign]
      exact hasFewDigits_truncate rank.isLt
    · cases h
  | _ => cases h

theorem HasFewDigits.mod {m n : Nat} (hm : HasFewDigits m) (hn : HasFewDigits n) (hpos : n ≠ 0) :
    HasFewDigits (m % n) := by
  obtain ⟨a, j, ha, hj, rfl⟩ := hm
  obtain ⟨b, k, hb, hk, rfl⟩ := hn
  by_cases hle : k ≤ j
  · refine ⟨a * 2 ^ (j - k) % b, k, ?_, hk, ?_⟩
    · have hb0 : b ≠ 0 := by
        rintro rfl
        simp at hpos
      exact Nat.lt_trans (Nat.mod_lt _ (Nat.pos_of_ne_zero hb0)) hb
    · calc a * 2 ^ j % (b * 2 ^ k) = a * 2 ^ (j - k) * 2 ^ k % (b * 2 ^ k) := by
            rw [Nat.mul_assoc, ← Nat.pow_add, Nat.sub_add_cancel hle]
        _ = a * 2 ^ (j - k) % b * 2 ^ k := Nat.mul_mod_mul_right _ _ _
  · refine ⟨a % (b * 2 ^ (k - j)), j, Nat.lt_of_le_of_lt (Nat.mod_le _ _) ha, hj, ?_⟩
    calc a * 2 ^ j % (b * 2 ^ k) = a * 2 ^ j % (b * 2 ^ (k - j) * 2 ^ j) := by
          rw [Nat.mul_assoc b, ← Nat.pow_add, Nat.sub_add_cancel (by omega)]
      _ = a % (b * 2 ^ (k - j)) * 2 ^ j := Nat.mul_mod_mul_right _ _ _

theorem isInt_tmod {x y : Binary64} {m n : Int} (hx : x.toLong? = some m)
    (hy : y.toLong? = some n) (hzero : n ≠ 0) :
    isLong (m.tmod n) = true ∧ ∃ z : Binary64, z.isInt (m.tmod n) = true := by
  have hlong := isLong_of_toLong? hy
  have hlt : (m.tmod n).natAbs < n.natAbs := by
    rw [Int.natAbs_tmod]
    exact Nat.mod_lt _ (Int.natAbs_pos.mpr hzero)
  constructor
  · simp only [isLong, Bool.and_eq_true, decide_eq_true_eq] at hlong ⊢
    omega
  · apply exists_isInt
    rw [Int.natAbs_tmod]
    exact (hasFewDigits_of_toLong? hx).mod (hasFewDigits_of_toLong? hy)
      (Int.natAbs_ne_zero.mpr hzero)

end Binary64

namespace Value

theorem ofNumber_of_isInt {n : Int} {x : Binary64} (hlong : isLong n = true)
    (h : x.isInt n = true) : ofNumber x = .long n := by
  obtain ⟨negative, rank, rfl, hunits, hsign⟩ := Binary64.isInt_iff.mp h
  have hdiv : Binary64.units rank / Binary64.unitsPerOne = n.natAbs := by
    rw [hunits]
    exact Nat.mul_div_cancel n.natAbs Binary64.unitsPerOne_pos
  have htruncate : (Binary64.finite negative rank).toLong? = some n := by
    simp only [Binary64.toLong?, Binary64.truncate, hdiv, hsign, hlong, ↓reduceIte]
  rw [ofNumber, htruncate]
  simp only [h, ↓reduceIte]

theorem isInt_of_ofNumber {n : Int} {x : Binary64} (h : ofNumber x = .long n) :
    isLong n = true ∧ x.isInt n = true := by
  unfold ofNumber at h
  split at h
  · rename_i m hm
    split at h
    · rename_i hint
      cases h
      exact ⟨Binary64.isLong_of_toLong? hm, hint⟩
    · cases h
  · cases h

theorem ofNumber_ofInt {n : Int} {x : Binary64} (hlong : isLong n = true)
    (h : x.isInt n = true) : ofNumber (.ofInt n) = .long n :=
  ofNumber_of_isInt hlong (Binary64.isInt_ofInt h)

/-- A number has the one form of its value. -/
def IsCanonical (v : Value) : Prop := ∀ x, v.number? = some x → ofNumber x = v

theorem isCanonical_of_not_isNumber {v : Value} (h : v.isNumber = false) : v.IsCanonical := by
  intro x hx
  cases v with
  | long n => cases h
  | double y => cases h
  | _ => cases hx

theorem isCanonical_long {n : Int} {x : Binary64} (hlong : isLong n = true)
    (h : x.isInt n = true) : (Value.long n).IsCanonical := by
  intro y hy
  cases hy
  exact ofNumber_ofInt hlong h

theorem isCanonical_ofNumber (x : Binary64) : (ofNumber x).IsCanonical := by
  rcases ofNumber_cases x with ⟨n, hlong⟩ | hdouble
  · obtain ⟨hn, hint⟩ := isInt_of_ofNumber hlong
    rw [hlong]
    exact isCanonical_long hn hint
  · rw [hdouble]
    intro y hy
    cases hy
    exact hdouble

theorem isCanonical_remainder {x y : Binary64} {m n : Int} (hx : x.toLong? = some m)
    (hy : y.toLong? = some n) (hzero : n ≠ 0) : (Value.long (m.tmod n)).IsCanonical := by
  obtain ⟨hlong, z, hz⟩ := Binary64.isInt_tmod hx hy hzero
  exact isCanonical_long hlong hz

theorem IsCanonical.isInt_ofInt {n : Int} (h : (Value.long n).IsCanonical) :
    isLong n = true ∧ (Binary64.ofInt n).isInt n = true :=
  isInt_of_ofNumber (h (.ofInt n) rfl)

theorem IsCanonical.isInt_eq_false {x : Binary64} (h : (Value.double x).IsCanonical) {n : Int}
    (hlong : isLong n = true) : x.isInt n = false := by
  rw [Bool.eq_false_iff]
  intro hint
  have hform := h x rfl
  rw [ofNumber_of_isInt hlong hint] at hform
  cases hform

end Value

end Lisplet
