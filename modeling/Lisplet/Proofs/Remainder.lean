import Lisplet.Proofs.ExactValue

/-!
Remainders. The integer parts of the operands are divided, with a quotient that is cut off on the
side of zero, so the remainder has the sign of the dividend. It is a `long` and a number exactly,
also when the dividend is the least `long`, whose magnitude no `long` holds.
-/

set_option autoImplicit false

namespace Lisplet

def towardZero (q : ℚ) : Int := if q < 0 then ⌈q⌉ else ⌊q⌋

theorem towardZero_div_natCast (m : Int) (d : Nat) : towardZero ((m : ℚ) / d) = m.tdiv d := by
  have hd : (0 : ℚ) ≤ d := Nat.cast_nonneg d
  unfold towardZero
  split
  · next hneg =>
    have hm : 0 ≤ -m := by
      by_contra h
      exact absurd hneg (not_lt.mpr (div_nonneg (Int.cast_nonneg (by omega)) hd))
    rw [Rat.ceil_intCast_div_natCast, ← Int.tdiv_eq_ediv_of_nonneg hm, Int.neg_tdiv, Int.neg_neg]
  · next hnonneg =>
    rw [Rat.floor_intCast_div_natCast]
    rcases Int.lt_or_le m 0 with hm | hm
    · -- A quotient of a negative number is only not negative when the divisor is zero.
      have hzero : d = 0 := by
        by_contra h
        exact hnonneg (div_neg_of_neg_of_pos (Int.cast_lt_zero.mpr hm)
          (Nat.cast_pos.mpr (Nat.pos_of_ne_zero h)))
      subst hzero
      simp
    · exact (Int.tdiv_eq_ediv_of_nonneg hm).symm

theorem towardZero_div (m n : Int) : towardZero ((m : ℚ) / n) = m.tdiv n := by
  obtain ⟨d, rfl | rfl⟩ := n.eq_nat_or_neg
  · exact_mod_cast towardZero_div_natCast m d
  · have hflip : (m : ℚ) / ((-(d : Int) : Int) : ℚ) = ((-m : Int) : ℚ) / d := by
      rw [Int.cast_neg, Int.cast_neg, div_neg, neg_div, Int.cast_natCast]
    rw [hflip, towardZero_div_natCast, Int.tdiv_neg, Int.neg_tdiv]

namespace Binary64

theorem withSign_div (negative : Bool) (a b : Nat) :
    withSign negative (a / b) = (withSign negative a).tdiv b := by
  cases negative <;> simp [withSign, Int.neg_tdiv]

theorem truncate_eq (x : Binary64) : x.truncate = x.toRat?.map towardZero := by
  cases x with
  | finite negative rank =>
    rw [truncate, withSign_div, toRat?, Option.map_some, signedValue, towardZero_div_natCast,
      signedUnits]
  | _ => rfl

theorem toLong?_eq (x : Binary64) : x.toLong? = (x.toRat?.map towardZero).filter isLong := by
  rw [toLong?, truncate_eq]
  cases x.toRat?.map towardZero with
  | none => rfl
  | some n => simp [Option.filter]

end Binary64

namespace Value

/-- The integer part of a number as a double, where it has one and a `long` holds it. -/
def wholePart? (v : Value) : Option Int :=
  ((v.number?.bind Binary64.toRat?).map towardZero).filter isLong

theorem wholePart?_eq (v : Value) : v.wholePart? = v.number?.bind Binary64.toLong? := by
  unfold wholePart?
  cases v.number? with
  | none => rfl
  | some x => exact (Binary64.toLong?_eq x).symm

/-- The remainder of a division whose quotient is cut off on the side of zero. -/
structure IsRemainder (m n r : Int) : Prop where
  division : m = n * towardZero (m / n) + r
  smaller : r.natAbs < n.natAbs
  sign : r = 0 ∨ r.sign = m.sign
  long : isLong r = true
  representable : ∃ x : Binary64, x.toRat? = some (r : ℚ)

theorem isRemainder_tmod {x y : Binary64} {m n : Int} (hx : x.toLong? = some m)
    (hy : y.toLong? = some n) (hzero : n ≠ 0) : IsRemainder m n (m.tmod n) := by
  obtain ⟨hlong, z, hz⟩ := Binary64.isInt_tmod hx hy hzero
  constructor
  case division => rw [towardZero_div, Int.mul_tdiv_add_tmod]
  case smaller =>
    rw [Int.natAbs_tmod]
    exact Nat.mod_lt _ (Int.natAbs_pos.mpr hzero)
  case sign =>
    have hsign := Int.sign_tmod m n
    split at hsign
    · exact .inl (Int.sign_eq_zero_iff_zero.mp hsign)
    · exact .inr hsign
  case long => exact hlong
  case representable => exact ⟨z, Binary64.isInt_iff_toRat?.mp hz⟩

theorem mod_of_wholePart? {a b : Value} {m n : Int} (hm : a.wholePart? = some m)
    (hn : b.wholePart? = some n) : a.mod b =
      if n = 0 then Sentinel.divideByZero.value else .long (m.tmod n) := by
  rw [wholePart?_eq, Option.bind_eq_some_iff] at hm hn
  obtain ⟨x, hx, hm⟩ := hm
  obtain ⟨y, hy, hn⟩ := hn
  simp only [mod, hx, hy, hm, hn]

theorem mod_of_wholePart?_eq_none {a b : Value} (h : a.wholePart? = none ∨ b.wholePart? = none) :
    a.mod b = Sentinel.notANumber.value := by
  rw [wholePart?_eq, wholePart?_eq] at h
  unfold mod
  split
  · next x y hx hy =>
    rw [hx, hy, Option.bind_some, Option.bind_some] at h
    split
    · next m n hm hn =>
      rw [hm, hn] at h
      rcases h with h | h <;> cases h
    · rfl
  · rfl

/-- The remainder is no number when an operand has no integer part that a `long` holds, and a
division by zero when that of the divisor is zero. Otherwise it is the remainder of the division
that is cut off, whatever the signs and however great the magnitudes. -/
theorem mod_cuts_off (a b : Value) :
    (a.wholePart? = none ∨ b.wholePart? = none → a.mod b = Sentinel.notANumber.value) ∧
    ∀ m n, a.wholePart? = some m → b.wholePart? = some n →
      (n = 0 → a.mod b = Sentinel.divideByZero.value) ∧
      (n ≠ 0 → ∃ r, a.mod b = .long r ∧ IsRemainder m n r) := by
  refine ⟨mod_of_wholePart?_eq_none, fun m n hm hn => ⟨fun hzero => ?_, fun hzero => ?_⟩⟩
  · rw [mod_of_wholePart? hm hn, if_pos hzero]
  · refine ⟨m.tmod n, by rw [mod_of_wholePart? hm hn, if_neg hzero], ?_⟩
    rw [wholePart?_eq, Option.bind_eq_some_iff] at hm hn
    obtain ⟨x, -, hx⟩ := hm
    obtain ⟨y, -, hy⟩ := hn
    exact isRemainder_tmod hx hy hzero

theorem mod_cuts_off_leastLong :
    let least : Value := .long (-2 ^ 63)
    (∃ r, least.mod (.long (-1)) = .long r ∧ IsRemainder (-2 ^ 63) (-1) r) ∧
    (∃ r, least.mod least = .long r ∧ IsRemainder (-2 ^ 63) (-2 ^ 63) r) ∧
    least.mod (.double (.ofScaled false 5 10 (-1))) = Sentinel.divideByZero.value ∧
    (Value.double (.infinite true)).mod least = Sentinel.notANumber.value := by
  intro least
  have hleast : least.wholePart? = some (-2 ^ 63) := by
    rw [wholePart?_eq]
    decide +kernel
  have hone : (Value.long (-1)).wholePart? = some (-1) := by
    rw [wholePart?_eq]
    decide +kernel
  have hhalf : (Value.double (.ofScaled false 5 10 (-1))).wholePart? = some 0 := by
    rw [wholePart?_eq]
    decide +kernel
  exact ⟨((mod_cuts_off _ _).2 _ _ hleast hone).2 (by decide),
    ((mod_cuts_off _ _).2 _ _ hleast hleast).2 (by decide),
    ((mod_cuts_off _ _).2 _ _ hleast hhalf).1 rfl, (mod_cuts_off _ _).1 (.inl rfl)⟩

end Value

end Lisplet
