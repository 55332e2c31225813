import Lisplet.Proofs.CanonicalNumber
import Mathlib.Algebra.Order.Floor.Defs
import Mathlib.Data.Rat.Floor
import Mathlib.Order.WithBot

/-!
Exact values. A finite number is a rational, and the infinities stand at the two ends of the
rationals. Numbers compare as these values do, and the integer part of a number is the integer next
to its value on the side of zero.
-/

set_option autoImplicit false

namespace Lisplet

namespace Binary64

def signedValue (negative : Bool) (rank : Nat) : ℚ := signedUnits negative rank / unitsPerOne

/-- The rational that a finite number is. -/
def toRat? : Binary64 → Option ℚ
  | .finite negative rank => some (signedValue negative rank)
  | _ => none

/-- What a number is among the rationals with an end on either side. -/
def extended? : Binary64 → Option (WithBot (WithTop ℚ))
  | .nan => none
  | .infinite negative => some (if negative then ⊥ else ⊤)
  | .finite negative rank => some ((signedValue negative rank : ℚ) : WithTop ℚ)

theorem coe_ne_end (q : ℚ) (negative : Bool) :
    ((q : WithTop ℚ) : WithBot (WithTop ℚ)) ≠ if negative then ⊥ else ⊤ := by
  cases negative with
  | true => exact WithBot.coe_ne_bot
  | false => exact fun h => WithTop.coe_ne_top (WithBot.coe_inj.mp h)

theorem extended?_eq_coe_iff {x : Binary64} {q : ℚ} :
    x.extended? = some ((q : WithTop ℚ) : WithBot (WithTop ℚ)) ↔ x.toRat? = some q := by
  cases x with
  | nan => simp [extended?, toRat?]
  | infinite negative =>
    simp only [extended?, toRat?, Option.some_inj, reduceCtorEq, iff_false]
    exact (coe_ne_end q negative).symm
  | finite negative rank =>
    rw [extended?, toRat?, Option.some_inj, Option.some_inj, WithBot.coe_inj, WithTop.coe_inj]

theorem unitsPerOne_pos_rat : (0 : ℚ) < (unitsPerOne : ℚ) := Nat.cast_pos.mpr unitsPerOne_pos

section

variable {s t : Bool} {r q : Nat}

theorem signedValue_lt_iff : signedValue s r < signedValue t q ↔
    signedUnits s r < signedUnits t q := by
  rw [signedValue, signedValue, div_lt_div_iff_of_pos_right unitsPerOne_pos_rat, Int.cast_lt]

theorem signedValue_inj : signedValue s r = signedValue t q ↔
    signedUnits s r = signedUnits t q := by
  rw [signedValue, signedValue, div_left_inj' (ne_of_gt unitsPerOne_pos_rat), Int.cast_inj]

end

theorem natAbs_signedUnits (negative : Bool) (rank : Nat) :
    (signedUnits negative rank).natAbs = units rank := natAbs_withSign negative _

theorem withSign_false (magnitude : Nat) : withSign false magnitude = magnitude := rfl

theorem withSign_true (magnitude : Nat) : withSign true magnitude = -(magnitude : Int) := rfl

theorem signedUnits_false (rank : Nat) : signedUnits false rank = units rank :=
  withSign_false (units rank)

theorem signedUnits_true (rank : Nat) : signedUnits true rank = -(units rank : Int) :=
  withSign_true (units rank)

theorem signedUnits_between (negative : Bool) (rank : Fin rankBound) :
    signedUnits true rankBound < signedUnits negative rank ∧
      signedUnits negative rank < signedUnits false rankBound := by
  have hlt : (signedUnits negative rank).natAbs < units rankBound := by
    rw [natAbs_signedUnits]
    exact units_strictMono rank.isLt
  rw [signedUnits_true, signedUnits_false]
  omega

theorem signedUnits_infinite_lt : signedUnits true rankBound < signedUnits false rankBound :=
  have hbetween := signedUnits_between false ⟨0, by decide⟩
  lt_trans hbetween.1 hbetween.2

theorem coe_between_ends (q : ℚ) : ⊥ < ((q : WithTop ℚ) : WithBot (WithTop ℚ)) ∧
    ((q : WithTop ℚ) : WithBot (WithTop ℚ)) < ⊤ :=
  ⟨WithBot.bot_lt_coe _, WithBot.coe_lt_coe.mpr (WithTop.coe_lt_top q)⟩

theorem eq_of_toRat?_eq {x y : Binary64} {q : ℚ} (hx : x.toRat? = some q)
    (hy : y.toRat? = some q) (hzero : q ≠ 0) : x = y := by
  cases x with
  | finite s r =>
    cases y with
    | finite t r' =>
      cases hx
      have hunits : signedUnits t r' = signedUnits s r := by
        rwa [toRat?, Option.some_inj, signedValue_inj] at hy
      have hmagnitude : units r' = units r := by
        rw [← natAbs_signedUnits t, ← natAbs_signedUnits s, hunits]
      have hpos : units r ≠ 0 := by
        intro h
        apply hzero
        rw [signedValue, Int.natAbs_eq_zero.mp ((natAbs_signedUnits s r).trans h), Int.cast_zero,
          zero_div]
      obtain rfl : r' = r := Fin.ext (units_injective hmagnitude)
      have hsign : s = t := by
        rw [signedUnits, signedUnits] at hunits
        cases s <;> cases t <;> simp [withSign] at hunits ⊢ <;> omega
      rw [hsign]
    | _ => cases hy
  | _ => cases hx

theorem position_lt_iff {x y : Binary64} {i j : Int} {p q : WithBot (WithTop ℚ)}
    (hi : x.position = some i) (hj : y.position = some j) (hp : x.extended? = some p)
    (hq : y.extended? = some q) : i < j ↔ p < q := by
  cases x with
  | nan => cases hi
  | infinite s =>
    cases hi
    cases hp
    cases y with
    | nan => cases hj
    | infinite t =>
      cases hj
      cases hq
      have hends := signedUnits_infinite_lt
      cases s <;> cases t
      · exact iff_of_false (lt_irrefl _) (lt_irrefl _)
      · exact iff_of_false (lt_asymm hends) not_lt_bot
      · exact iff_of_true hends bot_lt_top
      · exact iff_of_false (lt_irrefl _) (lt_irrefl _)
    | finite t r =>
      cases hj
      cases hq
      have hunits := signedUnits_between t r
      have hvalue := coe_between_ends (signedValue t r)
      cases s
      · exact iff_of_false (lt_asymm hunits.2) (lt_asymm hvalue.2)
      · exact iff_of_true hunits.1 hvalue.1
  | finite s r =>
    cases hi
    cases hp
    cases y with
    | nan => cases hj
    | infinite t =>
      cases hj
      cases hq
      have hunits := signedUnits_between s r
      have hvalue := coe_between_ends (signedValue s r)
      cases t
      · exact iff_of_true hunits.2 hvalue.2
      · exact iff_of_false (lt_asymm hunits.1) (lt_asymm hvalue.1)
    | finite t r' =>
      cases hj
      cases hq
      rw [WithBot.coe_lt_coe, WithTop.coe_lt_coe, signedValue_lt_iff]

theorem exists_position {x : Binary64} {p : WithBot (WithTop ℚ)} (h : x.extended? = some p) :
    ∃ i, x.position = some i := by
  cases x with
  | nan => cases h
  | _ => exact ⟨_, rfl⟩

section

variable {x y : Binary64} {p q : WithBot (WithTop ℚ)} (hp : x.extended? = some p)
  (hq : y.extended? = some q)
include hp hq

theorem lt_iff : x.lt y = true ↔ p < q := by
  obtain ⟨i, hi⟩ := exists_position hp
  obtain ⟨j, hj⟩ := exists_position hq
  rw [← position_lt_iff hi hj hp hq]
  simp [lt, compare, hi, hj]

theorem le_iff : x.le y = true ↔ p ≤ q := by
  obtain ⟨i, hi⟩ := exists_position hp
  obtain ⟨j, hj⟩ := exists_position hq
  rw [← not_lt, ← position_lt_iff hj hi hq hp]
  simp [le, compare, hi, hj]

theorem eq_iff : x.eq y = true ↔ p = q := by
  obtain ⟨i, hi⟩ := exists_position hp
  obtain ⟨j, hj⟩ := exists_position hq
  have hle := position_lt_iff hi hj hp hq
  have hge := position_lt_iff hj hi hq hp
  have heq : x.eq y = true ↔ i = j := by simp [eq, compare, hi, hj]
  rw [heq]
  constructor
  · rintro rfl
    exact le_antisymm (not_lt.mp fun h => lt_irrefl _ (hge.mpr h))
      (not_lt.mp fun h => lt_irrefl _ (hle.mpr h))
  · rintro rfl
    exact le_antisymm (not_lt.mp fun h => lt_irrefl _ (hge.mp h))
      (not_lt.mp fun h => lt_irrefl _ (hle.mp h))

end

theorem isInt_iff_toRat? {n : Int} {x : Binary64} : x.isInt n = true ↔ x.toRat? = some (n : ℚ) := by
  cases x with
  | finite negative rank =>
    have hone : (unitsPerOne : ℚ) ≠ 0 := ne_of_gt unitsPerOne_pos_rat
    rw [isInt, beq_iff_eq, toRat?, Option.some_inj, signedValue, div_eq_iff hone]
    rw [← Int.cast_natCast (R := ℚ), ← Int.cast_mul, Int.cast_inj]
    exact eq_comm
  | _ => simp [isInt, toRat?]

end Binary64

theorem Value.ofNumber_eq_of_toRat? {x y : Binary64} {q : ℚ} (hx : x.toRat? = some q)
    (hy : y.toRat? = some q) : ofNumber x = ofNumber y := by
  by_cases hq : q = 0
  · rw [hq, ← Int.cast_zero, ← Binary64.isInt_iff_toRat?] at hx hy
    rw [ofNumber_of_isInt (by decide) hx, ofNumber_of_isInt (by decide) hy]
  · rw [Binary64.eq_of_toRat?_eq hx hy hq]

end Lisplet
