import Lisplet.Proofs.ExactValue

/-!
The order of numbers. Canonical numbers compare as their exact values do, with the infinities as
extremes, although the tests for less and greater first make doubles of them and the test for
equality does not. Two of them are equal only when they are the same value, as symbols and strings
are too.
-/

set_option autoImplicit false

namespace Lisplet

namespace Binary64

theorem eq_of_extended?_eq {x y : Binary64} {p : WithBot (WithTop ℚ)} (hx : x.extended? = some p)
    (hy : y.extended? = some p) (hzero : x.toRat? ≠ some 0) : x = y := by
  cases x with
  | nan => cases hx
  | finite s r =>
    cases hx
    exact eq_of_toRat?_eq rfl (extended?_eq_coe_iff.mp hy) fun h => hzero (congrArg some h)
  | infinite s =>
    cases hx
    cases y with
    | nan => cases hy
    | infinite t => cases s <;> cases t <;> simp [extended?] at hy ⊢
    | finite t r => exact absurd (Option.some_inj.mp hy) (coe_ne_end _ s)

end Binary64

namespace Value

/-- The exact value of a number; of an integer it is the integer itself. -/
def extended? : Value → Option (WithBot (WithTop ℚ))
  | .long n => some ((n : ℚ) : WithTop ℚ)
  | .double x => x.extended?
  | _ => none

/-- A number in its one form that has a place in the order. -/
structure IsOrdered (v : Value) : Prop where
  number : v.isNumber = true
  canonical : v.IsCanonical
  ne_nan : v ≠ .double .nan

theorem ofBool_eq_truth {b : Bool} : ofBool b = truth ↔ b = true := by
  cases b <;> simp [ofBool, truth]

theorem ofBool_eq_nil {b : Bool} : ofBool b = .nil ↔ ¬b = true := by
  cases b <;> simp [ofBool, truth]

theorem comparison_of_number? {a b : Value} {x y : Binary64} (hx : a.number? = some x)
    (hy : b.number? = some y) (test : Binary64 → Binary64 → Bool) :
    comparison test a b = ofBool (test x y) := by
  simp [comparison, hx, hy]

theorem IsOrdered.exists_extended {v : Value} (h : v.IsOrdered) :
    ∃ x p, v.number? = some x ∧ x.extended? = some p ∧ v.extended? = some p := by
  cases v with
  | long n =>
    obtain ⟨-, hint⟩ := h.canonical.isInt_ofInt
    exact ⟨_, _, rfl, Binary64.extended?_eq_coe_iff.mpr (Binary64.isInt_iff_toRat?.mp hint), rfl⟩
  | double x =>
    cases x with
    | nan => exact absurd rfl h.ne_nan
    | _ => exact ⟨_, _, rfl, rfl, rfl⟩
  | _ => cases h.number

theorem IsCanonical.toRat?_ne {x : Binary64} (h : (Value.double x).IsCanonical) {n : Int}
    (hlong : isLong n = true) : x.toRat? ≠ some (n : ℚ) := by
  rw [Ne, ← Binary64.isInt_iff_toRat?, h.isInt_eq_false hlong]
  exact Bool.false_ne_true

theorem IsOrdered.eq_of_extended? {a b : Value} {p : WithBot (WithTop ℚ)} (ha : a.IsOrdered)
    (hb : b.IsOrdered) (hpa : a.extended? = some p) (hpb : b.extended? = some p) : a = b := by
  cases a with
  | long m =>
    cases hpa
    cases b with
    | long n =>
      rw [extended?, Option.some_inj, WithBot.coe_inj, WithTop.coe_inj, Int.cast_inj] at hpb
      rw [hpb]
    | double y =>
      exact absurd (Binary64.extended?_eq_coe_iff.mp hpb)
        (hb.canonical.toRat?_ne ha.canonical.isInt_ofInt.1)
    | _ => cases hb.number
  | double x =>
    cases b with
    | long n =>
      cases hpb
      exact absurd (Binary64.extended?_eq_coe_iff.mp hpa)
        (ha.canonical.toRat?_ne hb.canonical.isInt_ofInt.1)
    | double y =>
      have hzero : x.toRat? ≠ some 0 := by
        rw [← Int.cast_zero]
        exact ha.canonical.toRat?_ne (by decide)
      rw [Binary64.eq_of_extended?_eq hpa hpb hzero]
    | _ => cases hb.number
  | _ => cases ha.number

theorem eq_eq_truth_iff {a b : Value} {p q : WithBot (WithTop ℚ)} (hpa : a.extended? = some p)
    (hqb : b.extended? = some q) : a.eq b = truth ↔ p = q := by
  cases a with
  | long m =>
    cases hpa
    cases b with
    | long n =>
      cases hqb
      rw [eq, ofBool_eq_truth, beq_iff_eq, WithBot.coe_inj, WithTop.coe_inj, Int.cast_inj]
    | double y =>
      rw [eq, ofBool_eq_truth, Binary64.isInt_iff_toRat?, ← Binary64.extended?_eq_coe_iff]
      rw [extended?] at hqb
      rw [hqb, Option.some_inj]
      exact eq_comm
    | _ => cases hqb
  | double x =>
    cases b with
    | long n =>
      cases hqb
      rw [eq, ofBool_eq_truth, Binary64.isInt_iff_toRat?, ← Binary64.extended?_eq_coe_iff]
      rw [extended?] at hpa
      rw [hpa, Option.some_inj]
    | double y => rw [eq, ofBool_eq_truth, Binary64.eq_iff hpa hqb]
    | _ => cases hqb
  | _ => cases hpa

/-- How two ordered numbers compare: the tests agree with each other and with the exact values. -/
structure Compared (a b : Value) : Prop where
  one : ∃! test : Binary, test ∈ [.lt, .eq, .gt] ∧ test.apply a b = truth
  lte_iff : a.lte b = truth ↔ a.gt b = .nil
  gte_iff : a.gte b = truth ↔ a.lt b = .nil
  gt_eq : a.gt b = b.lt a
  lt_iff : ∃ p q, a.extended? = some p ∧ b.extended? = some q ∧ (a.lt b = truth ↔ p < q)

theorem IsOrdered.lt_iff {a b : Value} (ha : a.IsOrdered) (hb : b.IsOrdered) :
    ∃ p q, a.extended? = some p ∧ b.extended? = some q ∧ (a.lt b = truth ↔ p < q) := by
  obtain ⟨x, p, hx, hpx, hpa⟩ := ha.exists_extended
  obtain ⟨y, q, hy, hqy, hqb⟩ := hb.exists_extended
  refine ⟨p, q, hpa, hqb, ?_⟩
  rw [lt, comparison_of_number? hx hy, ofBool_eq_truth, Binary64.lt_iff hpx hqy]

theorem compared {a b : Value} (ha : a.IsOrdered) (hb : b.IsOrdered) : Compared a b := by
  obtain ⟨x, p, hx, hpx, hpa⟩ := ha.exists_extended
  obtain ⟨y, q, hy, hqy, hqb⟩ := hb.exists_extended
  have hlt : a.lt b = ofBool (x.lt y) := comparison_of_number? hx hy _
  have hgt : a.gt b = ofBool (y.lt x) := comparison_of_number? hx hy _
  have hlte : a.lte b = ofBool (x.le y) := comparison_of_number? hx hy _
  have hgte : a.gte b = ofBool (y.le x) := comparison_of_number? hx hy _
  have hltTruth : a.lt b = truth ↔ p < q := by
    rw [hlt, ofBool_eq_truth, Binary64.lt_iff hpx hqy]
  have heqTruth := eq_eq_truth_iff hpa hqb
  have hgtTruth : a.gt b = truth ↔ q < p := by
    rw [hgt, ofBool_eq_truth, Binary64.lt_iff hqy hpx]
  constructor
  case one =>
    have hone : ∀ test : Binary, test ∈ [.lt, .eq, .gt] ∧ test.apply a b = truth ↔
        test = .lt ∧ p < q ∨ test = .eq ∧ p = q ∨ test = .gt ∧ q < p := by
      intro test
      cases test <;> simp [Binary.apply, hltTruth, heqTruth, hgtTruth]
    simp only [hone]
    rcases lt_trichotomy p q with h | h | h
    · exact ⟨.lt, by simp [h], by simp [h.ne, h.not_gt]⟩
    · exact ⟨.eq, by simp [h], by simp [h]⟩
    · exact ⟨.gt, by simp [h], by simp [h.ne', h.not_gt]⟩
  case lte_iff => rw [hlte, hgt, ofBool_eq_truth, ofBool_eq_nil, Binary64.le_iff hpx hqy,
      Binary64.lt_iff hqy hpx, not_lt]
  case gte_iff => rw [hgte, hlt, ofBool_eq_truth, ofBool_eq_nil, Binary64.le_iff hqy hpx,
      Binary64.lt_iff hpx hqy, not_lt]
  case gt_eq => rw [hgt, lt, comparison_of_number? hy hx]
  case lt_iff => exact ⟨p, q, hpa, hqb, hltTruth⟩

/-- Canonical numbers are in the order of their exact values, which each test tells. Of two of them,
two symbols or two strings the test for equality tells whether they are the same value. -/
theorem canonical_numbers_in_order :
    (∀ a b : Value, a.IsOrdered → b.IsOrdered → Compared a b) ∧
    (∀ a b c : Value, a.IsOrdered → b.IsOrdered → c.IsOrdered →
      a.lt b = truth → b.lt c = truth → a.lt c = truth) ∧
    (∀ a b : Value, a.IsOrdered ∧ b.IsOrdered ∨ a.isSymbol = true ∧ b.isSymbol = true ∨
        a.isString = true ∧ b.isString = true →
      (a.eq b = truth ↔ a = b)) := by
  refine ⟨fun a b ha hb => compared ha hb, ?_, ?_⟩
  · intro a b c ha hb hc hab hbc
    obtain ⟨p, q, hp, hq, hlt⟩ := ha.lt_iff hb
    obtain ⟨q', r, hq', hr, hlt'⟩ := hb.lt_iff hc
    obtain ⟨p', r', hp', hr', hlt''⟩ := ha.lt_iff hc
    cases hq.symm.trans hq'
    cases hr.symm.trans hr'
    cases hp.symm.trans hp'
    exact hlt''.mpr (lt_trans (hlt.mp hab) (hlt'.mp hbc))
  · rintro a b (⟨ha, hb⟩ | ⟨ha, hb⟩ | ⟨ha, hb⟩)
    · obtain ⟨x, p, -, -, hpa⟩ := ha.exists_extended
      obtain ⟨y, q, -, -, hqb⟩ := hb.exists_extended
      rw [eq_eq_truth_iff hpa hqb]
      constructor
      · rintro rfl
        exact ha.eq_of_extended? hb hpa hqb
      · rintro rfl
        exact Option.some_inj.mp (hpa.symm.trans hqb)
    · cases a <;> cases ha
      cases b <;> cases hb
      simp [eq, ofBool_eq_truth]
    · cases a <;> cases ha
      cases b <;> cases hb
      simp [eq, ofBool_eq_truth]

theorem canonical_numbers_in_order_atTheEnd :
    let greatest : Value := .long (2 ^ 63 - 2 ^ 10)
    let next : Value := .double (.ofInt (2 ^ 63))
    greatest.IsOrdered ∧ next.IsOrdered ∧ Compared greatest next ∧
      greatest.lt (.double (.infinite false)) = truth ∧
      (greatest.eq next = truth ↔ greatest = next) := by
  intro greatest next
  have hgreatestForm : ofNumber (.ofInt (2 ^ 63 - 2 ^ 10)) = greatest := by decide +kernel
  have hnextForm : ofNumber (.ofInt (2 ^ 63)) = next := by decide +kernel
  have hgreatest : greatest.IsOrdered := ⟨rfl, hgreatestForm ▸ isCanonical_ofNumber _, nofun⟩
  have hnext : next.IsOrdered := ⟨rfl, hnextForm ▸ isCanonical_ofNumber _, by decide +kernel⟩
  have hinfinite : (Value.double (.infinite false)).IsOrdered :=
    ⟨rfl, isCanonical_ofNumber (.infinite false), nofun⟩
  obtain ⟨hcompared, htrans, hsame⟩ := canonical_numbers_in_order
  refine ⟨hgreatest, hnext, hcompared _ _ hgreatest hnext, ?_, hsame _ _ (.inl ⟨hgreatest, hnext⟩)⟩
  exact htrans greatest next _ hgreatest hnext hinfinite (by decide +kernel) (by decide +kernel)

end Value

end Lisplet
