import Lisplet.Binary64.Fixed
import Lisplet.Numeral
import Mathlib.Data.List.TakeDrop

/-!
The texts in which numbers print, read as numerals: an integer, and a number with its decimal
places written out.
-/

set_option autoImplicit false

namespace Lisplet

namespace Text

def signChars (negative : Bool) : List Char := if negative then ['-'] else []

theorem isAsciiDigit_of_isDigit {c : Char} (h : c.isDigit = true) : isAsciiDigit c = true := by
  simp only [Char.isDigit, Bool.and_eq_true, decide_eq_true_eq, ge_iff_le, UInt32.le_iff_toNat_le]
    at h
  simp only [isAsciiDigit, Bool.and_eq_true, decide_eq_true_eq]
  exact h

theorem digitValues_of_isDigit {cs : List Char} (h : ∀ c ∈ cs, c.isDigit = true) :
    digitValues cs = cs.map fun c => c.toNat - '0'.toNat := by
  induction cs with
  | nil => rfl
  | cons c cs ih =>
    have hc := digitValue?_of_isAsciiDigit (isAsciiDigit_of_isDigit (h c (by simp)))
    have hcs := ih fun d hd => h d (by simp [hd])
    simp only [digitValues] at hcs
    simp [digitValues, hc, hcs]

theorem decimalNumber_digitValues {cs : List Char} (h : ∀ c ∈ cs, c.isDigit = true) :
    decimalNumber (digitValues cs) = Nat.ofDigitChars 10 cs 0 := by
  rw [digitValues_of_isDigit h, decimalNumber, List.foldl_map, Nat.ofDigitChars_eq_foldl]

theorem isDecimalDigit_of_isDigit {c : Char} (h : c.isDigit = true) : isDecimalDigit c = true := by
  simp [isDecimalDigit, digitValue?_of_isAsciiDigit (isAsciiDigit_of_isDigit h)]

theorem isDecimalDigit_point : isDecimalDigit '.' = false := by decide

end Text

namespace Numeral

open Text

theorem span_run {isDigit : Char → Bool} {run rest : List Char} (hrun : ∀ c ∈ run, isDigit c = true)
    (hrest : ∀ c ∈ rest.head?, isDigit c = false) :
    (run ++ rest).span isDigit = (run, rest) := by
  rw [List.span_eq_takeWhile_dropWhile, List.takeWhile_append_of_pos hrun,
    List.dropWhile_append_of_pos hrun]
  cases rest with
  | nil => simp
  | cons c rest =>
    have hc := hrest c (by simp)
    simp [hc]

theorem span_digits {whole rest : List Char} (hwhole : ∀ c ∈ whole, c.isDigit = true)
    (hrest : ∀ c ∈ rest.head?, isDecimalDigit c = false) :
    (whole ++ rest).span isDecimalDigit = (whole, rest) :=
  span_run (fun c hc => isDecimalDigit_of_isDigit (hwhole c hc)) hrest

theorem mantissa?_whole {whole : List Char} (h : ∀ c ∈ whole, c.isDigit = true)
    (hne : whole ≠ []) : mantissa? isDecimalDigit whole = some ⟨whole, [], []⟩ := by
  have hempty : ∀ c ∈ ([] : List Char).head?, isDecimalDigit c = false := by simp
  have hspan : whole.span isDecimalDigit = (whole, []) := by
    simpa only [List.append_nil] using span_digits h hempty
  simp only [mantissa?, hspan]
  simp [hne]

theorem mantissa?_point {whole fraction : List Char} (hw : ∀ c ∈ whole, c.isDigit = true)
    (hf : ∀ c ∈ fraction, c.isDigit = true) (hne : whole ≠ []) :
    mantissa? isDecimalDigit (whole ++ '.' :: fraction) = some ⟨whole, fraction, []⟩ := by
  have hempty : ∀ c ∈ ([] : List Char).head?, isDecimalDigit c = false := by simp
  have hspan : (whole ++ '.' :: fraction).span isDecimalDigit = (whole, '.' :: fraction) :=
    span_digits hw (by simp [isDecimalDigit_point])
  have hspan' : fraction.span isDecimalDigit = (fraction, []) := by
    simpa only [List.append_nil] using span_digits hf hempty
  simp only [mantissa?, hspan, hspan']
  simp [hne]

theorem decimal?_of_mantissa {body whole fraction : List Char} (negative : Bool)
    (hm : mantissa? isDecimalDigit body = some ⟨whole, fraction, []⟩)
    (hd : ∀ c ∈ whole ++ fraction, c.isDigit = true) :
    decimal? negative body =
      some (.scaled negative (Nat.ofDigitChars 10 (whole ++ fraction) 0) 10
        (-(fraction.length : Int))) := by
  have hzero : Exponent.value ⟨false, []⟩ = 0 := by decide
  simp [decimal?, hm, exponent?, decimalNumber_digitValues hd, hzero]

theorem read?_minus (body : List Char) :
    read? ('-' :: body) = unsigned? ('-' :: body) true body := rfl

theorem read?_plain {c : Char} (h : c ≠ '-') (rest : List Char) :
    read? (c :: rest) = unsigned? (c :: rest) false (c :: rest) := by
  unfold read?
  split
  · next heq => exact absurd (List.cons.inj heq).1 h
  · rfl

theorem unsigned?_of_decimal {body : List Char} {negative : Bool} {numeral : Numeral}
    (hx : 'x' ∉ body) (hX : 'X' ∉ body) (h : decimal? negative body = some numeral)
    (token : List Char) : unsigned? token negative body = some (.ok numeral) := by
  unfold unsigned?
  split
  · simp at hx
  · simp at hX
  · rw [h]

theorem read?_of_mantissa {body whole fraction : List Char} (negative : Bool)
    (hbody : ∀ c ∈ body, c.isDigit = true ∨ c = '.')
    (hm : mantissa? isDecimalDigit body = some ⟨whole, fraction, []⟩)
    (hd : ∀ c ∈ whole ++ fraction, c.isDigit = true) :
    read? (signChars negative ++ body) =
      some (.ok (.scaled negative (Nat.ofDigitChars 10 (whole ++ fraction) 0) 10
        (-(fraction.length : Int)))) := by
  have hx : 'x' ∉ body := fun h => by simpa using hbody 'x' h
  have hX : 'X' ∉ body := fun h => by simpa using hbody 'X' h
  have hunsigned := unsigned?_of_decimal hx hX (decimal?_of_mantissa negative hm hd)
  cases negative with
  | true => exact (read?_minus body).trans (hunsigned _)
  | false =>
    cases body with
    | nil => exact hunsigned []
    | cons c rest =>
      have hc : c ≠ '-' := by
        rintro rfl
        simpa using hbody '-' (by simp)
      exact (read?_plain hc rest).trans (hunsigned _)

end Numeral

namespace Binary64

theorem toList_signText (negative : Bool) :
    (signText negative).toList = Text.signChars negative := by
  cases negative <;> rfl

def fractionChars (places scaled : Nat) : List Char :=
  List.replicate (places - (Nat.toDigits 10 (scaled % 10 ^ places)).length) '0' ++
    Nat.toDigits 10 (scaled % 10 ^ places)

theorem toList_pushn (c : Char) (n : Nat) : ("".pushn c n).toList = List.replicate n c := by
  rw [String.pushn_eq_repeat_push]
  induction n with
  | zero => rfl
  | succ n ih => rw [Nat.repeat, String.toList_push, ih, List.replicate_succ']

theorem toList_pointText (places scaled : Nat) :
    (pointText places scaled).toList =
      Nat.toDigits 10 (scaled / 10 ^ places) ++ '.' :: fractionChars places scaled := by
  simp [pointText, fractionChars, toList_pushn, ← String.length_toList]

theorem toList_fixedText (places : Nat) (negative : Bool) (rank : Fin rankBound) :
    ((Binary64.finite negative rank).fixedText places).toList =
      Text.signChars negative ++ (Nat.toDigits 10 (toPlaces places rank / 10 ^ places) ++
        '.' :: fractionChars places (toPlaces places rank)) := by
  simp [fixedText, toList_signText, toList_pointText]

theorem length_fractionChars {places : Nat} (h : 0 < places) (scaled : Nat) :
    (fractionChars places scaled).length = places := by
  have hlt : scaled % 10 ^ places < 10 ^ places := Nat.mod_lt _ (Nat.pow_pos (by omega))
  have hle := (Nat.length_toDigits_le_iff (by omega) h).2 hlt
  simp [fractionChars]
  omega

theorem isDigit_of_mem_toDigits {n : Nat} {c : Char} (h : c ∈ Nat.toDigits 10 n) :
    c.isDigit = true := Nat.isDigit_of_mem_toDigits (by omega) (by omega) h

theorem isDigit_of_mem_fractionChars {places scaled : Nat} {c : Char}
    (h : c ∈ fractionChars places scaled) : c.isDigit = true := by
  rcases List.mem_append.mp h with hzero | hdigit
  · rw [List.eq_of_mem_replicate hzero]
    rfl
  · exact isDigit_of_mem_toDigits hdigit

theorem ofDigitChars_fraction {places : Nat} (h : 0 < places) (scaled : Nat) :
    Nat.ofDigitChars 10 (Nat.toDigits 10 (scaled / 10 ^ places) ++ fractionChars places scaled) 0 =
      scaled := by
  have hlength := length_fractionChars h scaled
  have hfraction : Nat.ofDigitChars 10 (fractionChars places scaled) 0 = scaled % 10 ^ places := by
    rw [fractionChars, Nat.ofDigitChars_append, Nat.ofDigitChars_replicate_zero, Nat.mul_zero,
      Nat.ofDigitChars_ten_toDigits]
  rw [Nat.ofDigitChars_append, Nat.ofDigitChars_ten_toDigits,
    Nat.ofDigitChars_eq_ofDigitChars_zero, hlength, hfraction]
  exact Nat.div_add_mod scaled (10 ^ places)

theorem ofRatio_zero (negative : Bool) {denominator : Nat} (h : 0 < denominator) :
    ofRatio negative 0 denominator = zeroOf negative := by
  have hrank : nearestRank 0 denominator = 0 := by
    simp [nearestRank, divNearest, h]
  rw [ofRatio, hrank]
  rfl

theorem ofScaled_zero (negative : Bool) (significand base : Nat) :
    ofScaled negative significand base 0 = ofRatio negative (significand * unitsPerOne) 1 := by
  by_cases hs : significand = 0
  · subst hs
    simp [ofScaled, ofRatio_zero]
  · have hrange : ¬ ((1076 : Int) + significand.log2 < 0) := by omega
    simp [ofScaled, hs, hrange]

theorem ofScaled_neg (negative : Bool) (significand : Nat) {base exponent : Nat}
    (hbase : 0 < base) (hpos : 0 < exponent) (hle : exponent ≤ 1076) :
    ofScaled negative significand base (-(exponent : Int)) =
      ofRatio negative (significand * unitsPerOne) (base ^ exponent) := by
  by_cases hs : significand = 0
  · subst hs
    simp [ofScaled, ofRatio_zero, Nat.pow_pos hbase]
  · have hrange : ¬ (-(exponent : Int) + 1076 + significand.log2 < 0) := by omega
    have hsmall : ¬ (2100 < -(exponent : Int)) := by omega
    have hneg : ¬ (0 ≤ -(exponent : Int)) := by omega
    simp only [ofScaled, hrange, hsmall, hneg, ↓reduceIte, Int.neg_neg, Int.toNat_natCast]
    simp [hs]

end Binary64

namespace Value

open Text

theorem toList_toString_int (n : Int) :
    (toString n).toList = signChars (n < 0) ++ Nat.toDigits 10 n.natAbs := by
  rw [Int.toString_eq_repr, Int.repr_eq_if]
  by_cases h : n < 0
  · have hneg : ¬ 0 ≤ n := by omega
    have habs : (-n).toNat = n.natAbs := by omega
    simp [h, hneg, signChars, habs]
  · have hpos : 0 ≤ n := by omega
    have habs : n.toNat = n.natAbs := by omega
    simp [h, hpos, signChars, habs]

theorem ofNumeral?_int (n : Int) :
    ofNumeral? (toString n).toList = some (.ok (.ofNumber (.ofInt n))) := by
  have hdigits : ∀ c ∈ Nat.toDigits 10 n.natAbs, c.isDigit = true :=
    fun c hc => Binary64.isDigit_of_mem_toDigits hc
  have hread := Numeral.read?_of_mantissa (n < 0) (fun c hc => .inl (hdigits c hc))
    (Numeral.mantissa?_whole hdigits Nat.toDigits_ne_nil) (by simpa using hdigits)
  rw [List.append_nil, Nat.ofDigitChars_ten_toDigits] at hread
  have hnumber : Numeral.number (.scaled (n < 0) n.natAbs 10 (-(([] : List Char).length : Int))) =
      .ofInt n := Binary64.ofScaled_zero _ _ _
  simp only [ofNumeral?, toList_toString_int, hread, hnumber]

theorem ofNumeral?_fixedText {places : Nat} (hpos : 0 < places) (hle : places ≤ 1076)
    (negative : Bool) (rank : Fin Binary64.rankBound) :
    ofNumeral? ((Binary64.finite negative rank).fixedText places).toList =
      some (.ok (.ofNumber (.ofRatio negative
        (Binary64.toPlaces places rank * Binary64.unitsPerOne) (10 ^ places)))) := by
  let scaled := Binary64.toPlaces places rank
  have hwhole : ∀ c ∈ Nat.toDigits 10 (scaled / 10 ^ places), c.isDigit = true :=
    fun c hc => Binary64.isDigit_of_mem_toDigits hc
  have hfraction : ∀ c ∈ Binary64.fractionChars places scaled, c.isDigit = true :=
    fun c hc => Binary64.isDigit_of_mem_fractionChars hc
  have hbody : ∀ c ∈ Nat.toDigits 10 (scaled / 10 ^ places) ++
      '.' :: Binary64.fractionChars places scaled, c.isDigit = true ∨ c = '.' := by
    intro c hc
    simp only [List.mem_append, List.mem_cons] at hc
    rcases hc with hc | hc | hc
    · exact .inl (hwhole c hc)
    · exact .inr hc
    · exact .inl (hfraction c hc)
  have hdigits : ∀ c ∈ Nat.toDigits 10 (scaled / 10 ^ places) ++
      Binary64.fractionChars places scaled, c.isDigit = true :=
    fun c hc => (List.mem_append.mp hc).elim (hwhole c) (hfraction c)
  have hread := Numeral.read?_of_mantissa negative hbody
    (Numeral.mantissa?_point hwhole hfraction Nat.toDigits_ne_nil) hdigits
  rw [Binary64.ofDigitChars_fraction hpos, Binary64.length_fractionChars hpos] at hread
  have hnumber : Numeral.number (.scaled negative scaled 10 (-(places : Int))) =
      .ofRatio negative (scaled * Binary64.unitsPerOne) (10 ^ places) :=
    Binary64.ofScaled_neg negative scaled (by omega) hpos hle
  rw [ofNumeral?, Binary64.toList_fixedText, hread]
  simp only [hnumber, scaled]

end Value

end Lisplet
