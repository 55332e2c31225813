import Lisplet.Proofs.NearestNumber
import Lisplet.Proofs.NumeralShape
import Mathlib.Data.Nat.Digits.Defs

/-!
The values of numerals. A token of ASCII characters is a numeral when it has the form of one, and
then it denotes a rational, an infinity or no number. It is read as the number that its rational is
rounded to, in the one form of that number. How the rational is written makes no difference.
-/

set_option autoImplicit false

namespace Lisplet.Numeral

open Text

def digitsInOrder : List Char := "0123456789abcdef".toList

def digitOf (c : Char) : Nat := digitsInOrder.idxOf c.toLower

def isDigitOf (base : Nat) (c : Char) : Bool := digitOf c < base

def spelled (base : Nat) (digits : List Char) : Nat :=
  Nat.ofDigits base (digits.reverse.map digitOf)

/-- Nothing, or the letter of an exponent in either case, perhaps a sign, and digits. -/
inductive ExponentDenotes (mark : Char) : List Char → Int → Prop
  | absent : ExponentDenotes mark [] 0
  | bare {c : Char} {digits : List Char} (hmark : c.toLower = mark)
    (hall : ∀ d ∈ digits, isDigitOf 10 d = true) (hne : digits ≠ []) :
    ExponentDenotes mark (c :: digits) (spelled 10 digits)
  | plus {c : Char} {digits : List Char} (hmark : c.toLower = mark)
    (hall : ∀ d ∈ digits, isDigitOf 10 d = true) (hne : digits ≠ []) :
    ExponentDenotes mark (c :: '+' :: digits) (spelled 10 digits)
  | minus {c : Char} {digits : List Char} (hmark : c.toLower = mark)
    (hall : ∀ d ∈ digits, isDigitOf 10 d = true) (hne : digits ≠ []) :
    ExponentDenotes mark (c :: '-' :: digits) (-spelled 10 digits)

/-- Digits of one base with at most one point, times a power of another. -/
inductive DigitsDenote (base : Nat) (mark : Char) (radix : Nat) : List Char → ℚ → Prop
  | scaled {m : Mantissa} {text : List Char} {exponent : Int}
    (hmantissa : MantissaShape (isDigitOf base) m text)
    (hexponent : ExponentDenotes mark m.rest exponent) :
    DigitsDenote base mark radix text
      (spelled base (m.whole ++ m.fraction) / (base : ℚ) ^ m.fraction.length *
        (radix : ℚ) ^ exponent)

inductive Quantity where
  | rational (q : ℚ)
  | infinite (negative : Bool)
  | notANumber

inductive UnsignedDenotes (negative : Bool) : List Char → Quantity → Prop
  | hexadecimal {x : Char} {body : List Char} {q : ℚ} (hx : x.toLower = 'x')
    (h : DigitsDenote 16 'p' 2 body q) :
    UnsignedDenotes negative ('0' :: x :: body) (.rational (Binary64.signed negative q))
  | decimal {body : List Char} {q : ℚ} (h : DigitsDenote 10 'e' 10 body q) :
    UnsignedDenotes negative body (.rational (Binary64.signed negative q))
  | infinity {body : List Char}
    (h : body.map Char.toLower ∈ ["inf".toList, "infinity".toList]) :
    UnsignedDenotes negative body (.infinite negative)
  | notANumber {body : List Char} (h : body.map Char.toLower = "nan".toList) :
    UnsignedDenotes negative body .notANumber

/-- What a token of ASCII characters denotes, after its sign. -/
def Denotes (token : List Char) (quantity : Quantity) : Prop :=
  ∃ negative body, token = signChars negative ++ body ∧ UnsignedDenotes negative body quantity

inductive Quantity.RoundsTo : Quantity → Binary64 → Prop
  | rational {q : ℚ} {x : Binary64} (h : Binary64.RoundsTo q x) : RoundsTo (.rational q) x
  | infinite (negative : Bool) : RoundsTo (.infinite negative) (.infinite negative)
  | notANumber : RoundsTo .notANumber .nan

theorem of_ascii {p : Char → Prop} (h : ∀ n : Fin 128, p (Char.ofNat n)) {c : Char}
    (hc : c.toNat < 128) : p c := by
  have hp := h ⟨c.toNat, hc⟩
  rwa [Char.ofNat_toNat] at hp

theorem ascii_of_all {cs : List Char} (h : (cs.all fun c => c.toNat < 128) = true) :
    ∀ c ∈ cs, c.toNat < 128 := by
  simpa only [List.all_eq_true, decide_eq_true_eq] using h

section

variable {c : Char}

theorem toNat_lt_of_toLower (h : c.toLower.toNat < 128) : c.toNat < 128 := by
  unfold Char.toLower at h
  split at h
  · next hcapital =>
    have hle : c.toNat ≤ 'Z'.toNat := UInt32.le_iff_toNat_le.mp hcapital.2
    exact Nat.lt_of_le_of_lt hle (by decide)
  · exact h

theorem ascii_of_isDigitOf {base : Nat} (hbase : base ≤ 16) (h : isDigitOf base c = true) :
    c.toNat < 128 := by
  have hlt : digitOf c < digitsInOrder.length :=
    Nat.lt_of_lt_of_le (of_decide_eq_true h) hbase
  exact toNat_lt_of_toLower (ascii_of_all (by decide) _ (List.idxOf_lt_length_iff.mp hlt))

def numeralLetters : List Char := "epxinftya".toList

theorem spells_ascii {letter : Char} (hletter : letter ∈ numeralLetters) (hc : c.toNat < 128) :
    spells letter c = (c.toLower == letter) := by
  have hall : (numeralLetters.all fun l => spells l c == (c.toLower == l)) = true :=
    of_ascii (p := fun c => (numeralLetters.all fun l => spells l c == (c.toLower == l)) = true)
      (by decide +kernel) hc
  exact beq_iff_eq.mp (List.all_eq_true.mp hall letter hletter)

theorem ascii_of_mem_letters {letter : Char} (h : letter ∈ numeralLetters) : letter.toNat < 128 :=
  ascii_of_all (by decide) letter h

theorem spells_of_toLower {letter : Char} (hletter : letter ∈ numeralLetters)
    (h : c.toLower = letter) : spells letter c = true := by
  have hascii := toNat_lt_of_toLower (h ▸ ascii_of_mem_letters hletter)
  rw [spells_ascii hletter hascii, h, beq_self_eq_true]

theorem digitValue?_ascii (hc : c.toNat < 128) :
    digitValue? c = if isDigitOf 10 c then some (digitOf c) else none :=
  of_ascii (p := fun c => digitValue? c = if isDigitOf 10 c then some (digitOf c) else none)
    (by decide +kernel) hc

theorem hexValue?_ascii (hc : c.toNat < 128) :
    hexValue? c = if isDigitOf 16 c then some (digitOf c) else none :=
  of_ascii (p := fun c => hexValue? c = if isDigitOf 16 c then some (digitOf c) else none)
    (by decide +kernel) hc

theorem isDecimalDigit_ascii (hc : c.toNat < 128) : isDecimalDigit c = isDigitOf 10 c := by
  rw [isDecimalDigit, digitValue?_ascii hc]
  cases isDigitOf 10 c <;> rfl

theorem isHexDigit_ascii (hc : c.toNat < 128) : isHexDigit c = isDigitOf 16 c := by
  rw [isHexDigit, hexValue?_ascii hc]
  cases isDigitOf 16 c <;> rfl

theorem isAsciiDigit_eq (hc : c.toNat < 128) : isAsciiDigit c = isDigitOf 10 c :=
  of_ascii (p := fun c => isAsciiDigit c = isDigitOf 10 c) (by decide +kernel) hc

end

theorem filterMap_digits {base : Nat} {value? : Char → Option Nat} (hbase : base ≤ 16)
    (hvalue : ∀ c : Char, c.toNat < 128 →
      value? c = if isDigitOf base c then some (digitOf c) else none)
    {digits : List Char} (h : ∀ d ∈ digits, isDigitOf base d = true) :
    digits.filterMap value? = digits.map digitOf := by
  rw [← List.filterMap_eq_map]
  refine List.filterMap_congr fun d hd => ?_
  rw [hvalue d (ascii_of_isDigitOf hbase (h d hd)), if_pos (h d hd)]
  rfl

theorem foldl_digits (base : Nat) (digits : List Char) :
    (digits.map digitOf).foldl (fun n d => base * n + d) 0 = spelled base digits := by
  rw [spelled, Nat.ofDigits_eq_foldr, List.map_reverse, List.foldr_reverse]
  simp only [Nat.cast_id, Nat.add_comm]

theorem decimalNumber_eq {digits : List Char} (h : ∀ d ∈ digits, isDigitOf 10 d = true) :
    decimalNumber (digitValues digits) = spelled 10 digits := by
  rw [digitValues, filterMap_digits (by decide) (fun _ => digitValue?_ascii) h]
  exact foldl_digits 10 digits

theorem hexNumber_eq {digits : List Char} (h : ∀ d ∈ digits, isDigitOf 16 d = true) :
    hexNumber digits = spelled 16 digits := by
  rw [hexNumber, filterMap_digits (by decide) (fun _ => hexValue?_ascii) h]
  exact foldl_digits 16 digits

theorem exponent_digits {digits : List Char} (hall : ∀ d ∈ digits, isDigitOf 10 d = true) :
    (∀ d ∈ digits, isDecimalDigit d = true) ∧ digits.all isAsciiDigit = true ∧
      ∀ negative, Exponent.value ⟨negative, digits⟩ =
        Binary64.withSign negative (spelled 10 digits) := by
  have hascii : ∀ d ∈ digits, d.toNat < 128 := fun d hd =>
    ascii_of_isDigitOf (by decide) (hall d hd)
  refine ⟨fun d hd => ?_, List.all_eq_true.mpr fun d hd => ?_, fun negative => ?_⟩
  · rw [isDecimalDigit_ascii (hascii d hd)]
    exact hall d hd
  · rw [isAsciiDigit_eq (hascii d hd)]
    exact hall d hd
  · rw [Exponent.value, decimalNumber_eq hall]

section

variable {mark : Char} (hmark : mark ∈ numeralLetters)
include hmark

theorem ExponentDenotes.shape {text : List Char} {exponent : Int}
    (h : ExponentDenotes mark text exponent) :
    ∃ e : Exponent, ExponentShape mark e text ∧ e.value = exponent ∧
      e.digits.all isAsciiDigit = true := by
  cases h with
  | absent => exact ⟨_, .absent, rfl, rfl⟩
  | bare hc hall hne =>
    obtain ⟨hdecimal, hascii, hvalue⟩ := exponent_digits hall
    exact ⟨_, .bare (spells_of_toLower hmark hc) hdecimal hne, hvalue false, hascii⟩
  | plus hc hall hne =>
    obtain ⟨hdecimal, hascii, hvalue⟩ := exponent_digits hall
    exact ⟨_, .plus (spells_of_toLower hmark hc) hdecimal hne, hvalue false, hascii⟩
  | minus hc hall hne =>
    obtain ⟨hdecimal, hascii, hvalue⟩ := exponent_digits hall
    exact ⟨_, .minus (spells_of_toLower hmark hc) hdecimal hne, hvalue true, hascii⟩

theorem ExponentShape.denotes {text : List Char} {e : Exponent} (h : ExponentShape mark e text)
    (hascii : ∀ c ∈ text, c.toNat < 128) : ∃ exponent, ExponentDenotes mark text exponent := by
  have hletter : ∀ c ∈ text, spells mark c = true → c.toLower = mark := by
    intro c hc hspells
    rwa [spells_ascii hmark (hascii c hc), beq_iff_eq] at hspells
  have hdigit : ∀ c ∈ text, isDecimalDigit c = true → isDigitOf 10 c = true := by
    intro c hc hdecimal
    rwa [isDecimalDigit_ascii (hascii c hc)] at hdecimal
  cases h with
  | absent => exact ⟨_, .absent⟩
  | bare hc hall hne =>
    exact ⟨_, .bare (hletter _ (by simp) hc) (fun d hd => hdigit d (by simp [hd]) (hall d hd)) hne⟩
  | plus hc hall hne =>
    exact ⟨_, .plus (hletter _ (by simp) hc) (fun d hd => hdigit d (by simp [hd]) (hall d hd)) hne⟩
  | minus hc hall hne =>
    exact ⟨_, .minus (hletter _ (by simp) hc) (fun d hd => hdigit d (by simp [hd]) (hall d hd)) hne⟩

end

section

variable {isDigit isDigit' : Char → Bool} {m : Mantissa} {text : List Char}

theorem MantissaShape.digits (h : MantissaShape isDigit m text) :
    ∀ c ∈ m.whole ++ m.fraction, isDigit c = true := by
  cases h with
  | whole hall => simpa using hall
  | point hwhole hfraction =>
    intro c hc
    exact (List.mem_append.mp hc).elim (hwhole c) (hfraction c)

theorem MantissaShape.of_digits (h : MantissaShape isDigit m text)
    (hdigits : ∀ c ∈ m.whole ++ m.fraction, isDigit' c = true) :
    MantissaShape isDigit' m text := by
  cases h with
  | whole hall hne => exact .whole (by simpa using hdigits) hne
  | point hwhole hfraction hne =>
    exact .point (fun c hc => hdigits c (List.mem_append_left _ hc))
      (fun c hc => hdigits c (List.mem_append_right _ hc)) hne

theorem MantissaShape.mem_text (h : MantissaShape isDigit m text) {c : Char}
    (hc : c ∈ m.whole ++ m.fraction ∨ c ∈ m.rest) : c ∈ text := by
  cases h with
  | whole => simpa using hc
  | point =>
    simp only [List.mem_append, List.mem_cons] at hc ⊢
    tauto

end

section

variable {base radix : Nat} {mark : Char} {isDigit : Char → Bool} {text : List Char}
  (hmark : mark ∈ numeralLetters)
  (hdigit : ∀ {c : Char}, c.toNat < 128 → isDigit c = isDigitOf base c)
include hmark hdigit

theorem DigitsDenote.shape (hbase : base ≤ 16) {q : ℚ} (h : DigitsDenote base mark radix text q) :
    ∃ m e, DigitsShape isDigit mark m e text ∧
      (∀ c ∈ m.whole ++ m.fraction, isDigitOf base c = true) ∧ e.digits.all isAsciiDigit = true ∧
      q = spelled base (m.whole ++ m.fraction) / (base : ℚ) ^ m.fraction.length *
        (radix : ℚ) ^ e.value := by
  obtain @⟨m, _, exponent, hmantissa, hexponent⟩ := h
  obtain ⟨e, heshape, rfl, heascii⟩ := hexponent.shape hmark
  have hdigits := hmantissa.digits
  have hmshape : MantissaShape isDigit m text := hmantissa.of_digits fun c hc => by
    rw [hdigit (ascii_of_isDigitOf hbase (hdigits c hc))]
    exact hdigits c hc
  exact ⟨m, e, ⟨hmshape, heshape⟩, hdigits, heascii, rfl⟩

theorem DigitsShape.denotes {m : Mantissa} {e : Exponent} (h : DigitsShape isDigit mark m e text)
    (hascii : ∀ c ∈ text, c.toNat < 128) : ∃ q, DigitsDenote base mark radix text q := by
  obtain ⟨exponent, hexponent⟩ := h.exponent.denotes hmark fun c hc =>
    hascii c (h.mantissa.mem_text (.inr hc))
  have hmantissa : MantissaShape (isDigitOf base) m text := h.mantissa.of_digits fun c hc => by
    rw [← hdigit (hascii c (h.mantissa.mem_text (.inl hc)))]
    exact h.mantissa.digits c hc
  exact ⟨_, .scaled hmantissa hexponent⟩

end

theorem roundsTo_scaled (negative : Bool) {base radix k : Nat} (hradix : 2 ≤ radix)
    (hbase : base = radix ^ k) (significand places : Nat) (exponent : Int) :
    Binary64.RoundsTo
      (Binary64.signed negative (significand / (base : ℚ) ^ places * (radix : ℚ) ^ exponent))
      (.ofScaled negative significand radix (exponent - k * places)) := by
  have hne : (radix : ℚ) ≠ 0 := Nat.cast_ne_zero.mpr (by omega)
  have hrounds := Binary64.roundsTo_ofScaled negative significand hradix (exponent - k * places)
  have hscale : (radix : ℚ) ^ (exponent - k * places) =
      (radix : ℚ) ^ exponent / (base : ℚ) ^ places := by
    rw [zpow_sub₀ hne, hbase, Nat.cast_pow, ← pow_mul, ← zpow_natCast, Nat.cast_mul]
  rw [hscale, ← mul_div_assoc] at hrounds
  rwa [div_mul_eq_mul_div]

section

variable {negative : Bool} {body : List Char}

theorem decimal?_of_denotes {q : ℚ} (h : DigitsDenote 10 'e' 10 body q) :
    ∃ numeral, decimal? negative body = some numeral ∧
      Binary64.RoundsTo (Binary64.signed negative q) numeral.number := by
  obtain ⟨m, e, hshape, hdigits, -, rfl⟩ := h.shape (by decide) isDecimalDigit_ascii (by decide)
  obtain ⟨hm, he⟩ := decimal_iff.mpr hshape
  refine ⟨.scaled negative (decimalNumber (digitValues (m.whole ++ m.fraction))) 10
    (e.value - m.fraction.length), by simp only [decimal?, hm, he], ?_⟩
  rw [decimalNumber_eq hdigits]
  have hrounds := roundsTo_scaled negative (show 2 ≤ 10 by decide) (Nat.pow_one 10).symm
    (spelled 10 (m.whole ++ m.fraction)) m.fraction.length e.value
  rwa [Nat.cast_one, one_mul] at hrounds

theorem hexadecimal?_of_denotes {q : ℚ} (h : DigitsDenote 16 'p' 2 body q) :
    ∃ numeral, hexadecimal? negative body = some (.ok numeral) ∧
      Binary64.RoundsTo (Binary64.signed negative q) numeral.number := by
  obtain ⟨m, e, hshape, hdigits, hascii, rfl⟩ := h.shape (by decide) isHexDigit_ascii (by decide)
  have hcounted : e.digits.takeWhile isAsciiDigit = e.digits :=
    List.takeWhile_eq_self_iff.mpr (List.all_eq_true.mp hascii)
  refine ⟨scaledByTwo negative m e, ?_, ?_⟩
  · rw [hexadecimal?_of_shape hshape, hcounted]
    exact congrArg some (if_pos hascii)
  · rw [scaledByTwo, hexNumber_eq hdigits]
    exact roundsTo_scaled negative (le_refl 2) (show 16 = 2 ^ 4 by decide) _ _ _

theorem spellsWord_ascii {word : List Char} (hword : word ⊆ numeralLetters) {body : List Char}
    (hascii : ∀ c ∈ body, c.toNat < 128) :
    spellsWord word body = (body.map Char.toLower == word) := by
  induction body generalizing word with
  | nil => cases word <;> rfl
  | cons c body ih =>
    cases word with
    | nil => rfl
    | cons letter word =>
      obtain ⟨hletter, hrest⟩ := List.cons_subset.mp hword
      rw [spellsWord, spells_ascii hletter (hascii c List.mem_cons_self),
        ih hrest fun d hd => hascii d (List.mem_cons_of_mem c hd)]
      rfl

theorem names_subset {word : List Char} (hword : word ∈ names) : word ⊆ numeralLetters := by
  revert word
  decide

theorem ascii_of_map (h : body.map Char.toLower ∈ names) : ∀ c ∈ body, c.toNat < 128 :=
  fun _ hc =>
    toNat_lt_of_toLower (ascii_of_mem_letters (names_subset h (List.mem_map_of_mem hc)))

theorem named?_ascii (hascii : ∀ c ∈ body, c.toNat < 128) : named? negative body =
    if body.map Char.toLower == "inf".toList || body.map Char.toLower == "infinity".toList then
      some (.infinity negative)
    else if body.map Char.toLower == "nan".toList then some .notANumber
    else none := by
  have hspells : ∀ word ∈ names, spellsWord word body = (body.map Char.toLower == word) :=
    fun word hword => spellsWord_ascii (names_subset hword) hascii
  rw [named?, hspells "inf".toList (by decide), hspells "infinity".toList (by decide),
    hspells "nan".toList (by decide)]

theorem unsigned?_of_map {numeral : Numeral} (h : body.map Char.toLower ∈ names)
    (hnamed : named? negative body = some numeral) (token : List Char) :
    unsigned? token negative body = some (.ok numeral) := by
  have hascii := ascii_of_map h
  have hdecimal : decimal? negative body = none :=
    decimal?_of_named h (by rw [spellsWord_ascii (names_subset h) hascii, beq_self_eq_true])
  have hbody : ∀ x rest, spells 'x' x = true → body ≠ '0' :: x :: rest := by
    rintro x rest - rfl
    simp [names] at h
  have hall : (body.all fun c => c.toNat < 0x80) = true := by simpa using hascii
  rw [unsigned?_other hbody, hdecimal, hnamed]
  exact if_pos hall

theorem unsigned?_of_denotes {quantity : Quantity} (h : UnsignedDenotes negative body quantity)
    (token : List Char) : ∃ numeral, unsigned? token negative body = some (.ok numeral) ∧
      quantity.RoundsTo numeral.number := by
  cases h with
  | hexadecimal hx h =>
    obtain ⟨numeral, hread, hrounds⟩ := @hexadecimal?_of_denotes negative _ _ h
    refine ⟨numeral, ?_, .rational hrounds⟩
    rw [unsigned?_hexadecimal (spells_of_toLower (by decide) hx), hread]
  | decimal h =>
    obtain ⟨m, e, hshape, -⟩ := h.shape (by decide) isDecimalDigit_ascii (by decide)
    have hbody : ∀ x rest, spells 'x' x = true → body ≠ '0' :: x :: rest := by
      rintro x rest hx rfl
      exact not_decimal_of_mark hx rest m e hshape
    obtain ⟨numeral, hread, hrounds⟩ := @decimal?_of_denotes negative _ _ h
    refine ⟨numeral, ?_, .rational hrounds⟩
    rw [unsigned?_other hbody, hread]
  | infinity h =>
    have hname : body.map Char.toLower ∈ names := List.subset_def.mp (by decide) h
    refine ⟨.infinity negative, unsigned?_of_map hname ?_ token, .infinite negative⟩
    rw [named?_ascii (ascii_of_map hname)]
    exact if_pos (by simpa using h)
  | notANumber h =>
    have hname : body.map Char.toLower ∈ names := by
      rw [h]
      decide
    refine ⟨.notANumber, unsigned?_of_map hname ?_ token, .notANumber⟩
    rw [named?_ascii (ascii_of_map hname), h]
    rfl

theorem UnsignedShape.denotes (h : UnsignedShape body) (hascii : ∀ c ∈ body, c.toNat < 128) :
    ∃ quantity, UnsignedDenotes negative body quantity := by
  cases h with
  | @hexadecimal x body m e hx h =>
    have hx' : x.toLower = 'x' := by
      rwa [spells_ascii (by decide) (hascii x (by simp)), beq_iff_eq] at hx
    obtain ⟨q, hq⟩ := h.denotes (by decide) isHexDigit_ascii fun c hc => hascii c (by simp [hc])
    exact ⟨_, .hexadecimal hx' hq⟩
  | decimal h =>
    obtain ⟨q, hq⟩ := h.denotes (by decide) isDecimalDigit_ascii hascii
    exact ⟨_, .decimal hq⟩
  | @named word _ hword h =>
    rw [spellsWord_ascii (names_subset hword) hascii, beq_iff_eq] at h
    simp only [names, List.mem_cons, List.not_mem_nil, or_false] at hword
    rcases hword with rfl | rfl | rfl
    · exact ⟨_, .infinity (by rw [h]; decide)⟩
    · exact ⟨_, .infinity (by rw [h]; decide)⟩
    · exact ⟨_, .notANumber h⟩

end

theorem read?_of_denotes {token : List Char} {quantity : Quantity} (h : Denotes token quantity) :
    ∃ numeral, read? token = some (.ok numeral) ∧ quantity.RoundsTo numeral.number := by
  obtain ⟨negative, body, htoken, h⟩ := h
  obtain ⟨negative', body', htoken', hbody', hread⟩ := read?_eq token
  have hshape : UnsignedShape body := by
    obtain ⟨numeral, hnumeral, -⟩ := unsigned?_of_denotes h token
    by_contra hnone
    rw [((@unsigned?_spec negative token body).1).mpr hnone] at hnumeral
    cases hnumeral
  obtain ⟨rfl, rfl⟩ := sign_unique (htoken'.symm.trans htoken) hbody' hshape.ne_minus
  rw [hread]
  exact unsigned?_of_denotes h token

theorem HasShape.denotes {token : List Char} (h : HasShape token)
    (hascii : ∀ c ∈ token, c.toNat < 128) : ∃ quantity, Denotes token quantity := by
  obtain ⟨negative, body, rfl, h⟩ := h
  obtain ⟨quantity, hquantity⟩ := h.denotes fun c hc => hascii c (List.mem_append_right _ hc)
  exact ⟨quantity, negative, body, rfl, hquantity⟩

theorem Quantity.RoundsTo.ofNumber_eq {quantity : Quantity} {x y : Binary64}
    (hx : quantity.RoundsTo x) (hy : quantity.RoundsTo y) :
    Value.ofNumber x = Value.ofNumber y := by
  cases hx with
  | rational hx =>
    cases hy with
    | rational hy => exact hx.ofNumber_eq hy
  | infinite =>
    cases hy
    rfl
  | notANumber =>
    cases hy
    rfl

theorem ofNumeral?_of_denotes {token : List Char} {quantity : Quantity}
    (h : Denotes token quantity) {x : Binary64} (hx : quantity.RoundsTo x) :
    Value.ofNumeral? token = some (.ok (.ofNumber x)) := by
  obtain ⟨numeral, hread, hrounds⟩ := read?_of_denotes h
  simp only [Value.ofNumeral?, hread, hrounds.ofNumber_eq hx]

/-- A token of ASCII characters is a number exactly when it denotes a quantity. It is then the
value that the quantity is rounded to, and so is every other token that denotes the same. -/
theorem ascii_tokens_read_as_denoted {token : List Char} (hascii : ∀ c ∈ token, c.toNat < 128) :
    (Value.ofNumeral? token = none ↔ ¬∃ quantity, Denotes token quantity) ∧
    ∀ quantity, Denotes token quantity →
      (∃ x, quantity.RoundsTo x) ∧
      (∀ x, quantity.RoundsTo x → Value.ofNumeral? token = some (.ok (.ofNumber x))) ∧
      ∀ other, Denotes other quantity → Value.ofNumeral? other = Value.ofNumeral? token := by
  constructor
  · constructor
    · rintro hnone ⟨quantity, h⟩
      obtain ⟨numeral, hread, -⟩ := read?_of_denotes h
      simp [Value.ofNumeral?, hread] at hnone
    · intro hdenotes
      have hnone := (read?_spec token).1.mpr fun h => hdenotes (h.denotes hascii)
      rw [Value.ofNumeral?, hnone]
  · intro quantity h
    obtain ⟨numeral, -, hrounds⟩ := read?_of_denotes h
    refine ⟨⟨_, hrounds⟩, fun x hx => ofNumeral?_of_denotes h hx, fun other hother => ?_⟩
    rw [ofNumeral?_of_denotes h hrounds, ofNumeral?_of_denotes hother hrounds]

theorem ascii_tokens_read_as_denoted_threeQuarters :
    (∀ c ∈ "-0X1.80p-1".toList, c.toNat < 128) ∧
    Denotes "-0X1.80p-1".toList (.rational (-(3 / 4))) ∧
    Denotes "-075.E-2".toList (.rational (-(3 / 4))) ∧
    Value.ofNumeral? "-075.E-2".toList = Value.ofNumeral? "-0X1.80p-1".toList := by
  have hascii : ∀ c ∈ "-0X1.80p-1".toList, c.toNat < 128 := ascii_of_all (by decide)
  have htwo : DigitsDenote 16 'p' 2 "1.80p-1".toList (3 / 4) := by
    have hmantissa : MantissaShape (isDigitOf 16) ⟨['1'], ['8', '0'], "p-1".toList⟩
        "1.80p-1".toList :=
      .point (List.all_eq_true.mp (by decide)) (List.all_eq_true.mp (by decide)) (by decide)
    have hexponent : ExponentDenotes 'p' "p-1".toList (-spelled 10 ['1']) :=
      .minus (by decide) (List.all_eq_true.mp (by decide)) (by decide)
    have hdenotes : DigitsDenote 16 'p' 2 _ _ := .scaled hmantissa hexponent
    have hsignificand : spelled 16 ['1', '8', '0'] = 384 := by decide
    have hplace : spelled 10 ['1'] = 1 := by decide
    norm_num [hsignificand, hplace] at hdenotes
    exact hdenotes
  have hten : DigitsDenote 10 'e' 10 "075.E-2".toList (3 / 4) := by
    have hmantissa : MantissaShape (isDigitOf 10) ⟨['0', '7', '5'], [], "E-2".toList⟩
        "075.E-2".toList :=
      .point (List.all_eq_true.mp (by decide)) (List.all_eq_true.mp (by decide)) (by decide)
    have hexponent : ExponentDenotes 'e' "E-2".toList (-spelled 10 ['2']) :=
      .minus (by decide) (List.all_eq_true.mp (by decide)) (by decide)
    have hdenotes : DigitsDenote 10 'e' 10 _ _ := .scaled hmantissa hexponent
    have hsignificand : spelled 10 ['0', '7', '5'] = 75 := by decide
    have hplace : spelled 10 ['2'] = 2 := by decide
    norm_num [hsignificand, hplace] at hdenotes
    exact hdenotes
  have hhexadecimal : Denotes "-0X1.80p-1".toList (.rational (-(3 / 4))) :=
    ⟨true, _, rfl, .hexadecimal (by decide) htwo⟩
  have hdecimal : Denotes "-075.E-2".toList (.rational (-(3 / 4))) := ⟨true, _, rfl, .decimal hten⟩
  have hread := (ascii_tokens_read_as_denoted hascii).2 _ hhexadecimal
  exact ⟨hascii, hhexadecimal, hdecimal, hread.2.2 _ hdecimal⟩

end Lisplet.Numeral
