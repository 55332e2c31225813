import Lisplet.Proofs.NumeralText
import Mathlib.Data.List.TakeWhile

/-!
The shape of numerals. A numeral is digits with at most one point and perhaps an exponent, or the
name of a number that has no digits; a minus sign may stand before it. Reading tells the tokens
of this shape from all others, and refuses some of them: names spelled beyond ASCII, and
hexadecimal numerals whose exponent goes on beyond ASCII while the number is finite.
-/

set_option autoImplicit false

namespace Lisplet.Numeral

open Text

def isHexDigit (c : Char) : Bool := (hexValue? c).isSome

/-- Digits with at most one point among, before or after them, and what follows. -/
inductive MantissaShape (isDigit : Char → Bool) : Mantissa → List Char → Prop
  | whole {whole rest : List Char} (hall : ∀ c ∈ whole, isDigit c = true) (hne : whole ≠ []) :
    MantissaShape isDigit ⟨whole, [], rest⟩ (whole ++ rest)
  | point {whole fraction rest : List Char} (hwhole : ∀ c ∈ whole, isDigit c = true)
    (hfraction : ∀ c ∈ fraction, isDigit c = true) (hne : ¬(whole = [] ∧ fraction = [])) :
    MantissaShape isDigit ⟨whole, fraction, rest⟩ (whole ++ '.' :: (fraction ++ rest))

inductive ExponentShape (mark : Char) : Exponent → List Char → Prop
  | absent : ExponentShape mark ⟨false, []⟩ []
  | bare {c : Char} {digits : List Char} (hmark : spells mark c = true)
    (hall : ∀ d ∈ digits, isDecimalDigit d = true) (hne : digits ≠ []) :
    ExponentShape mark ⟨false, digits⟩ (c :: digits)
  | plus {c : Char} {digits : List Char} (hmark : spells mark c = true)
    (hall : ∀ d ∈ digits, isDecimalDigit d = true) (hne : digits ≠ []) :
    ExponentShape mark ⟨false, digits⟩ (c :: '+' :: digits)
  | minus {c : Char} {digits : List Char} (hmark : spells mark c = true)
    (hall : ∀ d ∈ digits, isDecimalDigit d = true) (hne : digits ≠ []) :
    ExponentShape mark ⟨true, digits⟩ (c :: '-' :: digits)

structure DigitsShape (isDigit : Char → Bool) (mark : Char) (m : Mantissa) (e : Exponent)
    (text : List Char) : Prop where
  mantissa : MantissaShape isDigit m text
  exponent : ExponentShape mark e m.rest

def names : List (List Char) := ["inf".toList, "infinity".toList, "nan".toList]

inductive UnsignedShape : List Char → Prop
  | hexadecimal {x : Char} {body : List Char} {m : Mantissa} {e : Exponent}
    (hx : spells 'x' x = true) (h : DigitsShape isHexDigit 'p' m e body) :
    UnsignedShape ('0' :: x :: body)
  | decimal {body : List Char} {m : Mantissa} {e : Exponent}
    (h : DigitsShape isDecimalDigit 'e' m e body) : UnsignedShape body
  | named {word body : List Char} (hword : word ∈ names) (h : spellsWord word body = true) :
    UnsignedShape body

/-- The tokens that have the shape of a numeral. -/
def HasShape (token : List Char) : Prop :=
  ∃ negative body, token = signChars negative ++ body ∧ UnsignedShape body

inductive RefusedUnsigned (negative : Bool) : List Char → Prop
  | hexadecimal {x : Char} {body : List Char} {m : Mantissa} {e : Exponent}
    (hx : spells 'x' x = true) (h : DigitsShape isHexDigit 'p' m e body)
    (hdigits : ∃ d ∈ e.digits, isAsciiDigit d = false)
    (hfinite : e.digits.takeWhile isAsciiDigit = [] ∨
      (scaledByTwo negative m ⟨e.negative, e.digits.takeWhile isAsciiDigit⟩).number ≠
        .infinite negative) :
    RefusedUnsigned negative ('0' :: x :: body)
  | named {word body : List Char} (hword : word ∈ names) (h : spellsWord word body = true)
    (hletter : ∃ c ∈ body, 0x80 ≤ c.toNat) : RefusedUnsigned negative body

/-- The numerals that are refused. -/
def Refused (token : List Char) : Prop :=
  ∃ negative body, token = signChars negative ++ body ∧ RefusedUnsigned negative body

section

variable {isDigit : Char → Bool} {mark : Char}

theorem mantissa?_sound {cs : List Char} {m : Mantissa} (h : mantissa? isDigit cs = some m) :
    MantissaShape isDigit m cs := by
  have hall : ∀ text : List Char, ∀ c ∈ text.takeWhile isDigit, isDigit c = true :=
    fun _ _ hc => List.mem_takeWhile_imp hc
  have hsplit : cs.takeWhile isDigit ++ cs.dropWhile isDigit = cs :=
    List.takeWhile_append_dropWhile
  simp only [mantissa?, List.span_eq_takeWhile_dropWhile] at h
  rw [← hsplit]
  generalize cs.dropWhile isDigit = rest at h
  generalize hwhole : cs.takeWhile isDigit = whole at h
  have hdigits := hwhole ▸ hall cs
  split at h
  · next tail =>
    split at h
    · cases h
    · next hne =>
      cases h
      have hshape := @MantissaShape.point isDigit whole _ (tail.dropWhile isDigit) hdigits
        (hall tail) (by simpa using hne)
      rwa [List.takeWhile_append_dropWhile] at hshape
  · split at h
    · cases h
    · next hne =>
      cases h
      exact .whole hdigits (by simpa using hne)

theorem mantissa?_eq_none {c : Char} (hdigit : isDigit c = false) (hpoint : c ≠ '.')
    (rest : List Char) : mantissa? isDigit (c :: rest) = none := by
  have hspan : (c :: rest).span isDigit = ([], c :: rest) :=
    @span_run isDigit [] _ (by simp) (by simp [hdigit])
  simp only [mantissa?, hspan]
  split
  · next heq => exact absurd (List.cons.inj heq).1 hpoint
  · rfl

theorem mantissa?_complete {cs : List Char} {m : Mantissa} (hpoint : isDigit '.' = false)
    (h : MantissaShape isDigit m cs)
    (hrest : ∀ c ∈ m.rest.head?, isDigit c = false ∧ c ≠ '.') :
    mantissa? isDigit cs = some m := by
  cases h with
  | @whole whole rest hall hne =>
    have hspan := span_run hall fun c hc => (hrest c hc).1
    simp only [mantissa?, hspan]
    split
    · next tail => exact absurd rfl (hrest '.' rfl).2
    · simp [hne]
  | @point whole fraction rest hwhole hfraction hne =>
    have hspan : (whole ++ '.' :: (fraction ++ rest)).span isDigit =
        (whole, '.' :: (fraction ++ rest)) := span_run hwhole (by simp [hpoint])
    have hspan' := span_run hfraction fun c hc => (hrest c hc).1
    simp only [mantissa?, hspan, hspan']
    simp [hne]

def signed? (negative : Bool) (digits : List Char) : Option Exponent :=
  if !digits.isEmpty && digits.all isDecimalDigit then some ⟨negative, digits⟩ else none

theorem signed?_eq_some_iff {negative : Bool} {digits : List Char} {e : Exponent} :
    signed? negative digits = some e ↔
      (digits ≠ [] ∧ ∀ d ∈ digits, isDecimalDigit d = true) ∧ ⟨negative, digits⟩ = e := by
  simp [signed?]

theorem exponent?_bare {c : Char} (hmark : spells mark c = true) {rest : List Char}
    (hplus : ∀ digits, rest ≠ '+' :: digits) (hminus : ∀ digits, rest ≠ '-' :: digits) :
    exponent? mark (c :: rest) = signed? false rest := by
  simp only [exponent?, hmark, ↓reduceIte]
  rfl

theorem exponent?_plus {c : Char} (hmark : spells mark c = true) (digits : List Char) :
    exponent? mark (c :: '+' :: digits) = signed? false digits := by
  simp only [exponent?, hmark, ↓reduceIte]
  rfl

theorem exponent?_minus {c : Char} (hmark : spells mark c = true) (digits : List Char) :
    exponent? mark (c :: '-' :: digits) = signed? true digits := by
  simp only [exponent?, hmark, ↓reduceIte]
  rfl

theorem exponent?_eq_some_iff {cs : List Char} {e : Exponent} :
    exponent? mark cs = some e ↔ ExponentShape mark e cs := by
  constructor
  · intro h
    cases cs with
    | nil =>
      cases h
      exact .absent
    | cons c rest =>
      by_cases hmark : spells mark c = true
      · by_cases hplus : ∃ digits, rest = '+' :: digits
        · obtain ⟨digits, rfl⟩ := hplus
          rw [exponent?_plus hmark, signed?_eq_some_iff] at h
          obtain ⟨⟨hne, hall⟩, rfl⟩ := h
          exact .plus hmark hall hne
        by_cases hminus : ∃ digits, rest = '-' :: digits
        · obtain ⟨digits, rfl⟩ := hminus
          rw [exponent?_minus hmark, signed?_eq_some_iff] at h
          obtain ⟨⟨hne, hall⟩, rfl⟩ := h
          exact .minus hmark hall hne
        rw [exponent?_bare hmark (not_exists.mp hplus) (not_exists.mp hminus),
          signed?_eq_some_iff] at h
        obtain ⟨⟨hne, hall⟩, rfl⟩ := h
        exact .bare hmark hall hne
      · simp [exponent?, hmark] at h
  · intro h
    cases h with
    | absent => rfl
    | @bare c digits hmark hall hne =>
      -- A sign is no digit.
      have hsign : ∀ sign rest, isDecimalDigit sign = false → digits ≠ sign :: rest := by
        rintro sign rest hnot rfl
        rw [hall sign (by simp)] at hnot
        cases hnot
      rw [exponent?_bare hmark (fun rest => hsign _ rest (by decide))
        (fun rest => hsign _ rest (by decide)), signed?_eq_some_iff]
      exact ⟨⟨hne, hall⟩, rfl⟩
    | plus hmark hall hne =>
      rw [exponent?_plus hmark, signed?_eq_some_iff]
      exact ⟨⟨hne, hall⟩, rfl⟩
    | minus hmark hall hne =>
      rw [exponent?_minus hmark, signed?_eq_some_iff]
      exact ⟨⟨hne, hall⟩, rfl⟩

theorem ExponentShape.spells_head {cs : List Char} {e : Exponent} (h : ExponentShape mark e cs) :
    ∀ c ∈ cs.head?, spells mark c = true := by
  cases h <;> simp [*]

theorem digits_iff (hpoint : isDigit '.' = false)
    (hmark : ∀ c, spells mark c = true → isDigit c = false ∧ c ≠ '.') {cs : List Char}
    {m : Mantissa} {e : Exponent} :
    mantissa? isDigit cs = some m ∧ exponent? mark m.rest = some e ↔
      DigitsShape isDigit mark m e cs := by
  rw [exponent?_eq_some_iff]
  constructor
  · rintro ⟨hm, he⟩
    exact ⟨mantissa?_sound hm, he⟩
  · rintro ⟨hm, he⟩
    exact ⟨mantissa?_complete hpoint hm fun c hc => hmark c (he.spells_head c hc), he⟩

end

theorem spells_plain {letter c : Char} (h : spells letter c = true) (hletter : letter ≠ 'i') :
    c = letter ∨ c = letter.toUpper := by
  simpa [spells, hletter] using h

theorem decimal_iff {cs : List Char} {m : Mantissa} {e : Exponent} :
    mantissa? isDecimalDigit cs = some m ∧ exponent? 'e' m.rest = some e ↔
      DigitsShape isDecimalDigit 'e' m e cs := by
  refine digits_iff isDecimalDigit_point fun c hc => ?_
  rcases spells_plain hc (by decide) with rfl | rfl <;> decide

theorem hexadecimal_iff {cs : List Char} {m : Mantissa} {e : Exponent} :
    mantissa? isHexDigit cs = some m ∧ exponent? 'p' m.rest = some e ↔
      DigitsShape isHexDigit 'p' m e cs := by
  refine digits_iff (by decide) fun c hc => ?_
  rcases spells_plain hc (by decide) with rfl | rfl <;> decide

theorem decimal?_isSome_iff (negative : Bool) (body : List Char) :
    (decimal? negative body).isSome = true ↔ ∃ m e, DigitsShape isDecimalDigit 'e' m e body := by
  simp only [← decimal_iff]
  unfold decimal?
  cases mantissa? isDecimalDigit body with
  | none => simp
  | some m => cases h : exponent? 'e' m.rest <;> simp [h]

section

variable {negative : Bool}

/-- Reading hexadecimal digits fails where the digits of the exponent leave ASCII, unless those
before already make the number infinite. -/
theorem hexadecimal?_of_shape {body : List Char} {m : Mantissa} {e : Exponent}
    (h : DigitsShape isHexDigit 'p' m e body) :
    hexadecimal? negative body =
      let counted := e.digits.takeWhile isAsciiDigit
      let numeral := scaledByTwo negative m ⟨e.negative, counted⟩
      some (if e.digits.all isAsciiDigit then .ok numeral
        else if !counted.isEmpty && numeral.number == .infinite negative then
          .ok (.infinity negative)
        else .error .notHexadecimal) := by
  obtain ⟨hm, he⟩ := hexadecimal_iff.mpr h
  unfold isHexDigit at hm
  simp only [hexadecimal?, hm, he]
  split
  · rfl
  split <;> rfl

theorem hexadecimal?_eq_none_iff {body : List Char} :
    hexadecimal? negative body = none ↔ ¬∃ m e, DigitsShape isHexDigit 'p' m e body := by
  constructor
  · rintro h ⟨m, e, hshape⟩
    rw [hexadecimal?_of_shape hshape] at h
    cases h
  · intro h
    simp only [← hexadecimal_iff, not_exists, not_and] at h
    unfold isHexDigit at h
    unfold hexadecimal?
    split
    · rfl
    · next m hm =>
      split
      · rfl
      · next e he => exact absurd he (h m e hm)

theorem hexadecimal?_error_iff {body : List Char} :
    (∃ fault, hexadecimal? negative body = some (.error fault)) ↔
      ∃ m e, DigitsShape isHexDigit 'p' m e body ∧
        (∃ d ∈ e.digits, isAsciiDigit d = false) ∧
        (e.digits.takeWhile isAsciiDigit = [] ∨
          (scaledByTwo negative m ⟨e.negative, e.digits.takeWhile isAsciiDigit⟩).number ≠
            .infinite negative) := by
  constructor
  · rintro ⟨fault, h⟩
    have hsome : ∃ m e, DigitsShape isHexDigit 'p' m e body := by
      by_contra hnone
      rw [hexadecimal?_eq_none_iff.mpr hnone] at h
      cases h
    obtain ⟨m, e, hshape⟩ := hsome
    rw [hexadecimal?_of_shape hshape] at h
    refine ⟨m, e, hshape, ?_⟩
    dsimp only at h
    split at h
    · cases h
    · next hdigits =>
      split at h
      · cases h
      · next hfinite =>
        refine ⟨by simpa using hdigits, ?_⟩
        by_cases hnil : e.digits.takeWhile isAsciiDigit = []
        · exact .inl hnil
        · refine .inr fun hnumber => hfinite ?_
          rw [hnumber]
          simpa using hnil
  · rintro ⟨m, e, hshape, ⟨d, hd, hascii⟩, hfinite⟩
    have hread := @hexadecimal?_of_shape negative body m e hshape
    dsimp only at hread
    have hdigits : ¬e.digits.all isAsciiDigit = true := by
      simp only [List.all_eq_true, not_forall]
      exact ⟨d, hd, by simp [hascii]⟩
    have hcounted : ¬(!(e.digits.takeWhile isAsciiDigit).isEmpty &&
        (scaledByTwo negative m ⟨e.negative, e.digits.takeWhile isAsciiDigit⟩).number ==
          .infinite negative) = true := by
      rcases hfinite with hnil | hnumber
      · simp [hnil]
      · simp [hnumber]
    rw [if_neg hdigits, if_neg hcounted] at hread
    exact ⟨.notHexadecimal, hread⟩

theorem head_of_spellsWord {word body : List Char} (hword : word ∈ names)
    (h : spellsWord word body = true) :
    ∃ c rest, body = c :: rest ∧ (spells 'i' c = true ∨ spells 'n' c = true) := by
  simp only [names, String.reduceToList, List.mem_cons, List.not_mem_nil, or_false] at hword
  cases body with
  | nil => rcases hword with rfl | rfl | rfl <;> cases h
  | cons c rest =>
    refine ⟨c, rest, rfl, ?_⟩
    rcases hword with rfl | rfl | rfl <;> simp only [spellsWord, Bool.and_eq_true] at h <;>
      simp [h.1]

theorem not_digit_of_letter {c : Char} (h : spells 'i' c = true ∨ spells 'n' c = true) :
    isDecimalDigit c = false ∧ c ≠ '.' ∧ c ≠ '0' ∧ c ≠ '-' := by
  have hc : c = 'i' ∨ c = 'I' ∨ c = 'İ' ∨ c = 'ı' ∨ c = 'n' ∨ c = 'N' := by
    simpa [spells, or_assoc] using h
  rcases hc with rfl | rfl | rfl | rfl | rfl | rfl <;> decide

theorem decimal?_of_named {word body : List Char} (hword : word ∈ names)
    (h : spellsWord word body = true) : decimal? negative body = none := by
  obtain ⟨c, rest, rfl, hc⟩ := head_of_spellsWord hword h
  obtain ⟨hdigit, hpoint, -, -⟩ := not_digit_of_letter hc
  rw [decimal?, mantissa?_eq_none hdigit hpoint]

theorem named?_isSome_iff (body : List Char) :
    (named? negative body).isSome = true ↔ ∃ word ∈ names, spellsWord word body = true := by
  have hnames : (∃ word ∈ names, spellsWord word body = true) ↔
      (spellsWord "inf".toList body || spellsWord "infinity".toList body) = true ∨
        spellsWord "nan".toList body = true := by
    simp [names, or_assoc]
  rw [hnames, named?]
  split
  · next h => exact ⟨fun _ => .inl h, fun _ => rfl⟩
  · next h =>
    rw [or_iff_right h]
    split
    · next hnan => exact ⟨fun _ => hnan, fun _ => rfl⟩
    · next hnan => exact ⟨fun hsome => absurd hsome Bool.false_ne_true, fun hn => absurd hn hnan⟩

theorem unsigned?_hexadecimal {x : Char} (hx : spells 'x' x = true) (token rest : List Char) :
    unsigned? token negative ('0' :: x :: rest) = hexadecimal? negative rest := by
  rcases spells_plain hx (by decide) with rfl | rfl <;> rfl

theorem unsigned?_other {body : List Char}
    (hbody : ∀ x rest, spells 'x' x = true → body ≠ '0' :: x :: rest) (token : List Char) :
    unsigned? token negative body =
      match decimal? negative body with
      | some numeral => some (.ok numeral)
      | none =>
        match named? negative body with
        | some numeral =>
          if body.all fun c => c.toNat < 0x80 then some (.ok numeral)
          else some (.error (.notDecimal (String.ofList token)))
        | none => none := by
  unfold unsigned?
  split
  · next rest => exact absurd rfl (hbody 'x' rest (by decide))
  · next rest => exact absurd rfl (hbody 'X' rest (by decide))
  · rfl

theorem not_decimal_of_mark {x : Char} (hx : spells 'x' x = true) (rest : List Char)
    (m : Mantissa) (e : Exponent) : ¬DigitsShape isDecimalDigit 'e' m e ('0' :: x :: rest) := by
  intro h
  have hletter : isDecimalDigit x = false ∧ x ≠ '.' ∧ spells 'e' x = false := by
    rcases spells_plain hx (by decide) with rfl | rfl <;> decide
  obtain ⟨hdigit, hpoint, hmark⟩ := hletter
  have hzero : isDecimalDigit '0' = true := by decide
  have hspan : ('0' :: x :: rest).span isDecimalDigit = (['0'], x :: rest) :=
    @span_run _ ['0'] _ (by simp [hzero]) (by simp [hdigit])
  obtain ⟨hm, he⟩ := decimal_iff.mpr h
  have hm' : mantissa? isDecimalDigit ('0' :: x :: rest) = some ⟨['0'], [], x :: rest⟩ := by
    simp only [mantissa?, hspan]
    split
    · next heq => exact absurd (List.cons.inj heq).1 hpoint
    · rfl
  cases hm.symm.trans hm'
  simp [exponent?, hmark] at he

theorem unsignedShape_hexadecimal_iff {x : Char} (hx : spells 'x' x = true)
    (rest : List Char) :
    UnsignedShape ('0' :: x :: rest) ↔ ∃ m e, DigitsShape isHexDigit 'p' m e rest := by
  constructor
  · intro h
    generalize hbody : '0' :: x :: rest = body at h
    cases h with
    | hexadecimal _ hshape =>
      cases hbody
      exact ⟨_, _, hshape⟩
    | decimal hshape => exact absurd (hbody ▸ hshape) (not_decimal_of_mark hx rest _ _)
    | named hword hspells =>
      obtain ⟨c, tail, rfl, hc⟩ := head_of_spellsWord hword hspells
      exact absurd (List.cons.inj hbody).1.symm (not_digit_of_letter hc).2.2.1
  · rintro ⟨m, e, hshape⟩
    exact .hexadecimal hx hshape

theorem refusedUnsigned_hexadecimal_iff {x : Char} (hx : spells 'x' x = true)
    (rest : List Char) :
    RefusedUnsigned negative ('0' :: x :: rest) ↔
      ∃ fault, hexadecimal? negative rest = some (.error fault) := by
  rw [hexadecimal?_error_iff]
  constructor
  · intro h
    generalize hbody : '0' :: x :: rest = body at h
    cases h with
    | hexadecimal _ hshape hdigits hfinite =>
      cases hbody
      exact ⟨_, _, hshape, hdigits, hfinite⟩
    | named hword hspells =>
      obtain ⟨c, tail, rfl, hc⟩ := head_of_spellsWord hword hspells
      exact absurd (List.cons.inj hbody).1.symm (not_digit_of_letter hc).2.2.1
  · rintro ⟨m, e, hshape, hdigits, hfinite⟩
    exact .hexadecimal hx hshape hdigits hfinite

theorem unsigned?_spec_other {body : List Char}
    (hbody : ∀ x rest, spells 'x' x = true → body ≠ '0' :: x :: rest) (token : List Char) :
    (unsigned? token negative body = none ↔ ¬UnsignedShape body) ∧
    ((∃ fault, unsigned? token negative body = some (.error fault)) ↔
      RefusedUnsigned negative body) := by
  have hshape : UnsignedShape body ↔
      (decimal? negative body).isSome = true ∨ (named? negative body).isSome = true := by
    rw [decimal?_isSome_iff, named?_isSome_iff]
    constructor
    · intro h
      cases h with
      | hexadecimal hx => exact absurd rfl (hbody _ _ hx)
      | decimal h => exact .inl ⟨_, _, h⟩
      | named hword h => exact .inr ⟨_, hword, h⟩
    · rintro (⟨m, e, h⟩ | ⟨word, hword, h⟩)
      · exact .decimal h
      · exact .named hword h
  have hrefused : RefusedUnsigned negative body ↔
      (named? negative body).isSome = true ∧ ∃ c ∈ body, 0x80 ≤ c.toNat := by
    rw [named?_isSome_iff]
    constructor
    · intro h
      cases h with
      | hexadecimal hx => exact absurd rfl (hbody _ _ hx)
      | named hword h hletter => exact ⟨⟨_, hword, h⟩, hletter⟩
    · rintro ⟨⟨word, hword, h⟩, hletter⟩
      exact .named hword h hletter
  rw [unsigned?_other hbody, hshape, hrefused]
  cases hnamed : named? negative body with
  | none => cases decimal? negative body <;> simp
  | some numeral =>
    obtain ⟨word, hword, h⟩ := (named?_isSome_iff body).mp (by rw [hnamed]; rfl)
    rw [decimal?_of_named hword h]
    dsimp only
    by_cases hascii : (body.all fun c => c.toNat < 0x80) = true
    · have hnone : ¬∃ c ∈ body, 0x80 ≤ c.toNat := by simpa using hascii
      rw [if_pos hascii]
      exact ⟨by simp, fun ⟨_, h⟩ => (nomatch h), fun h => absurd h.2 hnone⟩
    · have hletter : ∃ c ∈ body, 0x80 ≤ c.toNat := by simpa using hascii
      rw [if_neg hascii]
      exact ⟨by simp, fun _ => ⟨rfl, hletter⟩, fun _ => ⟨_, rfl⟩⟩

theorem unsigned?_spec (token body : List Char) :
    (unsigned? token negative body = none ↔ ¬UnsignedShape body) ∧
    ((∃ fault, unsigned? token negative body = some (.error fault)) ↔
      RefusedUnsigned negative body) := by
  by_cases hhex : ∃ x rest, spells 'x' x = true ∧ body = '0' :: x :: rest
  · obtain ⟨x, rest, hx, rfl⟩ := hhex
    rw [unsigned?_hexadecimal hx, unsignedShape_hexadecimal_iff hx,
      refusedUnsigned_hexadecimal_iff hx]
    exact ⟨hexadecimal?_eq_none_iff, Iff.rfl⟩
  · exact unsigned?_spec_other (fun x rest hx heq => hhex ⟨x, rest, hx, heq⟩) token

end

theorem RefusedUnsigned.shape {negative : Bool} {body : List Char}
    (h : RefusedUnsigned negative body) : UnsignedShape body := by
  cases h with
  | hexadecimal hx h => exact .hexadecimal hx h
  | named hword h => exact .named hword h

theorem UnsignedShape.ne_minus {body : List Char} (h : UnsignedShape body) (rest : List Char) :
    body ≠ '-' :: rest := by
  rintro rfl
  generalize hbody : '-' :: rest = body at h
  cases h with
  | hexadecimal => cases hbody
  | decimal h =>
    obtain ⟨hm, -⟩ := decimal_iff.mpr h
    rw [← hbody, mantissa?_eq_none (by decide) (by decide)] at hm
    cases hm
  | named hword h =>
    obtain ⟨c, tail, rfl, hc⟩ := head_of_spellsWord hword h
    exact absurd (List.cons.inj hbody).1.symm (not_digit_of_letter hc).2.2.2

theorem read?_eq (token : List Char) :
    ∃ negative body, token = signChars negative ++ body ∧
      (negative = false → ∀ rest, body ≠ '-' :: rest) ∧
      read? token = unsigned? token negative body := by
  cases token with
  | nil => exact ⟨false, [], rfl, by simp, rfl⟩
  | cons c rest =>
    by_cases hc : c = '-'
    · subst hc
      exact ⟨true, rest, rfl, by simp, read?_minus rest⟩
    · exact ⟨false, c :: rest, rfl, by simp [hc], read?_plain hc rest⟩

theorem sign_unique {negative negative' : Bool} {body body' : List Char}
    (h : signChars negative ++ body = signChars negative' ++ body')
    (hbody : negative = false → ∀ rest, body ≠ '-' :: rest)
    (hbody' : ∀ rest, body' ≠ '-' :: rest) : negative = negative' ∧ body = body' := by
  cases negative with
  | false =>
    cases negative' with
    | false => exact ⟨rfl, h⟩
    | true => exact absurd h (hbody rfl body')
  | true =>
    cases negative' with
    | false => exact absurd h.symm (hbody' body)
    | true => exact ⟨rfl, (List.cons.inj h).2⟩

/-- A token is read as a number or refused if it has the shape of a numeral; otherwise it is none.
It is refused in the two ways that are listed. -/
theorem read?_spec (token : List Char) :
    (read? token = none ↔ ¬HasShape token) ∧
    ((∃ fault, read? token = some (.error fault)) ↔ Refused token) := by
  obtain ⟨negative, body, htoken, hbody, hread⟩ := read?_eq token
  have hshape : HasShape token ↔ UnsignedShape body := by
    constructor
    · rintro ⟨negative', body', htoken', h⟩
      obtain ⟨-, rfl⟩ := sign_unique (htoken.symm.trans htoken') hbody h.ne_minus
      exact h
    · exact fun h => ⟨negative, body, htoken, h⟩
  have hrefused : Refused token ↔ RefusedUnsigned negative body := by
    constructor
    · rintro ⟨negative', body', htoken', h⟩
      obtain ⟨rfl, rfl⟩ := sign_unique (htoken.symm.trans htoken') hbody h.shape.ne_minus
      exact h
    · exact fun h => ⟨negative, body, htoken, h⟩
  rw [hread, hshape, hrefused]
  exact unsigned?_spec token body

end Lisplet.Numeral
