import Lisplet.Proofs.Completion
import Lisplet.Proofs.NumeralShape

/-!
What parsing a text can give: the value of its first expression, one of four sentinels, or a
failure. It fails only where reading comes to a token that has the shape of a numeral and is
refused.
-/

set_option autoImplicit false

namespace Lisplet

open Numeral

def Sentinel.malformed : List Sentinel :=
  [.unterminatedString, .unexpectedCloseParen, .unterminatedList, .unexpectedEnd]

theorem Value.ofNumeral?_spec (token : List Char) :
    (ofNumeral? token = none ↔ ¬HasShape token) ∧
    ((∃ fault, ofNumeral? token = some (.error fault)) ↔ Refused token) := by
  obtain ⟨hnone, hrefused⟩ := read?_spec token
  rw [← hnone, ← hrefused]
  unfold ofNumeral?
  rcases read? token with _ | result
  · simp
  · cases result <;> simp

namespace Reader

theorem tokenValue_error_iff (c : Char) (tail : List Char) :
    (∃ fault, tokenValue c tail = .error fault) ↔
      startsNumeral c = true ∧ Refused (c :: tail) := by
  rw [← (Value.ofNumeral?_spec (c :: tail)).2]
  unfold tokenValue
  by_cases hc : startsNumeral c = true
  · simp only [hc, ↓reduceIte, true_and]
    rcases Value.ofNumeral? (c :: tail) with _ | result <;> simp
  · simp [hc]

theorem Takes.of_numeral {pending : List Pending} {offset : Nat} {text : List Char} {s : Step}
    {fault : NumeralFault} {place : Cursor} (h : Takes pending offset text s)
    (hstep : s = .stop ⟨.error (.numeral fault), place⟩) :
    ∃ c rest, text = c :: rest ∧ tokenValue c (tokenTail rest) = .error fault := by
  cases h with
  | ended =>
    rcases missing_eq pending offset with hmissing | ⟨start, hmissing, -⟩ <;>
      simp [hmissing] at hstep
  | closes => exact absurd hstep (supply_ne_error _ _ _ _ _)
  | string => exact absurd hstep (supply_ne_error _ _ _ _ _)
  | @token c tail rest hall hstring hquote hrest =>
    have hinner : ∀ d ∈ tail, Text.isDelimiter d = false :=
      fun d hd => hall d (List.mem_cons_of_mem c hd)
    have htail := (tokenTail_of_delimited hinner hrest).1
    refine ⟨c, tail ++ rest, rfl, htail.symm ▸ ?_⟩
    cases hvalue : tokenValue c tail with
    | ok v =>
      rw [hvalue] at hstep
      exact absurd hstep (supply_ne_error _ _ _ _ _)
    | error other =>
      rw [hvalue] at hstep
      cases hstep
      rfl
  | _ => cases hstep

theorem step_startsNumeral {cursor : Cursor} {c : Char} {rest : List Char}
    (h : cursor.skipBlanks.rest = c :: rest) (hc : startsNumeral c = true)
    (pending : List Pending) :
    step pending cursor = supplyAtom pending (readToken cursor.skipBlanks.offset c rest) := by
  have hother : c ≠ '(' ∧ c ≠ '\'' ∧ c ≠ ')' ∧ c ≠ '"' := by
    refine ⟨?_, ?_, ?_, ?_⟩ <;> rintro rfl <;> exact absurd hc (by decide)
  obtain ⟨hopen, hquote, hclose, hstring⟩ := hother
  rw [step]
  simp [h, take, readAtom, hopen, hquote, hclose, hstring]

/-- Reading the first expression of a text comes to this token, which starts as numerals do. -/
def MeetsNumeral (text token : List Char) : Prop :=
  ∃ pending cursor c rest, Leads [] (Cursor.ofText text) pending cursor ∧
    cursor.skipBlanks.rest = c :: rest ∧ startsNumeral c = true ∧ token = c :: tokenTail rest

theorem numeral_fault_iff (text : List Char) :
    (∃ fault, (Cursor.ofText text).read.result = .error (.numeral fault)) ↔
      ∃ token, MeetsNumeral text token ∧ Refused token := by
  constructor
  · rintro ⟨fault, hresult⟩
    obtain ⟨last, place, hleads, hstop⟩ := readFrom_leads [] (Cursor.ofText text)
    have hstep : step last place =
        .stop ⟨.error (.numeral fault), (Cursor.ofText text).read.cursor⟩ := by
      rw [hstop, ← hresult]
      rfl
    obtain ⟨c, rest, hrest, hvalue⟩ := (takes_step last place).of_numeral hstep
    obtain ⟨hc, hrefused⟩ := (tokenValue_error_iff c (tokenTail rest)).mp ⟨fault, hvalue⟩
    exact ⟨_, ⟨last, place, c, rest, hleads, hrest, hc, rfl⟩, hrefused⟩
  · rintro ⟨token, ⟨pending, cursor, c, rest, hleads, hrest, hc, rfl⟩, hrefused⟩
    obtain ⟨fault, hvalue⟩ := (tokenValue_error_iff c (tokenTail rest)).mpr ⟨hc, hrefused⟩
    have hstep := step_startsNumeral hrest hc pending
    rw [readToken, hvalue] at hstep
    refine ⟨fault, ?_⟩
    rw [Cursor.read, hleads.readFrom_eq, readFrom_of_stop hstep]

theorem Halted.mem_malformed {pending : List Pending} {fault : Option ReadFault} {place : Cursor}
    {sentinel : Sentinel} {position : Nat} (h : Halted pending fault place)
    (hfault : fault = some (.malformed sentinel position)) : sentinel ∈ Sentinel.malformed := by
  cases h with
  | missing pending offset =>
    rcases missing_eq pending offset with hmissing | ⟨start, hmissing, -⟩ <;>
      (rw [hmissing] at hfault; cases hfault; decide)
  | string => cases hfault; decide
  | close => cases hfault; decide
  | _ => cases hfault

end Reader

open Reader

/-- A token is a number unless it lacks the shape of a numeral or is refused. Parsing gives what
is read or the sentinel of what is malformed, and fails where reading comes to a numeral that is
refused. -/
theorem parse_outcomes (text : List Char) :
    (∀ token, (Value.ofNumeral? token = none ↔ ¬HasShape token) ∧
      ((∃ fault, Value.ofNumeral? token = some (.error fault)) ↔ Refused token)) ∧
    ((∃ v after, (Cursor.ofText text).read = ⟨.ok v, after⟩ ∧ Value.parse text = .ok v) ∨
      (∃ sentinel ∈ Sentinel.malformed, ∃ position place,
        (Cursor.ofText text).read = ⟨.error (.malformed sentinel position), place⟩ ∧
        Value.parse text = .ok sentinel.value) ∨
      ∃ fault, Value.parse text = .error fault) ∧
    ((∃ v, Value.parse text = .ok v) ↔ ¬∃ token, MeetsNumeral text token ∧ Refused token) := by
  have hfault := numeral_fault_iff text
  unfold Value.parse
  rcases hread : (Cursor.ofText text).read with ⟨result, place⟩
  rw [hread] at hfault
  refine ⟨Value.ofNumeral?_spec, ?_⟩
  rw [← hfault]
  cases result with
  | ok v => exact ⟨.inl ⟨v, place, rfl, rfl⟩, by simp⟩
  | error fault =>
    cases fault with
    | malformed sentinel position =>
      obtain ⟨last, hhalted⟩ := halted_of_readFrom hread
      have hmem := hhalted.mem_malformed rfl
      exact ⟨.inr (.inl ⟨sentinel, hmem, position, place, rfl, rfl⟩), by simp⟩
    | numeral fault => exact ⟨.inr (.inr ⟨fault, rfl⟩), by simp⟩

/-- A name with a dotless i, and an exponent with a digit beyond ASCII, have the shape of numerals
and are refused. -/
theorem parse_fails :
    (HasShape "-ınf".toList ∧ Value.parse "-ınf".toList = .error (.notDecimal "-ınf")) ∧
    HasShape "0x1p٣".toList ∧ Value.parse "0x1p٣".toList = .error .notHexadecimal := by
  have hname : HasShape "-ınf".toList :=
    ⟨true, "ınf".toList, rfl, @UnsignedShape.named "inf".toList _ (by decide) (by decide)⟩
  have hdigits : DigitsShape isHexDigit 'p' ⟨['1'], [], ['p', '٣']⟩ ⟨false, ['٣']⟩
      "1p٣".toList := hexadecimal_iff.mp ⟨by rfl, by rfl⟩
  refine ⟨⟨hname, by cbv⟩, ⟨false, "0x1p٣".toList, rfl, ?_⟩, by cbv⟩
  exact UnsignedShape.hexadecimal (by decide) hdigits

end Lisplet
