import Lisplet.Proofs.PrintedAgain

/-!
Reading and printing over and over. A text is read and what was read is printed. Doing this to the
text that it gives changes that text at most once more: where the places of a `double` say an
integer, it is read as a `long` the next time and loses its places. Every other `double` that is
read from its places has these places again.
-/

set_option autoImplicit false

namespace Lisplet

namespace Value

theorem sound_of_parse {p : Value → Prop} (rule : AtomRule p) {text : List Char} {v : Value}
    (h : parse text = .ok v) : v.Sound p 0 := by
  unfold parse at h
  rcases hread : (Cursor.ofText text).read with ⟨result, after⟩
  rw [hread] at h
  cases result with
  | ok w =>
    cases h
    exact Reader.sound_readFrom rule (by simp) hread
  | error fault =>
    cases fault with
    | malformed sentinel position =>
      cases h
      exact rule.sound_sentinel sentinel
    | numeral fault => cases h

theorem ofNumber_of_parse {text : List Char} {v : Value} (h : parse text = .ok v) {n : Int}
    (hn : (long n).OccursIn v) : ofNumber (.ofInt n) = .long n :=
  ((sound_of_parse atomRule_isCanonical h).canonical_of_occursIn hn).form _ rfl

theorem parse_print_of_parse {text : List Char} {v : Value} (h : parse text = .ok v) :
    parse v.print.toList = .ok v.readBack := by
  have hreadable := (sound_of_parse atomRule_isReadable h).isReadable
  rw [toList_print, parse_written hreadable]

theorem print_readBack_of_parse {text : List Char} {v : Value} (h : parse text = .ok v)
    (hdouble : ∀ x, (double x).OccursIn v → ¬PrintsLong x) : v.readBack.print = v.print := by
  obtain ⟨hsame, -⟩ := written_readBack (fun n hn => ofNumber_of_parse h hn) hdouble
  rw [← String.toList_inj, toList_print, toList_print, hsame]

theorem printsLong_iff {x : Binary64} :
    PrintsLong x ↔ ∃ numeral n, Numeral.read? (x.fixedText 6).toList = some (.ok numeral) ∧
      numeral.number.isInt n = true ∧ isLong n = true := by
  constructor
  · rintro ⟨n, hn⟩
    unfold ofNumeral? at hn
    split at hn
    · cases hn
    · cases hn
    · rename_i numeral hread
      obtain ⟨hlong, hint⟩ := isInt_of_ofNumber (Except.ok.inj (Option.some.inj hn))
      exact ⟨numeral, n, hread, hint, hlong⟩
  · rintro ⟨numeral, n, hread, hint, hlong⟩
    exact ⟨n, by simp only [ofNumeral?, hread, ofNumber_of_isInt hlong hint]⟩

/-- A `double` that is read from places keeps them when it is printed, so it is read as a `double`
again. -/
theorem not_printsLong_of_readBack {x y : Binary64} (h : x.readBack = .double y) :
    ¬PrintsLong y := by
  cases x with
  | nan => cases h
  | infinite negative =>
    cases negative with
    | false => cases h
    | true =>
      cases h
      exact not_printsLong (by decide +kernel)
  | finite negative rank =>
    have hread : ofNumeral? ((Binary64.finite negative rank).fixedText 6).toList =
        some (.ok (.double y)) := by
      rw [ofNumeral?_fixedText (by decide) (by decide)]
      exact congrArg (fun w => some (Except.ok w)) h
    have hy : y = (Binary64.finite negative rank).reread 6 := by
      have hnumber : ofNumber ((Binary64.finite negative rank).reread 6) = .double y := h
      rcases ofNumber_cases ((Binary64.finite negative rank).reread 6) with ⟨n, hlong⟩ | hdouble
      · rw [hlong] at hnumber
        cases hnumber
      · rw [hdouble] at hnumber
        exact (Value.double.inj hnumber).symm
    rintro ⟨n, hn⟩
    rw [hy, Binary64.fixedText_reread, hread] at hn
    cases hn

theorem readBack_eq_of_occursIn {w : Value} {x : Binary64} (h : w.OccursIn x.readBack) :
    x.readBack = w := by
  have hatom : x.readBack.isNumber = true ∨ ∃ name, x.readBack = .symbol name := by
    cases x with
    | nan => exact .inr ⟨_, rfl⟩
    | infinite negative =>
      cases negative with
      | false => exact .inr ⟨_, rfl⟩
      | true => exact .inl rfl
    | finite negative rank => exact .inl (isNumber_ofNumber _)
  generalize x.readBack = v at h hatom
  cases h with
  | self => rfl
  | _ => simp [isNumber] at hatom

theorem occursIn_readBack_of_rest {tail : Value} {y : Binary64}
    (h : (double y).OccursIn tail.readBackRest) : (double y).OccursIn tail.readBack := by
  unfold readBackRest at h
  split at h
  · exact h
  · cases h with
    | head _ hpoint => cases hpoint
    | tail _ hrest =>
      cases hrest with
      | head _ hlast => exact hlast
      | tail _ hend => cases hend

theorem not_printsLong_of_occursIn_readBack {v : Value}
    (hlong : ∀ n, (long n).OccursIn v → ofNumber (.ofInt n) = .long n) {y : Binary64}
    (hy : (double y).OccursIn v.readBack) : ¬PrintsLong y := by
  induction v with
  | nil => cases hy
  | long n =>
    rw [readBack, hlong n .self] at hy
    cases hy
  | double x => exact not_printsLong_of_readBack (readBack_eq_of_occursIn hy)
  | symbol name => cases hy
  | string text => cases hy
  | pair head tail hhead htail =>
    rw [readBack_pair] at hy
    cases hy with
    | head _ h => exact hhead (fun n hn => hlong n (.head tail hn)) h
    | tail _ h =>
      exact htail (fun n hn => hlong n (.tail head hn)) (occursIn_readBack_of_rest h)
  | closure params body frame hparams hbody =>
    have hinside : (double y).OccursIn params.readBack ∨ (double y).OccursIn body.readBack := by
      cases hy with
      | head _ h => cases h
      | tail _ h =>
        cases h with
        | head _ h => exact .inl h
        | tail _ h =>
          cases h with
          | head _ h => exact .inr h
          | tail _ h => cases h
    rcases hinside with h | h
    · exact hparams (fun n hn => hlong n (.params body frame hn)) h
    · exact hbody (fun n hn => hlong n (.body params frame hn)) h

/-- The text that is printed of what is read of a text. -/
def reprinted (text : List Char) : Except NumeralFault (List Char) :=
  (parse text).map fun v => v.print.toList

theorem reprinted_of_parse {text : List Char} {v : Value} (h : parse text = .ok v) :
    reprinted text = .ok v.print.toList := by
  rw [reprinted, h]
  rfl

end Value

/-- Where reading a text gives a value, reading and printing it twice gives a text that stays as
it is from then on. Doing so once gives it already, unless the places of a `double` that was read
say an integer that a `long` holds. -/
theorem reprinted_settles {text : List Char} {v : Value} (h : Value.parse text = .ok v) :
    ∃ once twice, Value.reprinted text = .ok once ∧ Value.reprinted once = .ok twice ∧
      Value.reprinted twice = .ok twice ∧
      ((∀ x, (Value.double x).OccursIn v → ∀ numeral n,
          Numeral.read? (x.fixedText 6).toList = some (.ok numeral) →
          numeral.number.isInt n = true → isLong n = false) → twice = once) := by
  have hback := Value.parse_print_of_parse h
  have hagain := Value.parse_print_of_parse hback
  -- What is read the second time has no such `double` left.
  have hsame := Value.print_readBack_of_parse hback fun x hx =>
    Value.not_printsLong_of_occursIn_readBack (fun n hn => Value.ofNumber_of_parse h hn) hx
  refine ⟨v.print.toList, v.readBack.print.toList, Value.reprinted_of_parse h,
    Value.reprinted_of_parse hback, ?_, ?_⟩
  · rw [Value.reprinted_of_parse hagain, hsame]
  · intro hdouble
    have hnone : ∀ x, (Value.double x).OccursIn v → ¬Value.PrintsLong x := by
      intro x hx hlong
      obtain ⟨numeral, n, hread, hint, hn⟩ := Value.printsLong_iff.mp hlong
      rw [hdouble x hx numeral n hread hint] at hn
      cases hn
    rw [Value.print_readBack_of_parse h hnone]

def Value.tinyNegative : Value :=
  .ofList [.symbol "a", .double (.finite true ⟨4502148214488346440, by decide⟩),
    .double .minusOneAndHalf] .nil

theorem reprinted_settles_tinyNegative :
    Value.parse "(a -0.0000001 -1.5)".toList = .ok Value.tinyNegative ∧
    Value.reprinted "(a -0.0000001 -1.5)".toList = .ok "(a -0.000000 -1.500000)".toList ∧
    Value.reprinted "(a -0.000000 -1.500000)".toList = .ok "(a 0 -1.500000)".toList ∧
    Value.reprinted "(a 0 -1.500000)".toList = .ok "(a 0 -1.500000)".toList ∧
    ∃ once, Value.reprinted "-1.5".toList = .ok once ∧ Value.reprinted once = .ok once := by
  have hparse : Value.parse "(a -0.0000001 -1.5)".toList = .ok Value.tinyNegative := by
    decide +kernel
  have hfirst : Value.reprinted "(a -0.0000001 -1.5)".toList =
      .ok "(a -0.000000 -1.500000)".toList := by
    decide +kernel
  have hsecond : Value.reprinted "(a -0.000000 -1.500000)".toList =
      .ok "(a 0 -1.500000)".toList := by
    decide +kernel
  obtain ⟨once, twice, honce, htwice, hlast, -⟩ := reprinted_settles hparse
  cases hfirst.symm.trans honce
  cases hsecond.symm.trans htwice
  refine ⟨hparse, hfirst, hsecond, hlast, ?_⟩
  have halone : Value.parse "-1.5".toList = .ok (.double .minusOneAndHalf) := by decide +kernel
  obtain ⟨once, twice, honce, htwice, -, hsame⟩ := reprinted_settles halone
  have htwice_eq : twice = once := by
    refine hsame fun x hx numeral n hread hint => ?_
    cases hx
    have hnone : ¬Value.PrintsLong .minusOneAndHalf := Value.not_printsLong (by decide +kernel)
    by_contra hlong
    exact hnone (Value.printsLong_iff.mpr ⟨numeral, n, hread, hint, by simpa using hlong⟩)
  exact ⟨once, honce, htwice_eq ▸ htwice⟩

end Lisplet
