import Lisplet.Proofs.LongerText
import Lisplet.Proofs.ReadBack
import Lisplet.Proofs.RoundedAgain
import Lisplet.Proofs.SessionNumbers

/-!
Printing again. Every name in a session is a token that was read or one of the session's own, and
no string holds a double quote, so whatever a session gives as a result can be read back. What is
read is another value, where a chain has a tail or a closure was printed, but it prints the same,
unless the places of a `double` say an integer, which is a `long` when it is read.
-/

set_option autoImplicit false

namespace Lisplet

namespace Value

/-- The printed text of a `double` would be read as a `long`. -/
def PrintsLong (x : Binary64) : Prop :=
  ∃ n : Int, ofNumeral? (x.fixedText 6).toList = some (.ok (.long n))

theorem not_printsLong {x : Binary64}
    (h : ofNumeral? (x.fixedText 6).toList = some (.ok (.double (x.reread 6)))) :
    ¬PrintsLong x := by
  rintro ⟨n, hn⟩
  rw [h] at hn
  cases hn

theorem written_readBack_double {x : Binary64} (h : ¬PrintsLong x) :
    x.readBack.written = (Value.double x).written := by
  cases x with
  | nan => simp [Binary64.readBack, written, atomText, Binary64.fixedText]
  | infinite negative =>
    cases negative <;>
      simp [Binary64.readBack, written, atomText, Binary64.fixedText, Binary64.signText]
  | finite negative rank =>
    have hread : ofNumeral? ((Binary64.finite negative rank).fixedText 6).toList =
        some (.ok (.ofNumber ((Binary64.finite negative rank).reread 6))) :=
      ofNumeral?_fixedText (by decide) (by decide) negative rank
    have hback : (Binary64.finite negative rank).readBack =
        .ofNumber ((Binary64.finite negative rank).reread 6) := rfl
    rcases ofNumber_cases ((Binary64.finite negative rank).reread 6) with ⟨n, hlong⟩ | hdouble
    · rw [hlong] at hread
      exact absurd ⟨n, hread⟩ h
    · rw [hback, hdouble]
      simp only [written, atomText, Binary64.fixedText_reread]

theorem writtenRest_of_not_isList {tail : Value} (h : tail.isList = false) :
    tail.writtenRest = " . ".toList ++ (tail.written ++ [')']) := by
  cases tail with
  | nil => cases h
  | pair head tail => cases h
  | _ => simp only [writtenRest]

theorem writtenRest_readBackRest {tail : Value} (hlist : tail.isList = false)
    (h : tail.readBack.written = tail.written) :
    tail.readBackRest.writtenRest = tail.writtenRest := by
  rw [writtenRest_of_not_isList hlist, readBackRest, hlist, ← h]
  simp [ofList, writtenRest, written, atomText]

theorem written_readBack {v : Value}
    (hlong : ∀ n, (Value.long n).OccursIn v → ofNumber (.ofInt n) = .long n)
    (hdouble : ∀ x, (Value.double x).OccursIn v → ¬PrintsLong x) :
    v.readBack.written = v.written ∧ v.readBackRest.writtenRest = v.writtenRest := by
  induction v with
  | nil => exact ⟨rfl, rfl⟩
  | long n =>
    have hsame : (Value.long n).readBack.written = (Value.long n).written := by
      rw [readBack, hlong n .self]
    exact ⟨hsame, writtenRest_readBackRest rfl hsame⟩
  | double x =>
    have hsame : (Value.double x).readBack.written = (Value.double x).written :=
      written_readBack_double (hdouble x .self)
    exact ⟨hsame, writtenRest_readBackRest rfl hsame⟩
  | symbol name => exact ⟨rfl, writtenRest_readBackRest rfl rfl⟩
  | string text => exact ⟨rfl, writtenRest_readBackRest rfl rfl⟩
  | pair head tail hhead htail =>
    obtain ⟨hfirst, -⟩ := hhead (fun n hn => hlong n (.head tail hn))
      (fun x hx => hdouble x (.head tail hx))
    obtain ⟨-, hrest⟩ := htail (fun n hn => hlong n (.tail head hn))
      (fun x hx => hdouble x (.tail head hx))
    have hpair : (Value.pair head tail).readBackRest = .pair head.readBack tail.readBackRest := rfl
    rw [hpair, readBack_pair]
    constructor <;> simp only [written, writtenRest, hfirst, hrest]
  | closure params body frame hparams hbody =>
    obtain ⟨hfirst, -⟩ := hparams (fun n hn => hlong n (.params body frame hn))
      (fun x hx => hdouble x (.params body frame hx))
    obtain ⟨hsecond, -⟩ := hbody (fun n hn => hlong n (.body params frame hn))
      (fun x hx => hdouble x (.body params frame hx))
    have hsame : (Value.closure params body frame).readBack.written =
        (Value.closure params body frame).written := by
      simp [readBack, ofList, written, writtenRest, atomText, hfirst, hsecond]
    exact ⟨hsame, writtenRest_readBackRest rfl hsame⟩

theorem isReadable_of_isNumber {v : Value} (h : v.isNumber = true) : v.isReadable = true := by
  cases v with
  | long n => rfl
  | double x => rfl
  | _ => cases h

theorem isNumber_of_ofNumeral? {token : List Char} {v : Value}
    (h : ofNumeral? token = some (.ok v)) : v.isNumber = true := by
  unfold ofNumeral? at h
  split at h
  · cases h
  · cases h
  · cases h
    exact isNumber_ofNumber _

theorem isReadable_tokenValue {c : Char} {tail : List Char} {v : Value}
    (hall : ∀ d ∈ c :: tail, Text.isDelimiter d = false) (hstring : c ≠ '"') (hquote : c ≠ '\'')
    (h : Reader.tokenValue c tail = .ok v) : v.isReadable = true := by
  unfold Reader.tokenValue at h
  split at h
  · rename_i number hnumber
    subst h
    split at hnumber
    · exact isReadable_of_isNumber (isNumber_of_ofNumeral? hnumber)
    · cases hnumber
  · rename_i hnone
    cases h
    have hnumeral : (Reader.startsNumeral c && (Numeral.read? (c :: tail)).isSome) = false := by
      by_contra hnot
      simp only [Bool.not_eq_false, Bool.and_eq_true] at hnot
      obtain ⟨hstart, hsome⟩ := hnot
      rw [if_pos hstart, ofNumeral?] at hnone
      cases hread : Numeral.read? (c :: tail) with
      | none => simp [hread] at hsome
      | some numeral => cases numeral <;> simp [hread] at hnone
    have hname : ((c :: tail).all fun d => !Text.isDelimiter d) = true := by
      rw [List.all_eq_true]
      intro d hd
      simp [hall d hd]
    simp [isReadable, isPlainName, hname, hnumeral, hstring, hquote]

theorem atomRule_isReadable : AtomRule (fun v => v.isReadable = true) where
  nil := rfl
  truth := by decide
  sentinel := fun s => by cases s <;> decide
  quoteName := by decide
  string := by
    intro text htext
    simpa [isReadable] using htext
  token := isReadable_tokenValue
  number := fun x => isReadable_of_isNumber (isNumber_ofNumber x)
  remainder := fun _ _ _ => rfl

theorem Sound.isReadable {v : Value} {size : Nat}
    (h : v.Sound (fun w => w.isReadable = true) size) : v.isReadable = true := by
  induction v with
  | pair head tail hhead htail =>
    rw [Value.isReadable, hhead h.1, htail h.2, Bool.true_and]
  | closure params body frame hparams hbody =>
    rw [Value.isReadable, hparams h.2.2.1, hbody h.2.2.2, Bool.true_and]
  | _ => exact h

end Value

/-- The text is one expression with this value, and nothing besides. -/
structure Script.Holds (text : List Char) (v : Value) : Prop where
  parse : Value.parse text = .ok v
  values : (ofText text).values = [v]
  fault : (ofText text).fault = none

theorem Descent.Reads.holds {text : List Char} {v : Value} (h : Descent.Reads text v) :
    Script.Holds text v := by
  have hread := h 0 [] Descent.delimited_nil
  rw [List.append_nil] at hread
  have hcursor : (Cursor.ofText text).read = ⟨.ok v, ⟨0 + text.length, []⟩⟩ :=
    (Descent.readFrom_eq_descend [] (Cursor.ofText text)).trans hread
  have hscript : Script.ofText text = ⟨[⟨v, 0 + text.length⟩], none, 0 + text.length⟩ := by
    rw [Script.ofText, Script.readFrom_of_ok hcursor, Script.readFrom_of_blank rfl]
    rfl
  constructor
  · simp [Value.parse, hcursor]
  · rw [hscript]
    rfl
  · rw [hscript]

/-- Whatever a session gives as a result, no string in it holds a double quote, each of its
symbols is read back as that symbol alone, and its printed text as one value. That value prints
the same, unless the places of a `double` in the result say an integer that a `long` holds. -/
theorem session_prints_again (limit : Nat) (requests : List Session.Request)
    (request : Session.Request) {values : List Value}
    (h : (request.perform.run ((Session.start limit).after requests)).1 = .ok values)
    {v : Value} (hv : v ∈ values) :
    (∀ text, (Value.string text).OccursIn v → '"' ∉ text.toList) ∧
    (∀ name, (Value.symbol name).OccursIn v → Script.Holds name.toList (.symbol name)) ∧
    ∃ w, Script.Holds v.print.toList w ∧
      ((∀ x, (Value.double x).OccursIn v → ¬Value.PrintsLong x) → w.print = v.print) := by
  have hreadable := (Session.keeps_perform Value.atomRule_isReadable limit requests request).result
    h v hv
  have hcanonical :=
    (Session.keeps_perform Value.atomRule_isCanonical limit requests request).result h v hv
  refine ⟨?_, ?_, v.readBack, ?_, ?_⟩
  · intro text htext
    have hstring : (Value.string text).isReadable = true := hreadable.of_occursIn htext
    simpa [Value.isReadable] using hstring
  · intro name hname
    have hplain : isPlainName name.toList = true := hreadable.of_occursIn hname
    have hholds := (Descent.reads_symbol hplain).holds
    rwa [String.ofList_toList] at hholds
  · rw [Value.toList_print]
    exact (Descent.reads_written v hreadable.isReadable).1.holds
  · intro hdouble
    have hlong : ∀ n, (Value.long n).OccursIn v → Value.ofNumber (.ofInt n) = .long n :=
      fun n hn => (hcanonical.canonical_of_occursIn hn).form _ rfl
    obtain ⟨hsame, -⟩ := Value.written_readBack hlong hdouble
    rw [← String.toList_inj, Value.toList_print, Value.toList_print, hsame]

def Session.smallRequests : List Session.Request :=
  [.run "(define f (x) (mul x 0.0000015))".toList]

/-- The number nearest to 0.0000015, which prints as 0.000002. -/
def Binary64.small : Binary64 := .finite false ⟨4519690376349541460, by decide⟩

def Binary64.minusOneAndHalf : Binary64 := .finite true ⟨1023 * 2 ^ 52 + 2 ^ 51, by decide⟩

def Value.mixedChain : Value :=
  .ofList [
    .closure (.ofList [.symbol "x"] .nil)
      (.ofList [.symbol "mul", .symbol "x", .double .small] .nil) 0,
    Sentinel.notAPair.value, .string "a b"] (.double .minusOneAndHalf)

theorem session_prints_again_smallRequests :
    ((Session.Request.feed "(cons f (cons (car 1) (cons \"a b\" -1.5)))".toList).perform.run
      ((Session.start 50).after Session.smallRequests)).1 = .ok [Value.mixedChain] ∧
    Value.mixedChain.print = "((lambda (x) (mul x 0.000002)) NotAPair \"a b\" . -1.500000)" ∧
    Value.parse Value.mixedChain.print.toList ≠ .ok Value.mixedChain ∧
    ∃ w, Script.Holds Value.mixedChain.print.toList w ∧
      w.print = Value.mixedChain.print := by
  have hresult :
      ((Session.Request.feed "(cons f (cons (car 1) (cons \"a b\" -1.5)))".toList).perform.run
        ((Session.start 50).after Session.smallRequests)).1 = .ok [Value.mixedChain] := by
    decide +kernel
  have hatoms : Value.mixedChain.atoms =
      [.symbol "x", .nil, .symbol "mul", .symbol "x", .double .small, .nil,
        Sentinel.notAPair.value, .string "a b", .double .minusOneAndHalf] := rfl
  have hdouble : ∀ x, (Value.double x).OccursIn Value.mixedChain → ¬Value.PrintsLong x := by
    intro x hx
    have hmem := hx.atoms_subset List.mem_cons_self
    simp only [hatoms, Sentinel.value, List.mem_cons, List.not_mem_nil, reduceCtorEq,
      Value.double.injEq, false_or, or_false] at hmem
    rcases hmem with rfl | rfl
    · exact Value.not_printsLong (by decide +kernel)
    · exact Value.not_printsLong (by decide +kernel)
  obtain ⟨-, -, w, hholds, hprints⟩ := session_prints_again 50 Session.smallRequests _ hresult
    (List.mem_singleton.mpr rfl)
  exact ⟨hresult, by decide +kernel, by decide +kernel, w, hholds, hprints hdouble⟩

end Lisplet
