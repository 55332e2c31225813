import Lisplet.Proofs.Passage

/-!
Progress of reading. A token has at least one character, every step takes at least one, and an
expression ends behind its start and inside the text. So an expression takes at most one step more
than there are characters, and a text has at most as many expressions to read as it has characters.
They stand in order and apart from one another, with white space alone between them.
-/

set_option autoImplicit false

namespace Lisplet

def Cursor.inText (text : List Char) (offset : Nat) : Cursor := ⟨offset, text.drop offset⟩

namespace Reader

/-- The longest run of characters without a delimiter that a text starts with, and what follows it.
A run has at least one character. -/
def matchToken? (text : List Char) : Option (List Char × List Char) :=
  match text.takeWhile fun c => !Text.isDelimiter c with
  | [] => none
  | c :: tail => some (c :: tail, text.dropWhile fun c => !Text.isDelimiter c)

theorem matchToken?_cons {c : Char} (h : Text.isDelimiter c = false) (rest : List Char) :
    matchToken? (c :: rest) = some (c :: tokenTail rest, afterToken rest) := by
  simp [matchToken?, tokenTail, afterToken, h]

theorem step_token {cursor : Cursor} {c : Char} {rest : List Char}
    (h : cursor.skipBlanks.rest = c :: rest) (hstart : isTokenStart c = true) :
    matchToken? (c :: rest) = some (c :: tokenTail rest, afterToken rest) ∧
      ∀ pending, step pending cursor =
        supplyAtom pending (readToken cursor.skipBlanks.offset c rest) := by
  simp only [isTokenStart, Bool.and_eq_true, bne_iff_ne] at hstart
  obtain ⟨⟨⟨hopen, hquote⟩, hclose⟩, hstring⟩ := hstart
  have hdelimiter : Text.isDelimiter c = false := by
    simp [Text.isDelimiter, not_blank_of_skipBlanks h, hopen, hclose]
  refine ⟨matchToken?_cons hdelimiter rest, fun pending => ?_⟩
  simp [step, h, take, readAtom, hopen, hquote, hclose, hstring]

def readWithin : Nat → List Pending → Cursor → Option Reading
  | 0, _, _ => none
  | steps + 1, pending, cursor =>
    match step pending cursor with
    | .stop reading => some reading
    | .more pending' next => readWithin steps pending' next

theorem readWithin_eq {steps : Nat} {pending : List Pending} {cursor : Cursor}
    (h : cursor.rest.length < steps) :
    readWithin steps pending cursor = some (readFrom pending cursor) := by
  induction steps generalizing pending cursor with
  | zero => exact absurd h (Nat.not_lt_zero _)
  | succ steps ih =>
    rw [readWithin]
    cases hstep : step pending cursor with
    | stop reading => rw [readFrom_of_stop hstep]
    | more pending' next =>
      have hlt := @length_step pending cursor next (by rw [hstep]; rfl)
      rw [readFrom_of_more hstep]
      exact ih (by omega)

end Reader

theorem Cursor.Reaches.eq_inText {text : List Char} {offset : Nat} {place : Cursor}
    (h : (inText text offset).Reaches place) : place = inText text place.offset := by
  obtain ⟨part, hpart, hoffset⟩ := h
  change text.drop offset = part ++ place.rest at hpart
  change place.offset = offset + part.length at hoffset
  have hdrop : text.drop place.offset = place.rest := by
    rw [hoffset, ← List.drop_drop, hpart, List.drop_left]
  rw [inText, hdrop]

theorem Cursor.Reaches.of_inText {text : List Char} {offset : Nat} {place : Cursor}
    (h : (inText text offset).Reaches place)
    (hlt : place.rest.length < (inText text offset).rest.length) :
    offset < place.offset ∧ place.offset ≤ text.length ∧ place = inText text place.offset := by
  have hend := h.end_eq
  have hlength : (inText text offset).rest.length = text.length - offset := List.length_drop
  change _ = offset + _ at hend
  exact ⟨by omega, by omega, h.eq_inText⟩

theorem Reader.step_advances {text : List Char} {offset : Nat} {pending pending' : List Pending}
    {next : Cursor} (h : step pending (.inText text offset) = .more pending' next) :
    offset < next.offset ∧ next.offset ≤ text.length ∧ next = .inText text next.offset := by
  have hreaches := step_reaches pending (.inText text offset)
  rw [h] at hreaches
  exact hreaches.of_inText (@length_step pending _ next (by rw [h]; rfl))

theorem Cursor.read_advances {text : List Char} {offset : Nat} {v : Value} {after : Cursor}
    (h : (inText text offset).read = ⟨.ok v, after⟩) :
    offset < after.offset ∧ after.offset ≤ text.length ∧ after = inText text after.offset :=
  (Reader.read_reaches h).of_inText (length_read h)

structure Span where
  start : Nat
  stop : Nat
  deriving DecidableEq

namespace Script

/-- Reads a script in at most so many reads of an expression. -/
def readWithin (reads : Nat) (cursor : Cursor) : Option Script :=
  if cursor.skipBlanks.rest.isEmpty then some ⟨[], none, cursor.skipBlanks.offset⟩
  else
    match reads with
    | 0 => none
    | reads + 1 =>
      match cursor.skipBlanks.read with
      | ⟨.ok v, after⟩ =>
        (readWithin reads after).map fun script =>
          { script with items := ⟨v, after.offset⟩ :: script.items }
      | ⟨.error fault, after⟩ => some ⟨[], some fault, after.offset⟩

theorem readWithin_of_rest {reads : Nat} {cursor : Cursor} (h : cursor.skipBlanks.rest ≠ []) :
    readWithin (reads + 1) cursor =
      match cursor.read with
      | ⟨.ok v, after⟩ =>
        (readWithin reads after).map fun script =>
          { script with items := ⟨v, after.offset⟩ :: script.items }
      | ⟨.error fault, after⟩ => some ⟨[], some fault, after.offset⟩ := by
  rw [readWithin, if_neg (by simpa [List.isEmpty_iff] using h), cursor.read_skipBlanks]

/-- A read takes at least one character, so as many reads as there are characters are enough. -/
theorem readWithin_eq {reads : Nat} {cursor : Cursor} (h : cursor.rest.length ≤ reads) :
    readWithin reads cursor = some (readFrom cursor) := by
  induction cursor using readFrom_induction generalizing reads with
  | blank cursor hrest =>
    rw [readFrom_of_blank hrest, readWithin.eq_def, hrest]
    rfl
  | item cursor v after hread ih =>
    have hlt := Cursor.length_read hread
    cases reads with
    | zero => omega
    | succ reads =>
      rw [readFrom_of_ok hread, readWithin_of_rest (rest_of_read hread), hread]
      simp only [ih (by omega : after.rest.length ≤ reads), Option.map_some]
  | fault cursor fault place hrest hread =>
    have hlt := List.length_pos_iff.mpr hrest
    have hle := cursor.length_skipBlanks_le
    cases reads with
    | zero => omega
    | succ reads => rw [readFrom_of_error hrest hread, readWithin_of_rest hrest, hread]

/-- Behind a place of a text these expressions stand in these spans, each with white space alone
before it. The last one ends at `last`. -/
inductive Laid (text : List Char) : Nat → List Span → List ScriptItem → Nat → Prop
  | nil (place : Nat) : Laid text place [] [] place
  | cons {place last : Nat} {span : Span} {v : Value} {spans : List Span}
    {items : List ScriptItem} (hle : place ≤ span.start)
    (hblank : Text.isBlankText ((text.take span.start).drop place) = true)
    (hlt : span.start < span.stop) (hstop : span.stop ≤ text.length)
    (hread : (Cursor.inText text span.start).read = ⟨.ok v, .inText text span.stop⟩)
    (hrest : Laid text span.stop spans items last) :
    Laid text place (span :: spans) (⟨v, span.stop⟩ :: items) last

theorem Laid.le {text : List Char} {place last : Nat} {spans : List Span}
    {items : List ScriptItem} (h : Laid text place spans items last) :
    ∀ span ∈ spans, place ≤ span.start ∧ span.start < span.stop := by
  induction h with
  | nil => simp
  | cons hle _ hlt _ _ _ ih =>
    intro other hother
    rcases List.mem_cons.mp hother with rfl | hother
    · exact ⟨hle, hlt⟩
    · have hlater := ih other hother
      exact ⟨by omega, hlater.2⟩

theorem Laid.pairwise {text : List Char} {place last : Nat} {spans : List Span}
    {items : List ScriptItem} (h : Laid text place spans items last) :
    spans.Pairwise fun span later => span.stop ≤ later.start := by
  induction h with
  | nil => exact .nil
  | cons _ _ _ _ _ hrest ih =>
    exact .cons (fun later hlater => (hrest.le later hlater).1) ih

theorem isBlankText_before_skipBlanks (text : List Char) (offset : Nat) :
    Text.isBlankText
      ((text.take (Cursor.inText text offset).skipBlanks.offset).drop offset) = true := by
  have htake : (text.take (Cursor.inText text offset).skipBlanks.offset).drop offset =
      (text.drop offset).takeWhile Text.isBlank := by
    change (text.take (offset + ((text.drop offset).takeWhile Text.isBlank).length)).drop offset = _
    rw [List.drop_take, Nat.add_sub_cancel_left]
    exact (List.prefix_iff_eq_take.mp (List.takeWhile_prefix Text.isBlank)).symm
  rw [htake, Text.isBlankText, List.all_eq_true]
  exact fun c hc => List.mem_takeWhile_imp hc

theorem exists_laid (text : List Char) (offset : Nat) :
    ∃ spans last, Laid text offset spans (readFrom (.inText text offset)).items last ∧
      ((readFrom (.inText text offset)).fault = none →
        Text.isBlankText (text.drop last) = true) := by
  generalize hcursor : Cursor.inText text offset = cursor
  induction cursor using readFrom_induction generalizing offset with
  | blank cursor hrest =>
    rw [readFrom_of_blank hrest]
    subst hcursor
    exact ⟨[], offset, .nil offset, fun _ => Text.trimLeft_eq_nil.mp hrest⟩
  | item cursor v after hread ih =>
    subst hcursor
    let start := (Cursor.inText text offset).skipBlanks.offset
    have hstart : (Cursor.inText text start).read = ⟨.ok v, after⟩ := by
      rw [← (Cursor.Reaches.skipBlanks _).eq_inText, Cursor.read_skipBlanks, hread]
    obtain ⟨hlt, hstop, hafter⟩ := Cursor.read_advances hstart
    obtain ⟨spans, last, hlaid, hend⟩ := ih after.offset hafter.symm
    rw [readFrom_of_ok hread]
    refine ⟨⟨start, after.offset⟩ :: spans, last, ?_, hend⟩
    rw [hafter] at hstart
    have hblank := isBlankText_before_skipBlanks text offset
    exact .cons (Nat.le_add_right _ _) hblank hlt hstop hstart hlaid
  | fault cursor fault place hrest hread =>
    rw [readFrom_of_error hrest hread]
    exact ⟨[], offset, .nil offset, fun hnone => by cases hnone⟩

end Script

/-- Wherever reading begins in a text, a token is a longest run without delimiters and not empty;
a step that goes on moves forward in the text, and so do steps to the end of an expression, which
are at most one more than the characters that are left; the expressions from there on take at most
as many reads as there are characters left, and stand in order with white space alone between
them. -/
theorem reading_advances (text : List Char) (offset : Nat) :
    let cursor := Cursor.inText text offset
    (∀ c rest, cursor.skipBlanks.rest = c :: rest → Reader.isTokenStart c = true →
      Reader.matchToken? (c :: rest) = some (c :: Reader.tokenTail rest, Reader.afterToken rest) ∧
      ∀ pending, Reader.step pending cursor =
        Reader.supplyAtom pending (Reader.readToken cursor.skipBlanks.offset c rest)) ∧
    (∀ pending pending' next, Reader.step pending cursor = .more pending' next →
      offset < next.offset ∧ next.offset ≤ text.length ∧ next = .inText text next.offset) ∧
    Reader.readWithin (text.length - offset + 1) [] cursor = some cursor.read ∧
    (∀ v after, cursor.read = ⟨.ok v, after⟩ →
      offset < after.offset ∧ after.offset ≤ text.length ∧ after = .inText text after.offset) ∧
    Script.readWithin (text.length - offset) cursor = some (Script.readFrom cursor) ∧
    ∃ spans last, Script.Laid text offset spans (Script.readFrom cursor).items last ∧
      (spans.Pairwise fun span later => span.stop ≤ later.start) ∧
      ((Script.readFrom cursor).fault = none → Text.isBlankText (text.drop last) = true) := by
  intro cursor
  have hlength : cursor.rest.length = text.length - offset := List.length_drop
  refine ⟨?_, ?_, ?_, ?_, ?_, ?_⟩
  · exact fun c rest hrest hstart => Reader.step_token hrest hstart
  · exact fun pending pending' next hstep => Reader.step_advances hstep
  · exact Reader.readWithin_eq (by omega)
  · exact fun v after hread => Cursor.read_advances hread
  · exact Script.readWithin_eq (by omega)
  · obtain ⟨spans, last, hlaid, hend⟩ := Script.exists_laid text offset
    exact ⟨spans, last, hlaid, hlaid.pairwise, hend⟩

theorem reading_advances_quoteInToken :
    let text := " 'a\"b (c)\n".toList
    let quoted := (Value.symbol "a\"b").quotation
    (Reader.step [] (.inText text 0) = .more [.quote] (.inText text 2) ∧ 0 < 2 ∧ 2 ≤ 10) ∧
    Reader.matchToken? "a\"b (c)\n".toList = some ("a\"b".toList, " (c)\n".toList) ∧
    ((Cursor.inText text 0).read = ⟨.ok quoted, .inText text 5⟩ ∧ 0 < 5 ∧ 5 ≤ 10) ∧
    Script.readWithin 10 (.inText text 0) = some (Script.ofText text) ∧
    ∃ spans last, Script.Laid text 0 spans (Script.ofText text).items last ∧
      Text.isBlankText (text.drop last) = true := by
  intro text quoted
  obtain ⟨-, hsteps, hread, hexpression, hscript, spans, last, hlaid, -, hend⟩ :=
    reading_advances text 0
  obtain ⟨htoken, -⟩ := reading_advances text 2
  have hstep : Reader.step [] (.inText text 0) = .more [.quote] (.inText text 2) := rfl
  have hquoted : (Cursor.inText text 0).read = ⟨.ok quoted, .inText text 5⟩ :=
    (Option.some.inj hread).symm
  obtain ⟨hmoved, hwithin, -⟩ := hsteps _ _ _ hstep
  obtain ⟨hlt, hle, -⟩ := hexpression _ _ hquoted
  have hfault : (Script.readFrom (.inText text 0)).fault = none := by decide +kernel
  refine ⟨⟨hstep, hmoved, hwithin⟩, ?_, ⟨hquoted, hlt, hle⟩, hscript, spans, last, hlaid,
    hend hfault⟩
  exact (htoken 'a' "\"b (c)\n".toList rfl rfl).1

end Lisplet
