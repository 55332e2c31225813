import Lisplet.Proofs.LineCuts
import Mathlib.Data.List.Find

/-!
Comments in lines. A text is cut into tokens as the reader cuts it, whatever is open and also
behind a fault; the code of a text is what stands outside its string literals. A line that is
taken loses what follows its first semicolon in code. The literals are those of the line alone:
they are those of all that is pending only where no string goes on into the line.
-/

set_option autoImplicit false

namespace Lisplet

open CodeScan

namespace Reader

/-- The place after the token that starts here; a string without an end takes the whole text. -/
def afterStart (offset : Nat) (c : Char) (rest : List Char) : Cursor :=
  if c == '"' then
    match readString offset rest with
    | ⟨.ok _, after⟩ => after
    | ⟨.error _, _⟩ => ⟨offset + 1 + rest.length, []⟩
  else if isTokenStart c then (readToken offset c rest).cursor
  else ⟨offset + 1, rest⟩

theorem afterStart_string {text : List Char} (h : '"' ∉ text) (offset : Nat)
    (rest : List Char) : afterStart offset '"' (text ++ '"' :: rest) =
      ⟨offset + text.length + 2, rest⟩ := by
  simp [afterStart, readString_of_not_mem h]

theorem afterStart_unclosed {rest : List Char} (h : '"' ∉ rest) (offset : Nat) :
    afterStart offset '"' rest = ⟨offset + 1 + rest.length, []⟩ := by
  simp [afterStart, readString_of_unclosed h]

theorem afterStart_reaches (offset : Nat) (c : Char) (rest : List Char) :
    Cursor.Reaches ⟨offset + 1, rest⟩ (afterStart offset c rest) := by
  by_cases hstring : c = '"'
  · subst hstring
    by_cases hmem : '"' ∈ rest
    · obtain ⟨text, after, rfl, htext⟩ := List.eq_append_cons_of_mem hmem
      rw [afterStart_string htext]
      exact ⟨text ++ ['"'], by simp, by simp; omega⟩
    · rw [afterStart_unclosed hmem]
      exact ⟨rest, (List.append_nil rest).symm, rfl⟩
  · simp only [afterStart, beq_iff_eq, hstring, ↓reduceIte]
    split
    · exact ⟨tokenTail rest, (tokenTail_append_afterToken rest).symm, rfl⟩
    · exact .refl _

end Reader

def Cursor.literals (cursor : Cursor) : List Literal :=
  match _h : cursor.skipBlanks.rest with
  | [] => []
  | c :: rest =>
    let start := cursor.skipBlanks.offset
    let after := Reader.afterStart start c rest
    (if c == '"' then [⟨start, after.offset⟩] else []) ++ literals after
termination_by cursor.rest.length
decreasing_by
  exact Nat.lt_of_le_of_lt (Reader.afterStart_reaches _ _ _).length_le
    (Cursor.length_of_skipBlanks _h)

theorem Cursor.literals_of_nil {cursor : Cursor} (h : cursor.skipBlanks.rest = []) :
    cursor.literals = [] := by
  rw [literals]
  split
  · rfl
  · rename_i c rest hcons
    rw [h] at hcons
    cases hcons

theorem Cursor.literals_of_cons {cursor : Cursor} {c : Char} {rest : List Char}
    (h : cursor.skipBlanks.rest = c :: rest) :
    cursor.literals =
      (if c == '"' then
        [⟨cursor.skipBlanks.offset, (Reader.afterStart cursor.skipBlanks.offset c rest).offset⟩]
      else []) ++ (Reader.afterStart cursor.skipBlanks.offset c rest).literals := by
  rw [literals]
  split
  · rename_i hnil
    rw [h] at hnil
    cases hnil
  · rename_i d tail hcons
    rw [h] at hcons
    cases hcons
    rfl

theorem Cursor.literals_skipBlanks (cursor : Cursor) :
    cursor.skipBlanks.literals = cursor.literals := by
  have hskip := cursor.skipBlanks_skipBlanks
  cases hrest : cursor.skipBlanks.rest with
  | nil => rw [literals_of_nil hrest, literals_of_nil (hskip.symm ▸ hrest)]
  | cons c rest => rw [literals_of_cons hrest, literals_of_cons (hskip.symm ▸ hrest), hskip]

theorem Cursor.literals_of_start {c : Char} (h : Text.isBlank c = false) (offset : Nat)
    (rest : List Char) :
    (Cursor.mk offset (c :: rest)).literals =
      (if c == '"' then [⟨offset, (Reader.afterStart offset c rest).offset⟩] else []) ++
        (Reader.afterStart offset c rest).literals := by
  have hskip := Descent.skipBlanks_of_not_blank h offset rest
  have hcons := Cursor.literals_of_cons (by rw [hskip])
  rwa [hskip] at hcons

namespace Reader

theorem afterStart_mark {c : Char} (h : isTokenStart c = false) (hstring : c ≠ '"')
    (offset : Nat) (rest : List Char) : afterStart offset c rest = ⟨offset + 1, rest⟩ := by
  simp [afterStart, hstring, h]

theorem isTokenStart_of_not_isDelimiter {c : Char} (h : Text.isDelimiter c = false)
    (hstring : c ≠ '"') (hquote : c ≠ '\'') : isTokenStart c = true := by
  have hopen : c ≠ '(' := by
    rintro rfl
    exact absurd h (by decide)
  have hclose : c ≠ ')' := by
    rintro rfl
    exact absurd h (by decide)
  simp [isTokenStart, hopen, hquote, hclose, hstring]

theorem afterStart_token {c : Char} {tail rest : List Char}
    (hall : ∀ d ∈ c :: tail, Text.isDelimiter d = false) (hstring : c ≠ '"')
    (hquote : c ≠ '\'') (hrest : Descent.Delimited rest) (offset : Nat) :
    afterStart offset c (tail ++ rest) = ⟨offset + 1 + tail.length, rest⟩ := by
  have hstart := isTokenStart_of_not_isDelimiter (hall c (by simp)) hstring hquote
  obtain ⟨htail, hafter⟩ :=
    tokenTail_of_delimited (fun d hd => hall d (List.mem_cons_of_mem c hd)) hrest
  simp only [afterStart, beq_iff_eq, hstring, hstart, ↓reduceIte, readToken, htail, hafter]

theorem Takes.literals {pending : List Pending} {offset : Nat} {text : List Char} {s : Step}
    (h : Takes pending offset text s) (hblank : ∀ c ∈ text.head?, Text.isBlank c = false) :
    (Cursor.mk offset text).literals =
      (literal? ⟨offset, text⟩).toList ++ s.cursor.literals := by
  have hmark : ∀ c rest, text = c :: rest → c ≠ '"' → isTokenStart c = false →
      (Cursor.mk offset text).literals =
        (literal? ⟨offset, text⟩).toList ++ (Cursor.mk (offset + 1) rest).literals := by
    rintro c rest rfl hstring hstart
    rw [Cursor.literals_of_start (hblank c rfl), afterStart_mark hstart hstring,
      literal?_eq_none hstring]
    simp [hstring]
  cases h with
  | ended => rfl
  | opens rest => exact hmark _ rest rfl (by decide) (by decide)
  | quotes rest => exact hmark _ rest rfl (by decide) (by decide)
  | closes rest =>
    rw [cursor_supply]
    exact hmark _ rest rfl (by decide) (by decide)
  | closesNone rest => rfl
  | string rest hmem =>
    rw [cursor_supply, Cursor.literals_of_start (by decide), afterStart_string hmem,
      literal?_string hmem]
    rfl
  | unterminated hmem =>
    rw [literal?_unclosed hmem]
    rfl
  | token hall hstring hquote hrest =>
    rw [cursor_supplyAtom, Cursor.literals_of_start (hblank _ rfl),
      afterStart_token hall hstring hquote hrest, literal?_eq_none hstring]
    simp [hstring]

theorem literals_step (pending : List Pending) (cursor : Cursor) :
    cursor.literals =
      (literal? cursor.skipBlanks).toList ++ (step pending cursor).cursor.literals := by
  have hblank : ∀ c ∈ cursor.skipBlanks.rest.head?, Text.isBlank c = false := by
    intro c hc
    obtain ⟨rest, hrest⟩ := List.head?_eq_some_iff.mp hc
    exact not_blank_of_skipBlanks hrest
  rw [← cursor.literals_skipBlanks]
  exact (takes_step pending cursor).literals hblank

end Reader

/-- The literals that reading a text meets are the first of its literals; the others stand behind
the place where reading stops. -/
theorem Trace.literals_readFrom (pending : List Reader.Pending) (cursor : Cursor) :
    cursor.literals =
      (readFrom pending cursor).literals ++ (readFrom pending cursor).place.literals := by
  fun_induction readFrom pending cursor with
  | case1 pending cursor hend => exact cursor.literals_skipBlanks.symm
  | case2 pending cursor hend fault after hstep =>
    rw [Reader.literals_step pending cursor, hstep]
    simp [withLiteral, halt, place, Reader.Step.cursor]
  | case3 pending cursor hend v after hstep ih =>
    rw [Reader.literals_step pending cursor, hstep]
    simpa [withLiteral, withItem, place, Reader.Step.cursor] using ih
  | case4 pending cursor hend pending' after hstep ih =>
    rw [Reader.literals_step pending cursor, hstep]
    simpa [withLiteral, place, Reader.Step.cursor] using ih

theorem Stretch.of_unclosed {rest : List Char} (h : '"' ∉ rest) (offset : Nat) :
    Stretch [⟨offset, offset + 1 + rest.length⟩] 0 ⟨offset, '"' :: rest⟩
      ⟨offset + 1 + rest.length, []⟩ where
  le := by
    change offset ≤ offset + 1 + rest.length
    omega
  within := by simp
  code := by
    refine ⟨[], codeFrom_unclosed h offset, rfl, fun i => ?_⟩
    simp [Literal.Covers]

theorem Reader.stretch_afterStart {c : Char} (hblank : Text.isBlank c = false) (offset : Nat)
    (rest : List Char) :
    ∃ depth, Stretch (if c == '"' then [⟨offset, (afterStart offset c rest).offset⟩] else [])
      depth ⟨offset, c :: rest⟩ (afterStart offset c rest) := by
  by_cases hstring : c = '"'
  · subst hstring
    by_cases hmem : '"' ∈ rest
    · obtain ⟨text, after, rfl, htext⟩ := List.eq_append_cons_of_mem hmem
      rw [afterStart_string htext]
      exact ⟨0, Stretch.of_string htext offset after⟩
    · rw [afterStart_unclosed hmem]
      exact ⟨0, Stretch.of_unclosed hmem offset⟩
  rw [if_neg (by simpa using hstring)]
  by_cases hmark : c = '(' ∨ c = ')' ∨ c = '\''
  · have hstart : isTokenStart c = false := by rcases hmark with rfl | rfl | rfl <;> rfl
    rw [afterStart_mark hstart hstring]
    exact ⟨_, Stretch.of_mark hmark offset rest⟩
  · simp only [not_or] at hmark
    obtain ⟨hopen, hclose, hquote⟩ := hmark
    have hall : ∀ d ∈ c :: tokenTail rest, Text.isDelimiter d = false := by
      intro d hd
      rcases List.mem_cons.mp hd with rfl | hd
      · simp [Text.isDelimiter, hblank, hopen, hclose]
      · exact not_isDelimiter_of_mem_tokenTail hd
    have hafter := afterStart_token hall hstring hquote (delimited_afterToken rest) offset
    have hstretch := Stretch.of_token hall hstring hquote (delimited_afterToken rest) offset
    rw [tokenTail_append_afterToken] at hafter hstretch
    rw [hafter]
    exact ⟨0, hstretch⟩

theorem Cursor.stretch_literals (cursor : Cursor) :
    ∃ depth, Stretch cursor.literals depth cursor
      ⟨cursor.offset + cursor.rest.length, []⟩ := by
  fun_induction literals cursor with
  | case1 cursor hrest =>
    have hend := (Reaches.skipBlanks cursor).end_eq
    have hstretch := Stretch.of_skipBlanks cursor
    rcases hskip : cursor.skipBlanks with ⟨offset, rest⟩
    rw [hskip] at hend hstretch hrest
    subst hrest
    rw [← hend]
    exact ⟨0, hstretch⟩
  | case2 cursor c rest hrest start after ih =>
    obtain ⟨depth, hstretch⟩ := ih
    obtain ⟨gain, htoken⟩ := Reader.stretch_afterStart (Reader.not_blank_of_skipBlanks hrest)
      start rest
    have hskip : cursor.skipBlanks = ⟨start, c :: rest⟩ := by rw [← hrest]
    have hblanks := Stretch.of_skipBlanks cursor
    have hend : cursor.skipBlanks.offset + cursor.skipBlanks.rest.length =
        cursor.offset + cursor.rest.length := (Reaches.skipBlanks cursor).end_eq
    have hafter : after.offset + after.rest.length = start + 1 + rest.length :=
      (Reader.afterStart_reaches start c rest).end_eq
    rw [hskip] at hblanks
    rw [hrest, List.length_cons] at hend
    change start + (rest.length + 1) = _ at hend
    rw [show after.offset + after.rest.length = cursor.offset + cursor.rest.length by omega]
      at hstretch
    exact ⟨_, (hblanks.trans htoken).trans hstretch⟩

namespace CodeScan

theorem bounds_of_mem_numbered {offset : Nat} {text : List Char} {entry : Nat × Char}
    (h : entry ∈ numbered offset text) : offset ≤ entry.1 ∧ entry.1 < offset + text.length := by
  have hmem := List.mem_map_of_mem (f := Prod.fst) h
  rwa [numbered_fst, List.mem_range'_1] at hmem

theorem codeFrom_eq_filter (place : Place) (offset : Nat) (text : List Char) :
    codeFrom [] place offset text = (numbered offset text).filter fun entry =>
      decide (entry.1 ∈ (codeFrom [] place offset text).map Prod.fst) := by
  induction text generalizing place offset with
  | nil => rfl
  | cons c rest ih =>
    rw [codeFrom_cons, numbered]
    generalize hlater : codeFrom [] (place.next c) (offset + 1) rest = later
    have hfirst : offset ∉ later.map Prod.fst := by
      intro hmem
      have hle := le_of_mem_codeFrom (hlater ▸ hmem)
      omega
    have hrest : ∀ entry ∈ numbered (offset + 1) rest, entry.1 ≠ offset := by
      intro entry hentry
      have hbounds := bounds_of_mem_numbered hentry
      omega
    have hsame := ih (place.next c) (offset + 1)
    rw [hlater] at hsame
    by_cases hcode : place.isCode c = true
    · rw [if_pos hcode, List.singleton_append, List.filter_cons_of_pos (by simp)]
      refine congrArg _ (hsame.trans (List.filter_congr fun entry hentry => ?_))
      simp [hrest entry hentry]
    · rw [if_neg hcode, List.nil_append, List.filter_cons_of_neg (by simpa using hfirst)]
      exact hsame

theorem lt_of_mem_codeFrom {place : Place} {offset i : Nat} {text : List Char}
    (h : i ∈ (codeFrom [] place offset text).map Prod.fst) : i < offset + text.length := by
  obtain ⟨entry, hentry, rfl⟩ := List.mem_map.mp h
  rw [codeFrom_eq_filter] at hentry
  exact (bounds_of_mem_numbered (List.mem_filter.mp hentry).1).2

theorem codeFrom_shift (place : Place) (offset shift : Nat) (text : List Char) :
    codeFrom [] place (shift + offset) text =
      (codeFrom [] place offset text).map fun entry => (shift + entry.1, entry.2) := by
  induction text generalizing place offset with
  | nil => rfl
  | cons c rest ih =>
    rw [codeFrom_cons, codeFrom_cons, List.map_append, ← ih, Nat.add_assoc]
    split <;> rfl

end CodeScan

instance Literal.decidableCovers (literal : Literal) (offset : Nat) :
    Decidable (literal.Covers offset) :=
  inferInstanceAs (Decidable (literal.start ≤ offset ∧ offset < literal.stop))

/-- A place of a text is outside all its string literals. -/
def OutsideLiterals (text : List Char) (offset : Nat) : Prop :=
  ∀ literal ∈ (Cursor.ofText text).literals, ¬literal.Covers offset

instance OutsideLiterals.decidable (text : List Char) (offset : Nat) :
    Decidable (OutsideLiterals text offset) :=
  inferInstanceAs (Decidable (∀ literal ∈ (Cursor.ofText text).literals, ¬literal.Covers offset))

theorem mem_codeChars_iff (text : List Char) (i : Nat) :
    i ∈ (codeChars text).map Prod.fst ↔ i < text.length ∧ OutsideLiterals text i := by
  obtain ⟨depth, hstretch⟩ := (Cursor.ofText text).stretch_literals
  obtain ⟨found, hfound, -, hcovers⟩ := hstretch.code
  have hcode : codeChars text = found := hfound.trans (List.append_nil found)
  have hmem := hcovers i
  simp only [Cursor.ofText, Nat.zero_le, true_and, Nat.zero_add] at hmem
  rw [hcode]
  exact hmem

theorem codeChars_eq_filter (text : List Char) :
    codeChars text = (numbered 0 text).filter fun entry => OutsideLiterals text entry.1 := by
  rw [codeChars, codeFrom_eq_filter]
  refine List.filter_congr fun entry hentry => ?_
  have hbounds := bounds_of_mem_numbered hentry
  have hiff := mem_codeChars_iff text entry.1
  rw [codeChars] at hiff
  rw [decide_eq_decide, hiff]
  exact ⟨And.right, fun houtside => ⟨by omega, houtside⟩⟩

/-- A line up to its first semicolon at which `outside` holds, or all of it. -/
def cutAtComment (outside : Nat → Prop) [DecidablePred outside] (line : List Char) : List Char :=
  match (numbered 0 line).find? fun entry => outside entry.1 ∧ entry.2 = ';' with
  | some entry => line.take entry.1
  | none => line

theorem stripComment_eq (line : List Char) :
    stripComment line = cutAtComment (OutsideLiterals line) line := by
  have hfind : ((codeChars line).find? fun entry => entry.2 == ';') =
      (numbered 0 line).find? fun entry => OutsideLiterals line entry.1 ∧ entry.2 = ';' := by
    rw [codeChars_eq_filter, List.find?_filter]
    simp only [decide_eq_true_eq, beq_iff_eq]
  exact congrArg (fun found : Option (Nat × Char) =>
    match found with
    | some entry => line.take entry.1
    | none => line) hfind

theorem cutAtComment_congr {outside outside' : Nat → Prop} [DecidablePred outside]
    [DecidablePred outside'] {line : List Char}
    (h : ∀ i < line.length, outside i ↔ outside' i) :
    cutAtComment outside line = cutAtComment outside' line := by
  have hsame : ∀ entry ∈ numbered 0 line, decide (outside entry.1 ∧ entry.2 = ';') =
      decide (outside' entry.1 ∧ entry.2 = ';') := by
    intro entry hentry
    have hbounds := bounds_of_mem_numbered hentry
    simp only [h entry.1 (by omega)]
  unfold cutAtComment
  rw [List.find?_congr hsame]

theorem CodeScan.codeChars_append (a b : List Char) :
    codeChars (a ++ b) =
      codeChars a ++ codeFrom [] (Place.boundary.after a) a.length b := by
  rw [codeChars, codeFrom_append, Nat.zero_add]
  rfl

/-- A newline right behind the text would stand in a string literal. -/
def EndsInLiteral (text : List Char) : Prop := ¬OutsideLiterals (text ++ ['\n']) text.length

instance EndsInLiteral.decidable (text : List Char) : Decidable (EndsInLiteral text) :=
  inferInstanceAs (Decidable (¬OutsideLiterals (text ++ ['\n']) text.length))

theorem outsideLiterals_length_iff (before line : List Char) :
    OutsideLiterals (before ++ '\n' :: line) before.length ↔
      (Place.boundary.after before).isCode '\n' = true := by
  have hmem := mem_codeChars_iff (before ++ '\n' :: line) before.length
  have hbefore : before.length ∉ (codeChars before).map Prod.fst := fun hin =>
    absurd (lt_of_mem_codeFrom hin) (by omega)
  have hlater : before.length ∉ (codeFrom [] ((Place.boundary.after before).next '\n')
      (before.length + 1) line).map Prod.fst := fun hin =>
    absurd (le_of_mem_codeFrom hin) (by omega)
  rw [codeChars_append, codeFrom_cons, List.map_append, List.mem_append, or_iff_right hbefore,
    List.map_append, List.mem_append, or_iff_left hlater, and_iff_right (by simp)] at hmem
  rw [← hmem]
  split <;> simp_all

theorem not_endsInLiteral_iff (text : List Char) :
    ¬EndsInLiteral text ↔ (Place.boundary.after text).isCode '\n' = true := by
  rw [EndsInLiteral, not_not, outsideLiterals_length_iff]

theorem codeChars_newline {before : List Char} (h : ¬EndsInLiteral before) (line : List Char) :
    codeChars (before ++ '\n' :: line) =
      codeChars before ++ (before.length, '\n') ::
        (codeChars line).map fun entry => (before.length + 1 + entry.1, entry.2) := by
  have hcode := (not_endsInLiteral_iff before).mp h
  have hnext : (Place.boundary.after before).next '\n' = .boundary := by
    revert hcode
    cases Place.boundary.after before <;> decide
  have hshift : codeFrom [] .boundary (before.length + 1) line = _ :=
    codeFrom_shift .boundary 0 (before.length + 1) line
  rw [codeChars_append, codeFrom_cons, if_pos hcode, hnext, hshift]
  rfl

theorem outsideLiterals_append {before line : List Char}
    (hnewline : OutsideLiterals (before ++ '\n' :: line) before.length) {i : Nat}
    (hi : i < line.length) :
    OutsideLiterals (before ++ '\n' :: line) (before.length + 1 + i) ↔
      OutsideLiterals line i := by
  have hends : ¬EndsInLiteral before := by
    rwa [not_endsInLiteral_iff, ← outsideLiterals_length_iff before line]
  have hbefore : before.length + 1 + i ∉ (codeChars before).map Prod.fst := fun hmem =>
    absurd (lt_of_mem_codeFrom hmem) (by omega)
  have hmem : before.length + 1 + i ∈ (codeChars (before ++ '\n' :: line)).map Prod.fst ↔
      i ∈ (codeChars line).map Prod.fst := by
    have hne : before.length + 1 + i ≠ before.length := by omega
    rw [codeChars_newline hends, List.map_append, List.mem_append]
    simp [hbefore, hne]
  have hlength : before.length + 1 + i < (before ++ '\n' :: line).length := by
    simp only [List.length_append, List.length_cons]
    omega
  rwa [mem_codeChars_iff, mem_codeChars_iff, and_iff_right hlength, and_iff_right hi] at hmem

namespace Session

/-- What is to be kept of a line: all of it before the first semicolon that is in no string of
the text that is pending with it. -/
def keeping (session : Session) (line : List Char) : List Char :=
  let text := Text.joinLines (session.pending ++ [line])
  cutAtComment (fun i => OutsideLiterals text (text.length - line.length + i)) line

theorem keeping_of_nil {session : Session} (h : session.pending = []) (line : List Char) :
    session.keeping line = cutAtComment (OutsideLiterals line) line := by
  have htext : Text.joinLines (session.pending ++ [line]) = line := by
    rw [h, List.nil_append, Text.joinLines_singleton]
  unfold keeping
  simp only [htext, Nat.sub_self, Nat.zero_add]

theorem keeping_of_newline {session : Session} {line : List Char} (hne : session.pending ≠ [])
    (h : OutsideLiterals (Text.joinLines (session.pending ++ [line]))
      (Text.joinLines session.pending).length) :
    session.keeping line = cutAtComment (OutsideLiterals line) line := by
  have htext : Text.joinLines (session.pending ++ [line]) =
      Text.joinLines session.pending ++ '\n' :: line := by
    rw [Text.joinLines_append hne (List.cons_ne_nil _ _), Text.joinLines_singleton]
  have hstart : (Text.joinLines session.pending ++ '\n' :: line).length - line.length =
      (Text.joinLines session.pending).length + 1 := by
    simp only [List.length_append, List.length_cons]
    omega
  rw [htext] at h
  unfold keeping
  simp only [htext, hstart]
  exact cutAtComment_congr fun i hi => outsideLiterals_append h hi

/-- A session goes on with what stands before the first semicolon of a line outside its own string
literals. Where nothing is pending, or no string goes on into the line, that is what stands before
the first one outside the literals of all that is pending. -/
theorem feed_cuts_comment (session : Session) {line : List Char} (hline : '\n' ∉ line) :
    let kept := cutAtComment (OutsideLiterals line) line
    let text := Text.joinLines (session.pending ++ [kept])
    ((feed line).run session =
      if Text.isBlankText text then (.ok [], { session with pending := [] })
      else if 0 < parenDepth text then
        (.ok [], { session with pending := session.pending ++ [kept] })
      else (run text).run { session with pending := [] }) ∧
    (session.pending = [] ∨ OutsideLiterals (Text.joinLines (session.pending ++ [line]))
        (Text.joinLines session.pending).length →
      kept = session.keeping line) := by
  intro kept text
  have htaking : session.taking line = session.pending ++ [kept] := by
    rw [taking, Text.dropNewlines_of_not_mem hline, stripComment_eq]
  refine ⟨by rw [run_feed, htaking], fun hnewline => ?_⟩
  by_cases hnil : session.pending = []
  · exact (keeping_of_nil hnil line).symm
  · exact (keeping_of_newline hnil (hnewline.resolve_left hnil)).symm

theorem feed_cuts_comment_afterString :
    let session := { start 50 with pending := ["((f \"a;".toList, "b\" c".toList] }
    session.keeping "\"d;\") ; e".toList = "\"d;\") ".toList ∧
    (feed "\"d;\") ; e".toList).run session =
      (.ok [], { session with pending := session.pending ++ ["\"d;\") ".toList] }) := by
  intro session
  have hkeeping : session.keeping "\"d;\") ; e".toList = "\"d;\") ".toList := by decide +kernel
  obtain ⟨hfeed, hkept⟩ := feed_cuts_comment session (by decide : '\n' ∉ "\"d;\") ; e".toList)
  rw [hkept (.inr (by decide +kernel)), hkeeping] at hfeed
  exact ⟨hkeeping, hfeed.trans ((if_neg (by decide +kernel)).trans (if_pos (by decide +kernel)))⟩

/-- Where a string goes on into the line, a semicolon inside it is taken for a comment. -/
theorem feed_cuts_string :
    let session := ((feed "(quote \"a".toList).run (start 50)).2
    session.pending = ["(quote \"a".toList] ∧
    session.keeping "b;c\")".toList = "b;c\")".toList ∧
    (feed "b;c\")".toList).run session =
      (.ok [], { session with pending := ["(quote \"a".toList, "b".toList] }) := by
  intro session
  have hpending : session.pending = ["(quote \"a".toList] := by decide +kernel
  have hkeeping : session.keeping "b;c\")".toList = "b;c\")".toList := by decide +kernel
  exact ⟨hpending, hkeeping, Prod.ext (by decide +kernel) (by decide +kernel)⟩

end Session

end Lisplet
