import Lisplet.Proofs.Descent
import Lisplet.Script
import Mathlib.Data.List.TakeWhile

/-!
Traces of reading: the string literals that were read, and the lists and quotes that were still
open where reading stopped, beside the script that was read.
-/

set_option autoImplicit false

namespace Lisplet

namespace Reader

inductive Takes (pending : List Pending) (offset : Nat) : List Char → Step → Prop
  | ended : Takes pending offset [] (.stop ⟨.error (missing offset pending), ⟨offset, []⟩⟩)
  | opens (rest : List Char) :
    Takes pending offset ('(' :: rest) (.more (.list offset [] :: pending) ⟨offset + 1, rest⟩)
  | quotes (rest : List Char) :
    Takes pending offset ('\'' :: rest) (.more (.quote :: pending) ⟨offset + 1, rest⟩)
  | closes (rest : List Char) {start : Nat} {items : List Value} {outer : List Pending}
    (h : pending = .list start items :: outer) :
    Takes pending offset (')' :: rest)
      (supply (.ofList items.reverse .nil) ⟨offset + 1, rest⟩ outer)
  | closesNone (rest : List Char) :
    Takes pending offset (')' :: rest)
      (.stop ⟨.error (.malformed .unexpectedCloseParen offset), ⟨offset, ')' :: rest⟩⟩)
  | string {text : List Char} (rest : List Char) (h : '"' ∉ text) :
    Takes pending offset ('"' :: (text ++ '"' :: rest))
      (supply (.string (String.ofList text)) ⟨offset + text.length + 2, rest⟩ pending)
  | unterminated {rest : List Char} (h : '"' ∉ rest) :
    Takes pending offset ('"' :: rest)
      (.stop ⟨.error (.malformed .unterminatedString offset), ⟨offset, '"' :: rest⟩⟩)
  | token {c : Char} {tail rest : List Char} (hall : ∀ d ∈ c :: tail, Text.isDelimiter d = false)
    (hstring : c ≠ '"') (hquote : c ≠ '\'') (hrest : Descent.Delimited rest) :
    Takes pending offset (c :: (tail ++ rest))
      (supplyAtom pending
        ⟨(tokenValue c tail).mapError .numeral, ⟨offset + 1 + tail.length, rest⟩⟩)

theorem readString_of_unclosed {rest : List Char} (h : '"' ∉ rest) (offset : Nat) :
    readString offset rest =
      ⟨.error (.malformed .unterminatedString offset), ⟨offset, '"' :: rest⟩⟩ := by
  have hall : ∀ c ∈ rest, (c != '"') = true := by
    intro c hc
    simp only [bne_iff_ne, ne_eq]
    rintro rfl
    exact h hc
  have hdrop : rest.dropWhile (· != '"') = [] := List.dropWhile_eq_nil_iff.mpr hall
  simp [readString, hdrop]

theorem not_blank_of_skipBlanks {cursor : Cursor} {c : Char} {rest : List Char}
    (h : cursor.skipBlanks.rest = c :: rest) : Text.isBlank c = false := by
  have hhead := List.head?_dropWhile_not Text.isBlank cursor.rest
  rw [show cursor.rest.dropWhile Text.isBlank = c :: rest from h] at hhead
  simpa using hhead

theorem takes_readString (pending : List Pending) (offset : Nat) (rest : List Char) :
    Takes pending offset ('"' :: rest) (supplyAtom pending (readString offset rest)) := by
  by_cases hmem : '"' ∈ rest
  · obtain ⟨text, after, rfl, htext⟩ := List.eq_append_cons_of_mem hmem
    rw [readString_of_not_mem htext]
    exact .string after htext
  · rw [readString_of_unclosed hmem]
    exact .unterminated hmem

theorem not_isDelimiter_of_mem_tokenTail {rest : List Char} {d : Char} (h : d ∈ tokenTail rest) :
    Text.isDelimiter d = false := by
  simpa using List.mem_takeWhile_imp h

theorem delimited_afterToken (rest : List Char) : Descent.Delimited (afterToken rest) := by
  intro d hd
  have hhead := List.head?_dropWhile_not (fun d => !Text.isDelimiter d) rest
  rw [show (rest.dropWhile fun d => !Text.isDelimiter d).head? = some d from hd] at hhead
  simpa using hhead

theorem tokenTail_append_afterToken (rest : List Char) : tokenTail rest ++ afterToken rest = rest :=
  List.takeWhile_append_dropWhile

theorem tokenTail_of_delimited {tail rest : List Char}
    (htail : ∀ d ∈ tail, Text.isDelimiter d = false) (hrest : Descent.Delimited rest) :
    tokenTail (tail ++ rest) = tail ∧ afterToken (tail ++ rest) = rest := by
  have hall : ∀ d ∈ tail, (!Text.isDelimiter d) = true := by
    intro d hd
    simp [htail d hd]
  unfold tokenTail afterToken
  rw [List.takeWhile_append_of_pos hall, List.dropWhile_append_of_pos hall]
  cases rest with
  | nil => simp
  | cons d rest =>
    have hd : Text.isDelimiter d = true := hrest d rfl
    simp [hd]

theorem takes_readToken {c : Char} (hdelimiter : Text.isDelimiter c = false) (hstring : c ≠ '"')
    (hquote : c ≠ '\'') (pending : List Pending) (offset : Nat) (rest : List Char) :
    Takes pending offset (c :: rest) (supplyAtom pending (readToken offset c rest)) := by
  have hall : ∀ d ∈ c :: tokenTail rest, Text.isDelimiter d = false := by
    intro d hd
    rcases List.mem_cons.mp hd with rfl | hd
    · exact hdelimiter
    · exact not_isDelimiter_of_mem_tokenTail hd
  have htoken := @Takes.token pending offset c _ _ hall hstring hquote (delimited_afterToken rest)
  rwa [tokenTail_append_afterToken] at htoken

theorem takes_closeList (pending : List Pending) (offset : Nat) (rest : List Char) :
    Takes pending offset (')' :: rest) (closeList ⟨offset, ')' :: rest⟩ rest pending) := by
  cases pending with
  | nil => exact .closesNone rest
  | cons p outer =>
    cases p with
    | list start items => exact .closes rest rfl
    | quote => exact .closesNone rest

theorem takes_step (pending : List Pending) (cursor : Cursor) :
    Takes pending cursor.skipBlanks.offset cursor.skipBlanks.rest (step pending cursor) := by
  have hblank : ∀ c rest, cursor.skipBlanks.rest = c :: rest → Text.isBlank c = false :=
    fun _ _ h => not_blank_of_skipBlanks h
  unfold step
  rcases hstart : cursor.skipBlanks with ⟨offset, text⟩
  rw [hstart] at hblank
  cases text with
  | nil => exact .ended
  | cons c rest =>
    simp only [take, beq_iff_eq]
    by_cases hopen : c = '('
    · subst hopen
      exact .opens rest
    by_cases hquote : c = '\''
    · subst hquote
      exact .quotes rest
    by_cases hclose : c = ')'
    · subst hclose
      exact takes_closeList pending offset rest
    simp only [hopen, hquote, hclose, ↓reduceIte, readAtom, beq_iff_eq]
    by_cases hstring : c = '"'
    · subst hstring
      exact takes_readString pending offset rest
    · have hdelimiter : Text.isDelimiter c = false := by
        simp [Text.isDelimiter, hblank c rest rfl, hopen, hclose]
      simp only [hstring, ↓reduceIte]
      exact takes_readToken hdelimiter hstring hquote pending offset rest

def openLists : List Pending → Nat
  | [] => 0
  | .quote :: pending => openLists pending
  | .list _ _ :: pending => openLists pending + 1

theorem supply_cases (v : Value) (after : Cursor) (pending : List Pending) :
    (∃ w, supply v after pending = .stop ⟨.ok w, after⟩ ∧ openLists pending = 0) ∨
      ∃ start items outer, supply v after pending = .more (.list start items :: outer) after ∧
        openLists pending = openLists outer + 1 := by
  induction pending generalizing v with
  | nil => exact .inl ⟨v, rfl, rfl⟩
  | cons p pending ih =>
    cases p with
    | list start items => exact .inr ⟨start, v :: items, pending, rfl, rfl⟩
    | quote => exact ih v.quotation

theorem supply_ne_error (v : Value) (after place : Cursor) (pending : List Pending)
    (fault : ReadFault) : supply v after pending ≠ .stop ⟨.error fault, place⟩ := by
  rcases supply_cases v after pending with ⟨w, h, -⟩ | ⟨start, items, outer, h, -⟩ <;> simp [h]

def Step.cursor : Step → Cursor
  | .stop reading => reading.cursor
  | .more _ cursor => cursor

theorem cursor_supply (v : Value) (after : Cursor) (pending : List Pending) :
    (supply v after pending).cursor = after := by
  rcases supply_cases v after pending with ⟨w, h, -⟩ | ⟨start, items, outer, h, -⟩ <;> rw [h] <;>
    rfl

theorem cursor_supplyAtom (pending : List Pending) (r : Reading) :
    (supplyAtom pending r).cursor = r.cursor := by
  rcases r with ⟨result, after⟩
  cases result with
  | ok v => exact cursor_supply v after pending
  | error fault => rfl

theorem Takes.ne_nil {pending pending' : List Pending} {offset : Nat} {text : List Char}
    {s : Step} {after : Cursor} (h : Takes pending offset text s)
    (hstep : s = .more pending' after) : pending' ≠ [] := by
  have hsupply : ∀ v place outer, supply v place outer ≠ .more [] after := by
    intro v place outer
    rcases supply_cases v place outer with ⟨w, h, -⟩ | ⟨start, items, rest, h, -⟩ <;> simp [h]
  rintro rfl
  cases h with
  | closes => exact hsupply _ _ _ hstep
  | string => exact hsupply _ _ _ hstep
  | @token c tail =>
    cases hvalue : tokenValue c tail with
    | ok v =>
      rw [hvalue] at hstep
      exact hsupply _ _ _ hstep
    | error fault =>
      rw [hvalue] at hstep
      cases hstep
  | _ => cases hstep

/-- How reading can stop, with what is open then and the place where it stops. -/
inductive Halted : List Pending → Option ReadFault → Cursor → Prop
  | done (offset : Nat) : Halted [] none ⟨offset, []⟩
  | missing (pending : List Pending) (offset : Nat) :
    Halted pending (some (missing offset pending)) ⟨offset, []⟩
  | string (pending : List Pending) (offset : Nat) {rest : List Char} (h : '"' ∉ rest) :
    Halted pending (some (.malformed .unterminatedString offset)) ⟨offset, '"' :: rest⟩
  | close (pending : List Pending) (offset : Nat) (rest : List Char) :
    Halted pending (some (.malformed .unexpectedCloseParen offset)) ⟨offset, ')' :: rest⟩
  | numeral (pending : List Pending) (fault : NumeralFault) (place : Cursor) :
    Halted pending (some (.numeral fault)) place

theorem Takes.halted {pending : List Pending} {offset : Nat} {text : List Char} {s : Step}
    {fault : ReadFault} {place : Cursor} (h : Takes pending offset text s)
    (hstep : s = .stop ⟨.error fault, place⟩) : Halted pending (some fault) place := by
  cases h with
  | ended =>
    cases hstep
    exact .missing pending offset
  | closes => exact absurd hstep (supply_ne_error _ _ _ _ _)
  | closesNone rest =>
    cases hstep
    exact .close pending offset rest
  | string => exact absurd hstep (supply_ne_error _ _ _ _ _)
  | unterminated h =>
    cases hstep
    exact .string pending offset h
  | @token c tail =>
    cases hvalue : tokenValue c tail with
    | ok v =>
      rw [hvalue] at hstep
      exact absurd hstep (supply_ne_error _ _ _ _ _)
    | error fault =>
      rw [hvalue] at hstep
      cases hstep
      exact .numeral pending fault _
  | _ => cases hstep

end Reader

/-- Where a string literal stands, from its opening quote to right after its closing one. -/
structure Literal where
  start : Nat
  stop : Nat
  deriving DecidableEq

def Literal.Covers (literal : Literal) (offset : Nat) : Prop :=
  literal.start ≤ offset ∧ offset < literal.stop

/-- The string literal that starts here, if one does and has an end. -/
def Reader.literal? (start : Cursor) : Option Literal :=
  match start.rest with
  | '"' :: rest =>
    match readString start.offset rest with
    | ⟨.ok _, after⟩ => some ⟨start.offset, after.offset⟩
    | ⟨.error _, _⟩ => none
  | _ => none

/-- A script, with the string literals that were read, oldest first, what was still open where
reading stopped, innermost first, and the text that was left there. -/
structure Trace extends Script where
  literals : List Literal
  pending : List Reader.Pending
  rest : List Char

namespace Trace

def halt (pending : List Reader.Pending) (fault : Option ReadFault) (place : Cursor) : Trace :=
  { items := [], fault, stop := place.offset, literals := [], pending, rest := place.rest }

def place (trace : Trace) : Cursor := ⟨trace.stop, trace.rest⟩

def withLiteral (literal : Option Literal) (trace : Trace) : Trace :=
  { trace with literals := literal.toList ++ trace.literals }

def withItem (item : ScriptItem) (trace : Trace) : Trace :=
  { trace with items := item :: trace.items }

def readFrom (pending : List Reader.Pending) (cursor : Cursor) : Trace :=
  if pending.isEmpty && cursor.skipBlanks.rest.isEmpty then halt [] none cursor.skipBlanks
  else
    match _h : Reader.step pending cursor with
    | .stop ⟨.error fault, after⟩ =>
      withLiteral (Reader.literal? cursor.skipBlanks) (halt pending (some fault) after)
    | .stop ⟨.ok v, after⟩ =>
      withLiteral (Reader.literal? cursor.skipBlanks)
        ((readFrom [] after).withItem ⟨v, after.offset⟩)
    | .more pending' after =>
      withLiteral (Reader.literal? cursor.skipBlanks) (readFrom pending' after)
termination_by cursor.rest.length
decreasing_by
  all_goals exact @Reader.length_step pending cursor _ (by rw [_h]; rfl)

def ofText (text : List Char) : Trace := readFrom [] (Cursor.ofText text)

end Trace

theorem Cursor.skipBlanks_skipBlanks (cursor : Cursor) :
    cursor.skipBlanks.skipBlanks = cursor.skipBlanks := by
  rcases h : cursor.skipBlanks with ⟨offset, text⟩
  cases text with
  | nil => rfl
  | cons c rest =>
    have hblank : Text.isBlank c = false := Reader.not_blank_of_skipBlanks (by rw [h])
    exact Descent.skipBlanks_of_not_blank hblank offset rest

theorem Cursor.read_skipBlanks (cursor : Cursor) : cursor.skipBlanks.read = cursor.read := by
  have hcongr := Descent.expression_congr cursor.skipBlanks_skipBlanks
  unfold Cursor.read
  rw [Descent.readFrom_eq_descend, Descent.readFrom_eq_descend]
  exact hcongr

def Script.ofReading : Reading → Script
  | ⟨.ok v, after⟩ =>
    { readFrom after with items := ⟨v, after.offset⟩ :: (readFrom after).items }
  | ⟨.error fault, after⟩ => ⟨[], some fault, after.offset⟩

theorem Script.readFrom_eq (cursor : Cursor) :
    readFrom cursor =
      if cursor.skipBlanks.rest.isEmpty then ⟨[], none, cursor.skipBlanks.offset⟩
      else ofReading cursor.read := by
  rw [readFrom, ← cursor.read_skipBlanks]
  split
  · rfl
  · split <;> rename_i h <;> rw [h] <;> rfl

namespace Trace

theorem toScript_readFrom (pending : List Reader.Pending) (cursor : Cursor) :
    (readFrom pending cursor).toScript =
      if pending.isEmpty && cursor.skipBlanks.rest.isEmpty then
        ⟨[], none, cursor.skipBlanks.offset⟩
      else Script.ofReading (Reader.readFrom pending cursor) := by
  fun_induction readFrom pending cursor with
  | case1 pending cursor hend => simp [hend, halt]
  | case2 pending cursor hend fault after hstep =>
    rw [if_neg hend, Reader.readFrom_of_stop hstep]
    rfl
  | case3 pending cursor hend v after hstep ih =>
    rw [if_neg hend, Reader.readFrom_of_stop hstep]
    have hscript : (readFrom [] after).toScript = Script.readFrom after := by
      rw [ih, Script.readFrom_eq]
      simp [Cursor.read]
    simp [withLiteral, withItem, Script.ofReading, hscript]
  | case4 pending cursor hend pending' after hstep ih =>
    have hne := (Reader.takes_step pending cursor).ne_nil hstep
    rw [if_neg hend, Reader.readFrom_of_more hstep]
    simpa [withLiteral, hne] using ih

theorem toScript_ofText (text : List Char) : (ofText text).toScript = Script.ofText text := by
  rw [ofText, toScript_readFrom, Script.ofText, Script.readFrom_eq]
  simp [Cursor.read]

theorem halted_readFrom (pending : List Reader.Pending) (cursor : Cursor) :
    Reader.Halted (readFrom pending cursor).pending (readFrom pending cursor).fault
      (readFrom pending cursor).place := by
  fun_induction readFrom pending cursor with
  | case1 pending cursor hend =>
    have hrest : cursor.skipBlanks.rest = [] := by
      simp only [Bool.and_eq_true, List.isEmpty_iff] at hend
      exact hend.2
    simp only [halt, place, hrest]
    exact .done _
  | case2 pending cursor hend fault after hstep =>
    exact (Reader.takes_step pending cursor).halted hstep
  | case3 pending cursor hend v after hstep ih => exact ih
  | case4 pending cursor hend pending' after hstep ih => exact ih

end Trace

end Lisplet
