import Lisplet.Numeral
import Lisplet.Text.Blank

/-!
Reading expressions. An expression is an atom, a list in parentheses, or a quote mark before an
expression. The reader moves a cursor through the text in steps, each of which takes at least one
character; the lists and quotes that are still open wait on a stack, so an expression may nest as
deep as memory allows.
-/

set_option autoImplicit false

namespace Lisplet

/-- A place in a text: how many characters stand before it, and those that are left. -/
structure Cursor where
  offset : Nat
  rest : List Char
  deriving DecidableEq

namespace Cursor

def ofText (text : List Char) : Cursor := ⟨0, text⟩

def skipBlanks (c : Cursor) : Cursor :=
  ⟨c.offset + (c.rest.takeWhile Text.isBlank).length, c.rest.dropWhile Text.isBlank⟩

end Cursor

theorem length_dropWhile_le (p : Char → Bool) (cs : List Char) :
    (cs.dropWhile p).length ≤ cs.length := (List.dropWhile_suffix p).length_le

theorem Cursor.length_skipBlanks_le (c : Cursor) : c.skipBlanks.rest.length ≤ c.rest.length :=
  length_dropWhile_le _ _

inductive ReadFault where
  | malformed (sentinel : Sentinel) (position : Nat)
  | numeral (fault : NumeralFault)
  deriving DecidableEq

def ReadFault.message : ReadFault → String
  | .malformed sentinel position => sentinel.name ++ " at offset " ++ toString position
  | .numeral fault => fault.message

structure Reading where
  result : Except ReadFault Value
  cursor : Cursor

namespace Reader

/-- What waits for an expression to be completed: a list with its elements so far, newest
first, or a quote. -/
inductive Pending where
  | list (start : Nat) (items : List Value)
  | quote
  deriving DecidableEq

inductive Step where
  | stop (reading : Reading)
  | more (pending : List Pending) (cursor : Cursor)

/-- At the end of the text an open list is reported where it started. -/
def missing (position : Nat) : List Pending → ReadFault
  | .list start _ :: _ => .malformed .unterminatedList start
  | _ => .malformed .unexpectedEnd position

def supply (v : Value) (cursor : Cursor) : List Pending → Step
  | [] => .stop ⟨.ok v, cursor⟩
  | .quote :: pending => supply v.quotation cursor pending
  | .list start items :: pending => .more (.list start (v :: items) :: pending) cursor

def startsNumeral (c : Char) : Bool := Text.isAsciiDigit c || c == '-' || c == '.'

def readString (offset : Nat) (rest : List Char) : Reading :=
  let text := rest.takeWhile (· != '"')
  match rest.dropWhile (· != '"') with
  | _ :: after => ⟨.ok (.string (String.ofList text)), ⟨offset + text.length + 2, after⟩⟩
  | [] => ⟨.error (.malformed .unterminatedString offset), ⟨offset, '"' :: rest⟩⟩

def tokenTail (rest : List Char) : List Char := rest.takeWhile fun d => !Text.isDelimiter d

def afterToken (rest : List Char) : List Char := rest.dropWhile fun d => !Text.isDelimiter d

/-- A token is a number if it reads completely as a numeral, and a symbol otherwise. -/
def tokenValue (c : Char) (tail : List Char) : Except NumeralFault Value :=
  match if startsNumeral c then Value.ofNumeral? (c :: tail) else none with
  | some number => number
  | none => .ok (.symbol (String.ofList (c :: tail)))

def readToken (offset : Nat) (c : Char) (rest : List Char) : Reading :=
  ⟨(tokenValue c (tokenTail rest)).mapError .numeral,
   ⟨offset + 1 + (tokenTail rest).length, afterToken rest⟩⟩

def readAtom (offset : Nat) (c : Char) (rest : List Char) : Reading :=
  if c == '"' then readString offset rest else readToken offset c rest

/-- Closes the innermost list; a parenthesis that closes none is reported where it stands. -/
def closeList (start : Cursor) (rest : List Char) : List Pending → Step
  | .list _ items :: pending =>
    supply (.ofList items.reverse .nil) ⟨start.offset + 1, rest⟩ pending
  | _ => .stop ⟨.error (.malformed .unexpectedCloseParen start.offset), start⟩

def supplyAtom (pending : List Pending) : Reading → Step
  | ⟨.ok v, after⟩ => supply v after pending
  | ⟨.error fault, after⟩ => .stop ⟨.error fault, after⟩

def take (pending : List Pending) (start : Cursor) (c : Char) (rest : List Char) : Step :=
  if c == '(' then .more (.list start.offset [] :: pending) ⟨start.offset + 1, rest⟩
  else if c == '\'' then .more (.quote :: pending) ⟨start.offset + 1, rest⟩
  else if c == ')' then closeList start rest pending
  else supplyAtom pending (readAtom start.offset c rest)

def step (pending : List Pending) (cursor : Cursor) : Step :=
  match cursor.skipBlanks.rest with
  | [] => .stop ⟨.error (missing cursor.skipBlanks.offset pending), cursor.skipBlanks⟩
  | c :: rest => take pending cursor.skipBlanks c rest

def Step.place? : Step → Option Cursor
  | .stop ⟨.ok _, cursor⟩ => some cursor
  | .stop ⟨.error _, _⟩ => none
  | .more _ cursor => some cursor

theorem place?_supply (v : Value) (cursor : Cursor) (pending : List Pending) :
    (supply v cursor pending).place? = some cursor := by
  induction pending generalizing v with
  | nil => rfl
  | cons p pending ih =>
    cases p with
    | list start items => rfl
    | quote => exact ih _

theorem length_readAtom {offset : Nat} {c : Char} {rest : List Char} {v : Value} {after : Cursor}
    (h : readAtom offset c rest = ⟨.ok v, after⟩) : after.rest.length ≤ rest.length := by
  unfold readAtom at h
  split at h
  · have hle := length_dropWhile_le (· != '"') rest
    unfold readString at h
    dsimp only at h
    split at h
    · rename_i d tail heq
      rw [heq] at hle
      cases h
      simp only [List.length_cons] at hle
      exact Nat.le_of_succ_le hle
    · cases h
  · unfold readToken at h
    cases (Reading.mk.inj h).2
    exact length_dropWhile_le _ _

theorem length_take {pending : List Pending} {start : Cursor} {c : Char} {rest : List Char}
    {place : Cursor} (h : (take pending start c rest).place? = some place) :
    place.rest.length ≤ rest.length := by
  unfold take at h
  split at h
  · cases h; exact Nat.le_refl _
  split at h
  · cases h; exact Nat.le_refl _
  split at h
  · unfold closeList at h
    split at h
    · rw [place?_supply] at h
      cases h; exact Nat.le_refl _
    · cases h
  · cases hatom : readAtom start.offset c rest with
    | mk result after =>
      rw [hatom] at h
      cases result with
      | error fault => cases h
      | ok v =>
        simp only [supplyAtom, place?_supply] at h
        cases h
        exact length_readAtom hatom

theorem length_step {pending : List Pending} {cursor place : Cursor}
    (h : (step pending cursor).place? = some place) :
    place.rest.length < cursor.rest.length := by
  have hskip := cursor.length_skipBlanks_le
  unfold step at h
  split at h
  · cases h
  · rename_i c rest heq
    rw [heq] at hskip
    exact Nat.lt_of_le_of_lt (length_take h) hskip

def readFrom (pending : List Pending) (cursor : Cursor) : Reading :=
  match _h : step pending cursor with
  | .stop reading => reading
  | .more pending' cursor' => readFrom pending' cursor'
termination_by cursor.rest.length
decreasing_by exact @length_step pending cursor _ (by rw [_h]; rfl)

theorem readFrom_of_stop {pending : List Pending} {cursor : Cursor} {reading : Reading}
    (h : step pending cursor = .stop reading) : readFrom pending cursor = reading := by
  rw [readFrom]
  split
  · rename_i heq; rw [h] at heq; cases heq; rfl
  · rename_i heq; rw [h] at heq; cases heq

theorem readFrom_of_more {pending pending' : List Pending} {cursor cursor' : Cursor}
    (h : step pending cursor = .more pending' cursor') :
    readFrom pending cursor = readFrom pending' cursor' := by
  rw [readFrom]
  split
  · rename_i heq; rw [h] at heq; cases heq
  · rename_i heq; rw [h] at heq; cases heq; rfl

theorem length_readFrom {pending : List Pending} {cursor after : Cursor} {v : Value}
    (h : readFrom pending cursor = ⟨.ok v, after⟩) : after.rest.length < cursor.rest.length := by
  fun_induction readFrom pending cursor with
  | case1 pending cursor reading hstep =>
    exact @length_step pending cursor _ (by rw [hstep, h]; rfl)
  | case2 pending cursor pending' cursor' hstep ih =>
    have hlt := @length_step pending cursor _ (by rw [hstep]; rfl)
    exact Nat.lt_trans (ih h) hlt

end Reader

def Cursor.read (cursor : Cursor) : Reading := Reader.readFrom [] cursor

theorem Cursor.length_read {cursor after : Cursor} {v : Value}
    (h : cursor.read = ⟨.ok v, after⟩) : after.rest.length < cursor.rest.length :=
  Reader.length_readFrom h

end Lisplet
