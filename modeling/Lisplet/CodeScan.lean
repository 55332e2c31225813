import Lisplet.Text.Blank

/-!
Telling code from string literals. A double quote opens a string only where a token starts;
inside a symbol it is a character like others. Comments and parentheses count only in code.
-/

set_option autoImplicit false

namespace Lisplet

namespace CodeScan

/-- Where a scan stands: before a token, inside one, or inside a string. -/
inductive Place where
  | boundary
  | token
  | string
  deriving DecidableEq, Repr

def Place.next (place : Place) (c : Char) : Place :=
  match place with
  | .string => if c == '"' then .boundary else .string
  | .boundary =>
    if c == '"' then .string
    else if Text.isDelimiter c || c == '\'' then .boundary
    else .token
  | .token => if Text.isDelimiter c then .boundary else .token

def Place.isCode (place : Place) (c : Char) : Bool :=
  match place with
  | .string => false
  | .boundary => c != '"'
  | .token => true

def Place.after (place : Place) (text : List Char) : Place := text.foldl Place.next place

/-- The characters outside string literals with their offsets, after those already found, which
stand newest first. -/
def codeFrom (found : List (Nat × Char)) (place : Place) (offset : Nat) :
    List Char → List (Nat × Char)
  | [] => found.reverse
  | c :: rest =>
    codeFrom (if place.isCode c then (offset, c) :: found else found) (place.next c) (offset + 1)
      rest

def codeChars (text : List Char) : List (Nat × Char) := codeFrom [] .boundary 0 text

theorem codeFrom_eq (found : List (Nat × Char)) (place : Place) (offset : Nat)
    (text : List Char) :
    codeFrom found place offset text = found.reverse ++ codeFrom [] place offset text := by
  induction text generalizing found place offset with
  | nil => simp [codeFrom]
  | cons c rest ih =>
    simp only [codeFrom]
    rw [ih]
    conv => rhs; rw [ih]
    split <;> simp

theorem codeFrom_append (place : Place) (offset : Nat) (a b : List Char) :
    codeFrom [] place offset (a ++ b) =
      codeFrom [] place offset a ++ codeFrom [] (place.after a) (offset + a.length) b := by
  induction a generalizing place offset with
  | nil => simp [codeFrom, Place.after]
  | cons c rest ih =>
    simp only [List.cons_append, codeFrom]
    rw [codeFrom_eq, ih]
    conv => rhs; rw [codeFrom_eq]
    simp [Place.after, Nat.add_comm, Nat.add_left_comm]

end CodeScan

open CodeScan

def stripComment (line : List Char) : List Char :=
  match (codeChars line).find? fun entry => entry.2 == ';' with
  | some entry => line.take entry.1
  | none => line

def parenWeight (c : Char) : Int :=
  if c == '(' then 1 else if c == ')' then -1 else 0

/-- Opening parentheses less closing ones, outside string literals. -/
def parenDepth (text : List Char) : Int :=
  (codeChars text).foldl (fun depth entry => depth + parenWeight entry.2) 0

end Lisplet
