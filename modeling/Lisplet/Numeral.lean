import Lisplet.Text.DecimalDigit
import Lisplet.Text.Quoted
import Lisplet.Value.Number

/-!
Numerals: the tokens that denote numbers. A numeral is decimal, with an exponent of ten, or
hexadecimal, with an exponent of two, or the name of an infinity or of no number. Letters count
in either case, and decimal digits in every script. Two shapes are taken for numerals and then
denote nothing: a name spelled with a dotless or a dotted capital i, and most hexadecimal numerals
whose exponent has digits beyond ASCII.
-/

set_option autoImplicit false

namespace Lisplet

inductive Numeral where
  | scaled (negative : Bool) (significand base : Nat) (exponent : Int)
  | infinity (negative : Bool)
  | notANumber
  deriving DecidableEq

inductive NumeralFault where
  | notDecimal (token : String)
  | notHexadecimal
  deriving DecidableEq

def NumeralFault.message : NumeralFault → String
  | .notDecimal token => "could not convert string to float: " ++ Text.quoted token
  | .notHexadecimal => "invalid hexadecimal floating-point string"

namespace Numeral

def number : Numeral → Binary64
  | .scaled negative significand base exponent => .ofScaled negative significand base exponent
  | .infinity negative => .infinite negative
  | .notANumber => .nan

/-- Whether a character spells this small letter, in either case. The letter i has a dotless
and a dotted capital form too. -/
def spells (letter c : Char) : Bool :=
  c == letter || c == letter.toUpper || (letter == 'i' && (c == 'İ' || c == 'ı'))

def spellsWord : List Char → List Char → Bool
  | [], [] => true
  | letter :: word, c :: cs => spells letter c && spellsWord word cs
  | _, _ => false

def hexValue? (c : Char) : Option Nat :=
  let n := c.toNat
  if 0x30 ≤ n && n ≤ 0x39 then some (n - 0x30)
  else if 0x41 ≤ n && n ≤ 0x46 then some (n - 0x37)
  else if 0x61 ≤ n && n ≤ 0x66 then some (n - 0x57)
  else none

structure Mantissa where
  whole : List Char
  fraction : List Char
  rest : List Char

/-- Reads digits with at most one point among, before or after them; none without a digit. -/
def mantissa? (isDigit : Char → Bool) (cs : List Char) : Option Mantissa :=
  let (whole, rest) := cs.span isDigit
  let found : Mantissa :=
    match rest with
    | '.' :: tail =>
      let (fraction, after) := tail.span isDigit
      ⟨whole, fraction, after⟩
    | _ => ⟨whole, [], rest⟩
  if found.whole.isEmpty && found.fraction.isEmpty then none else some found

structure Exponent where
  negative : Bool
  digits : List Char

def Exponent.value (e : Exponent) : Int :=
  Binary64.withSign e.negative (Text.decimalNumber (Text.digitValues e.digits))

def exponent? (mark : Char) : List Char → Option Exponent
  | [] => some ⟨false, []⟩
  | c :: rest =>
    if spells mark c then
      let (negative, digits) : Bool × List Char :=
        match rest with
        | '+' :: digits => (false, digits)
        | '-' :: digits => (true, digits)
        | digits => (false, digits)
      if !digits.isEmpty && digits.all Text.isDecimalDigit then some ⟨negative, digits⟩ else none
    else none

def decimal? (negative : Bool) (body : List Char) : Option Numeral :=
  match mantissa? Text.isDecimalDigit body with
  | none => none
  | some m =>
    match exponent? 'e' m.rest with
    | none => none
    | some e =>
      some (.scaled negative (Text.decimalNumber (Text.digitValues (m.whole ++ m.fraction))) 10
        (e.value - m.fraction.length))

def hexNumber (cs : List Char) : Nat :=
  (cs.filterMap hexValue?).foldl (fun n d => 16 * n + d) 0

def scaledByTwo (negative : Bool) (m : Mantissa) (e : Exponent) : Numeral :=
  .scaled negative (hexNumber (m.whole ++ m.fraction)) 2 (e.value - 4 * m.fraction.length)

/-- Reads what follows the mark of a hexadecimal numeral. Only the digits of its exponent up to
the first one beyond ASCII count. More digits are a fault, unless the number is too great
already. -/
def hexadecimal? (negative : Bool) (body : List Char) : Option (Except NumeralFault Numeral) :=
  match mantissa? (fun c => (hexValue? c).isSome) body with
  | none => none
  | some m =>
    match exponent? 'p' m.rest with
    | none => none
    | some e =>
      let counted := e.digits.takeWhile Text.isAsciiDigit
      let numeral := scaledByTwo negative m { e with digits := counted }
      if e.digits.all Text.isAsciiDigit then some (.ok numeral)
      else if !counted.isEmpty && numeral.number == .infinite negative then
        some (.ok (.infinity negative))
      else some (.error .notHexadecimal)

def named? (negative : Bool) (body : List Char) : Option Numeral :=
  if spellsWord "inf".toList body || spellsWord "infinity".toList body then
    some (.infinity negative)
  else if spellsWord "nan".toList body then some .notANumber
  else none

def unsigned? (token : List Char) (negative : Bool) (body : List Char) :
    Option (Except NumeralFault Numeral) :=
  match body with
  | '0' :: 'x' :: rest | '0' :: 'X' :: rest => hexadecimal? negative rest
  | _ =>
    match decimal? negative body with
    | some numeral => some (.ok numeral)
    | none =>
      match named? negative body with
      | some numeral =>
        if body.all fun c => c.toNat < 0x80 then some (.ok numeral)
        else some (.error (.notDecimal (String.ofList token)))
      | none => none

/-- All of a token as a numeral, if it has the shape of one. -/
def read? (token : List Char) : Option (Except NumeralFault Numeral) :=
  match token with
  | '-' :: rest => unsigned? token true rest
  | _ => unsigned? token false token

end Numeral

def Value.ofNumeral? (token : List Char) : Option (Except NumeralFault Value) :=
  match Numeral.read? token with
  | none => none
  | some (.error fault) => some (.error fault)
  | some (.ok numeral) => some (.ok (.ofNumber numeral.number))

end Lisplet
