/-!
Sentinels: the names that stand for failures inside the language. A failed operation answers
with the symbol of its sentinel, which then travels like any other value.
-/

set_option autoImplicit false

namespace Lisplet

inductive Sentinel where
  | unterminatedString
  | unexpectedCloseParen
  | unterminatedList
  | unexpectedEnd
  | notANumber
  | notAPair
  | notASymbol
  | typeMismatch
  | listEquality
  | arityMismatch
  | divideByZero
  | noBranchMatched
  deriving DecidableEq, Repr

namespace Sentinel

def name : Sentinel → String
  | .unterminatedString => "UnterminatedString"
  | .unexpectedCloseParen => "UnexpectedCloseParen"
  | .unterminatedList => "UnterminatedList"
  | .unexpectedEnd => "UnexpectedEOF"
  | .notANumber => "NotANumber"
  | .notAPair => "NotAPair"
  | .notASymbol => "NotASymbol"
  | .typeMismatch => "TypeMismatch"
  | .listEquality => "ListEquality"
  | .arityMismatch => "ArityMismatch"
  | .divideByZero => "DivideByZero"
  | .noBranchMatched => "NoBranchMatched"

def all : List Sentinel :=
  [.unterminatedString, .unexpectedCloseParen, .unterminatedList, .unexpectedEnd, .notANumber,
   .notAPair, .notASymbol, .typeMismatch, .listEquality, .arityMismatch, .divideByZero,
   .noBranchMatched]

theorem mem_all (s : Sentinel) : s ∈ all := by cases s <;> decide

theorem name_injective {s t : Sentinel} (h : s.name = t.name) : s = t := by
  revert h
  cases s <;> cases t <;> simp [name]

def ofName? (name : String) : Option Sentinel := all.find? fun s => s.name == name

theorem ofName?_name (s : Sentinel) : ofName? s.name = some s := by cases s <;> decide

end Sentinel

end Lisplet
