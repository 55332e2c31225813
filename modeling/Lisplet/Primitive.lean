import Lisplet.Binary64.Arithmetic
import Lisplet.Value.Number

/-!
Primitives: the operations on values that are already computed. A wrong operand gives a
sentinel.
-/

set_option autoImplicit false

namespace Lisplet

namespace Value

def arithmetic (operation : Binary64 → Binary64 → Binary64) (a b : Value) : Value :=
  match a.number?, b.number? with
  | some x, some y => ofNumber (operation x y)
  | _, _ => Sentinel.notANumber.value

def add : Value → Value → Value := arithmetic Binary64.add
def sub : Value → Value → Value := arithmetic Binary64.sub
def mul : Value → Value → Value := arithmetic Binary64.mul

/-- Both zeros are refused as divisors. -/
def div (a b : Value) : Value :=
  match a.number?, b.number? with
  | some x, some y => if y.isZero then Sentinel.divideByZero.value else ofNumber (x.div y)
  | _, _ => Sentinel.notANumber.value

/-- The remainder of the integer parts; it has the sign of the dividend. -/
def mod (a b : Value) : Value :=
  match a.number?, b.number? with
  | some x, some y =>
    match x.toLong?, y.toLong? with
    | some m, some n =>
      if n = 0 then Sentinel.divideByZero.value else .long (m.tmod n)
    | _, _ => Sentinel.notANumber.value
  | _, _ => Sentinel.notANumber.value

def comparison (test : Binary64 → Binary64 → Bool) (a b : Value) : Value :=
  match a.number?, b.number? with
  | some x, some y => ofBool (test x y)
  | _, _ => Sentinel.notANumber.value

def lt : Value → Value → Value := comparison Binary64.lt
def gt : Value → Value → Value := comparison fun x y => y.lt x
def lte : Value → Value → Value := comparison Binary64.le
def gte : Value → Value → Value := comparison fun x y => y.le x

/-- Equality of atoms: numbers by their exact values, symbols and strings by their texts. Lists
are not comparable, and neither are atoms of different kinds. -/
def eq : Value → Value → Value
  | .long m, .long n => ofBool (m == n)
  | .long m, .double y => ofBool (y.isInt m)
  | .double x, .long n => ofBool (x.isInt n)
  | .double x, .double y => ofBool (x.eq y)
  | .symbol a, .symbol b => ofBool (a == b)
  | .string a, .string b => ofBool (a == b)
  | a, b =>
    if a.isList && b.isList then Sentinel.listEquality.value else Sentinel.typeMismatch.value

end Value

inductive Unary where
  | car
  | cdr
  | not
  | isNil
  | isSymbol
  | isNumber
  | isString
  | isList
  deriving DecidableEq, Repr

inductive Binary where
  | cons
  | add
  | sub
  | mul
  | div
  | mod
  | lt
  | gt
  | lte
  | gte
  | eq
  deriving DecidableEq, Repr

def Unary.apply : Unary → Value → Value
  | .car, v => v.car
  | .cdr, v => v.cdr
  | .not, v | .isNil, v => .ofBool v.isNil
  | .isSymbol, v => .ofBool v.isSymbol
  | .isNumber, v => .ofBool v.isNumber
  | .isString, v => .ofBool v.isString
  | .isList, v => .ofBool v.isList

def Binary.apply : Binary → Value → Value → Value
  | .cons => .pair
  | .add => .add
  | .sub => .sub
  | .mul => .mul
  | .div => .div
  | .mod => .mod
  | .lt => .lt
  | .gt => .gt
  | .lte => .lte
  | .gte => .gte
  | .eq => .eq

end Lisplet
