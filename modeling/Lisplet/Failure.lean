import Lisplet.Numeral
import Lisplet.Value.Description

/-!
Failures: what stops a program from outside the language. Unlike a sentinel, a failure is no
value, and nothing in the language can see it.
-/

set_option autoImplicit false

namespace Lisplet

inductive Failure where
  | numeral (fault : NumeralFault)
  | unbindable (name : Value)
  | tooDeep
  deriving DecidableEq

def Failure.message : Failure → String
  | .numeral fault => fault.message
  | .unbindable name => "Cannot bind non-symbol " ++ name.description
  | .tooDeep => "evaluation nests too deep"

end Lisplet
