import Lisplet.Binary64.Fixed
import Lisplet.Value

/-!
Printed text. A chain of pairs prints as a list, with a point before a tail that is not `nil`;
a closure prints as the expression that makes it. What is still to be printed waits on a list of
parts, so a value may nest as deep as memory allows.
-/

set_option autoImplicit false

namespace Lisplet

def Value.atomText : Value → String
  | .nil => "()"
  | .long n => toString n
  | .double x => x.fixedText 6
  | .symbol name => name
  | .string text => "\"" ++ text ++ "\""
  | .pair _ _ | .closure _ _ _ => ""

namespace Printer

/-- What is still to be printed: a text, a value, or what follows an element of a chain. -/
inductive Part where
  | text (s : String)
  | value (v : Value)
  | rest (v : Value)

def weight : Value → Nat
  | .pair head tail => weight head + weight tail + 5
  | .closure params body _ => weight params + weight body + 4
  | _ => 1

def Part.weight : Part → Nat
  | .text _ => 1
  | .value v => Printer.weight v
  | .rest v => Printer.weight v + 3

def totalWeight : List Part → Nat
  | [] => 0
  | part :: parts => part.weight + totalWeight parts

def print (out : String) : List Part → String
  | [] => out
  | .text s :: parts => print (out ++ s) parts
  | .value (.pair head tail) :: parts =>
    print (out ++ "(") (.value head :: .rest tail :: parts)
  | .value (.closure params body _) :: parts =>
    print (out ++ "(lambda ")
      (.value params :: .text " " :: .value body :: .text ")" :: parts)
  | .value v :: parts => print (out ++ v.atomText) parts
  | .rest .nil :: parts => print (out ++ ")") parts
  | .rest (.pair head tail) :: parts =>
    print (out ++ " ") (.value head :: .rest tail :: parts)
  | .rest v :: parts => print (out ++ " . ") (.value v :: .text ")" :: parts)
termination_by parts => totalWeight parts
decreasing_by
  all_goals
    simp only [totalWeight, Part.weight, weight]
    try have : 0 < weight v := by cases v <;> simp [weight]
    omega

end Printer

def Value.print (v : Value) : String := Printer.print "" [.value v]

end Lisplet
