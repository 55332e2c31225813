import Lisplet.Binary64.Shortest
import Lisplet.Text.Quoted
import Lisplet.Value.Printer

/-!
Descriptions: the text that shows which kind of value something is, for messages about it.
-/

set_option autoImplicit false

namespace Lisplet

def Value.description : Value → String
  | .nil => "Nil"
  | .long n => "Value(LONG, " ++ toString n ++ ")"
  | .double x => "Value(DOUBLE, " ++ x.shortText ++ ")"
  | .symbol name => "Value(SYMBOL, " ++ Text.quoted name ++ ")"
  | .string text => "Value(STRING, " ++ Text.quoted text ++ ")"
  | .pair head tail => "Value(PAIR, (" ++ head.description ++ ", " ++ tail.description ++ "))"
  | .closure params body frame =>
    "Value(CLOSURE, " ++ (Value.closure params body frame).print ++ ")"

end Lisplet
