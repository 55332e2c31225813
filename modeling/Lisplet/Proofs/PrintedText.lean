import Lisplet.Value.Printer

/-!
The printed text of a value by recursion on the value. The printer, which keeps what is still to
be printed on a list of parts, prints the same text.
-/

set_option autoImplicit false

namespace Lisplet

mutual

def Value.written : Value → List Char
  | .pair head tail => '(' :: (head.written ++ tail.writtenRest)
  | .closure params body _ =>
    "(lambda ".toList ++ (params.written ++ ' ' :: (body.written ++ [')']))
  | v => v.atomText.toList
termination_by v => (sizeOf v, 0)

/-- The text that follows an element of a list when `v` is what follows it. -/
def Value.writtenRest : Value → List Char
  | .nil => [')']
  | .pair head tail => ' ' :: (head.written ++ tail.writtenRest)
  | v => " . ".toList ++ (v.written ++ [')'])
termination_by v => (sizeOf v, 1)

end

namespace Printer

def Part.written : Part → List Char
  | .text s => s.toList
  | .value v => v.written
  | .rest v => v.writtenRest

/-- Printing puts the texts of the parts after what is printed already. -/
theorem toList_print (out : String) (parts : List Part) :
    (print out parts).toList = out.toList ++ parts.flatMap Part.written := by
  fun_induction print out parts with
  | case1 out => simp
  | case2 out s parts ih => simp [ih, Part.written]
  | case3 out parts head tail ih => simp [ih, Part.written, Value.written]
  | case4 out parts params body frame ih => simp [ih, Part.written, Value.written]
  | case5 out parts v hpair hclosure ih => simp [ih, Part.written, Value.written]
  | case6 out parts ih => simp [ih, Part.written, Value.writtenRest]
  | case7 out parts head tail ih => simp [ih, Part.written, Value.writtenRest]
  | case8 out parts v hnil hpair ih => simp [ih, Part.written, Value.writtenRest]

end Printer

theorem Value.toList_print (v : Value) : v.print.toList = v.written := by
  simp [Value.print, Printer.toList_print, Printer.Part.written]

end Lisplet
