import Lisplet.Proofs.PrintedText

/-!
The text of a chain. What the printer works off part by part is told here by the form of the value
alone: a chain of pairs is written as the texts of its elements with blanks between them, in
parentheses, with a point before a last tail that is not `nil`. Main statement: the printer adds
the texts of the parts that wait, the first one first, to what it has printed.
-/

set_option autoImplicit false

namespace Lisplet

namespace Value

theorem sizeOf_lt_of_mem_toList {v e : Value} (h : e ∈ v.toList) : sizeOf e < sizeOf v := by
  induction v with
  | pair head tail _ ih =>
    simp only [toList, List.mem_cons] at h
    rcases h with rfl | h
    · simp
      omega
    · have hlt := ih h
      simp
      omega
  | _ => simp [toList] at h

theorem sizeOf_lastTail_le (v : Value) : sizeOf v.lastTail ≤ sizeOf v := by
  induction v with
  | pair head tail _ ih =>
    simp [lastTail]
    omega
  | _ => simp [lastTail]

/-- The text of a value, by recursion on its chains. -/
def rendered : Value → String
  | .nil => "()"
  | .long n => toString n
  | .double x => x.fixedText 6
  | .symbol name => name
  | .string text => "\"" ++ text ++ "\""
  | .closure params body _ => "(lambda " ++ params.rendered ++ " " ++ body.rendered ++ ")"
  | .pair head tail =>
    "(" ++ " ".intercalate (head.rendered :: tail.toList.attach.map fun e => e.1.rendered) ++
      (if tail.lastTail.isNil then "" else " . " ++ tail.lastTail.rendered) ++ ")"
termination_by v => sizeOf v
decreasing_by
  · simp
    omega
  · simp
    omega
  · simp
    omega
  · have hlt := sizeOf_lt_of_mem_toList e.2
    simp
    omega
  · have hle := sizeOf_lastTail_le tail
    simp
    omega

def renderedRest (tail : Value) : String :=
  String.join (tail.toList.map fun e => " " ++ e.rendered) ++
    (if tail.lastTail.isNil then "" else " . " ++ tail.lastTail.rendered) ++ ")"

theorem rendered_pair (head tail : Value) :
    (pair head tail).rendered =
      "(" ++ " ".intercalate ((pair head tail).toList.map rendered) ++
        (if tail.lastTail.isNil then "" else " . " ++ tail.lastTail.rendered) ++ ")" := by
  rw [rendered, List.attach_map_val]
  rfl

theorem intercalate_cons_eq_join (first : String) (texts : List String) :
    " ".intercalate (first :: texts) = first ++ String.join (texts.map (" " ++ ·)) := by
  induction texts generalizing first with
  | nil => simp
  | cons text texts ih =>
    rw [String.intercalate_cons_cons, ih, List.map_cons, String.join_cons]
    simp only [String.append_assoc]

theorem rendered_pair_eq_append (head tail : Value) :
    (pair head tail).rendered = "(" ++ head.rendered ++ tail.renderedRest := by
  rw [rendered_pair, toList, List.map_cons, intercalate_cons_eq_join, List.map_map, renderedRest]
  simp only [String.append_assoc]
  rfl

theorem renderedRest_pair (head tail : Value) :
    (pair head tail).renderedRest = " " ++ head.rendered ++ tail.renderedRest := by
  rw [renderedRest, toList, List.map_cons, String.join_cons, renderedRest]
  simp only [String.append_assoc]
  rfl

theorem renderedRest_of_not_isList {v : Value} (h : v.isList = false) :
    v.renderedRest = " . " ++ v.rendered ++ ")" := by
  cases v with
  | nil => cases h
  | pair head tail => cases h
  | _ => simp [renderedRest, toList, lastTail, isNil]

theorem toList_rendered (v : Value) :
    v.rendered.toList = v.written ∧ v.renderedRest.toList = v.writtenRest := by
  induction v with
  | pair head tail hhead htail =>
    rw [rendered_pair_eq_append, renderedRest_pair]
    simp [written, writtenRest, hhead.1, htail.2]
  | nil => simp [rendered, renderedRest, toList, lastTail, isNil, written, writtenRest, atomText]
  | closure params body frame hparams hbody =>
    rw [renderedRest_of_not_isList rfl]
    simp [rendered, written, writtenRest, hparams.1, hbody.1]
  | _ =>
    rw [renderedRest_of_not_isList rfl]
    simp [rendered, written, writtenRest, atomText]

end Value

/-- The printer with its parts gives the text that the recursion on chains gives. -/
theorem print_eq_rendered (v : Value) : v.print = v.rendered := by
  rw [← String.toList_inj, Value.toList_print, (Value.toList_rendered v).1]

end Lisplet
