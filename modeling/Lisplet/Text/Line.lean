/-!
Cutting a text into lines. What ends a line is a parameter: every line end of the character
set, the ends that a file may use, or the newline alone.
-/

set_option autoImplicit false

namespace Lisplet.Text

def isLineEnd (c : Char) : Bool :=
  let n := c.toNat
  (0x0A ≤ n && n ≤ 0x0D) || (0x1C ≤ n && n ≤ 0x1E) || n == 0x85 || n == 0x2028 || n == 0x2029

def isFileLineEnd (c : Char) : Bool := c == '\n' || c == '\r'

def isNewline (c : Char) : Bool := c == '\n'

/-- Lines without their ends, given the part of the first one that has been seen, newest
character first. A carriage return that ended a line takes a newline right after it along,
which is what the flag tells. No empty line follows the last line end. -/
def linesFrom (ends : Char → Bool) : Bool → List Char → List Char → List (List Char)
  | _, [], [] => []
  | _, seen, [] => [seen.reverse]
  | afterReturn, seen, c :: rest =>
    if afterReturn && c == '\n' then linesFrom ends false seen rest
    else if ends c then seen.reverse :: linesFrom ends (c == '\r') [] rest
    else linesFrom ends false (c :: seen) rest

def linesBy (ends : Char → Bool) (text : List Char) : List (List Char) :=
  linesFrom ends false [] text

def joinLines (lines : List (List Char)) : List Char := List.intercalate ['\n'] lines

def dropNewlines (line : List Char) : List Char := (line.reverse.dropWhile isNewline).reverse

theorem linesFrom_nil (ends : Char → Bool) (afterReturn : Bool) (seen : List Char) :
    linesFrom ends afterReturn seen [] = if seen = [] then [] else [seen.reverse] := by
  cases seen <;> simp [linesFrom]

theorem linesFrom_of_none {ends : Char → Bool} {text : List Char}
    (h : ∀ c ∈ text, ends c = false) (seen : List Char) :
    linesFrom ends false seen text =
      if seen = [] ∧ text = [] then [] else [seen.reverse ++ text] := by
  induction text generalizing seen with
  | nil => simp [linesFrom_nil]
  | cons c cs ih =>
    have hc := h c (by simp)
    have hcs : ∀ d ∈ cs, ends d = false := fun d hd => h d (by simp [hd])
    simp [linesFrom, hc, ih hcs]

end Lisplet.Text
