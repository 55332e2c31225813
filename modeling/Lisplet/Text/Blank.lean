/-!
White space: the characters that separate tokens and are trimmed from the ends of a line.
-/

set_option autoImplicit false

namespace Lisplet.Text

/-- White space is the six control characters and four separators of ASCII, and the
spaces and line ends beyond it. -/
def isBlank (c : Char) : Bool :=
  let n := c.toNat
  (0x09 ≤ n && n ≤ 0x0D) || (0x1C ≤ n && n ≤ 0x20) || n == 0x85 || n == 0xA0 || n == 0x1680 ||
    (0x2000 ≤ n && n ≤ 0x200A) || n == 0x2028 || n == 0x2029 || n == 0x202F || n == 0x205F ||
    n == 0x3000

def isDelimiter (c : Char) : Bool := isBlank c || c == '(' || c == ')'

theorem isDelimiter_of_isBlank {c : Char} (h : isBlank c = true) : isDelimiter c = true := by
  simp [isDelimiter, h]

def trimLeft (cs : List Char) : List Char := cs.dropWhile isBlank

def trimRight (cs : List Char) : List Char := (cs.reverse.dropWhile isBlank).reverse

def trim (cs : List Char) : List Char := trimRight (trimLeft cs)

def isBlankText (cs : List Char) : Bool := cs.all isBlank

theorem trimLeft_eq_nil {cs : List Char} : trimLeft cs = [] ↔ isBlankText cs = true := by
  induction cs with
  | nil => simp [trimLeft, isBlankText]
  | cons c cs ih =>
    by_cases h : isBlank c = true
    · rw [trimLeft, List.dropWhile_cons_of_pos h, ← trimLeft, ih, isBlankText, isBlankText,
        List.all_cons, h, Bool.true_and]
    · simp [trimLeft, isBlankText, h]

end Lisplet.Text
