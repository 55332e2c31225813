import Lisplet.Text.Line
import Lisplet.Text.Utf8

/-!
The text of a file. Its bytes are decoded in blocks, and a fault costs the whole block it is in.
The complete lines before that block are kept, so that they can be taken before the fault is.
-/

set_option autoImplicit false

namespace Lisplet

inductive FileText where
  | whole (text : List Char)
  /-- Complete lines, and then a fault. -/
  | faulty (lines : List Char)
  deriving DecidableEq

namespace FileText

abbrev blockSize : Nat := 8192

/-- Decodes block by block. The flag tells whether the bytes are text to their end. -/
def decodeBlocks (d : Text.Decoder) : List UInt8 → Text.Decoder × Bool
  | [] => (d, d.current.isNone)
  | byte :: rest =>
    match d.run ((byte :: rest).take blockSize) with
    | none => (d, false)
    | some next => decodeBlocks next ((byte :: rest).drop blockSize)
termination_by bytes => bytes.length
decreasing_by simp only [blockSize, List.length_drop, List.length_cons]; omega

/-- The lines that are complete, in a text given newest character first. A carriage return at its
very end may be half of a line end, so it completes nothing. -/
def completeLines (seen : List Char) : List Char :=
  let settled :=
    match seen with
    | '\r' :: rest => rest
    | _ => seen
  (settled.dropWhile fun c => !Text.isFileLineEnd c).reverse

def ofBytes (bytes : List UInt8) : FileText :=
  match decodeBlocks .start bytes with
  | (d, true) => .whole d.seen.reverse
  | (d, false) => .faulty (completeLines d.seen)

end FileText

end Lisplet
