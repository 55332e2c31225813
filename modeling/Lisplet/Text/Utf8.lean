/-!
UTF-8, taken a byte at a time. The first byte of a character tells how many follow and bounds the
second, so a byte that fits no character is refused where it stands. Only a surrogate is refused
later, when its last byte is taken.
-/

set_option autoImplicit false

namespace Lisplet.Text

/-- A character of which some bytes have been taken: how many are missing, what those taken
spell, and the bounds of the next one. -/
structure OpenChar where
  missing : Nat
  value : Nat
  low : Nat
  high : Nat
  deriving DecidableEq

/-- A decoder between two bytes: the characters so far, newest first, and the one it is in. -/
structure Decoder where
  seen : List Char
  current : Option OpenChar
  deriving DecidableEq

namespace Decoder

def start : Decoder := ⟨[], none⟩

def openWith (missing value : Nat) : OpenChar := ⟨missing, value, 0x80, 0xBF⟩

def opens (d : Decoder) (char : OpenChar) : Option Decoder := some { d with current := some char }

def close (d : Decoder) (value : Nat) : Option Decoder :=
  if value.isValidChar then some ⟨Char.ofNat value :: d.seen, none⟩ else none

/-- The first byte of a character. A second byte that would make it longer than needed, or greater
than the greatest character, is out of bounds. -/
def first (d : Decoder) (b : Nat) : Option Decoder :=
  if b ≤ 0x7F then d.close b
  else if 0xC2 ≤ b && b ≤ 0xDF then d.opens (openWith 1 (b - 0xC0))
  else if b == 0xE0 then d.opens { openWith 2 0 with low := 0xA0 }
  else if 0xE1 ≤ b && b ≤ 0xEF then d.opens (openWith 2 (b - 0xE0))
  else if b == 0xF0 then d.opens { openWith 3 0 with low := 0x90 }
  else if 0xF1 ≤ b && b ≤ 0xF3 then d.opens (openWith 3 (b - 0xF0))
  else if b == 0xF4 then d.opens { openWith 3 4 with high := 0x8F }
  else none

def step (d : Decoder) (byte : UInt8) : Option Decoder :=
  let b := byte.toNat
  match d.current with
  | none => d.first b
  | some char =>
    if char.low ≤ b && b ≤ char.high then
      let value := 0x40 * char.value + (b - 0x80)
      if char.missing ≤ 1 then d.close value else d.opens (openWith (char.missing - 1) value)
    else none

def run (d : Decoder) (bytes : List UInt8) : Option Decoder := bytes.foldlM step d

end Decoder

example : (Decoder.start.run [0x61, 0xC3, 0xA9]).map Decoder.seen = some ['é', 'a'] := by
  decide +kernel
example : (Decoder.start.run [0xED, 0xA0]).isSome := by decide +kernel
example : Decoder.start.run [0xED, 0xA0, 0x80] = none := by decide +kernel
example : Decoder.start.run [0xE0, 0x80] = none := by decide +kernel

end Lisplet.Text
