import Lisplet.Reader

/-!
Scripts: the expressions that a text holds one after another, up to its end or up to the place
where no expression can be read.
-/

set_option autoImplicit false

namespace Lisplet

structure ScriptItem where
  value : Value
  stop : Nat
  deriving DecidableEq

/-- The expressions in order, why reading stopped before the end, if it did, and where. -/
structure Script where
  items : List ScriptItem
  fault : Option ReadFault
  stop : Nat
  deriving DecidableEq

namespace Script

def readFrom (cursor : Cursor) : Script :=
  let start := cursor.skipBlanks
  if start.rest.isEmpty then ⟨[], none, start.offset⟩
  else
    match _h : start.read with
    | ⟨.ok v, after⟩ =>
      let script := readFrom after
      ⟨⟨v, after.offset⟩ :: script.items, script.fault, script.stop⟩
    | ⟨.error fault, after⟩ => ⟨[], some fault, after.offset⟩
termination_by cursor.rest.length
decreasing_by exact Nat.lt_of_lt_of_le (Cursor.length_read _h) cursor.length_skipBlanks_le

def ofText (text : List Char) : Script := readFrom (Cursor.ofText text)

def values (script : Script) : List Value := script.items.map ScriptItem.value

end Script

/-- The first expression of a text; a malformed one is its sentinel. -/
def Value.parse (text : List Char) : Except NumeralFault Value :=
  match (Cursor.ofText text).read.result with
  | .ok v => .ok v
  | .error (.malformed sentinel _) => .ok sentinel.value
  | .error (.numeral fault) => .error fault

end Lisplet
