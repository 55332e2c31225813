import Lisplet.Binary64.Basic
import Lisplet.Sentinel

/-!
Values. Programs and the data they work on are the same trees: atoms, pairs, and closures that
remember the frame they were made in. Only `nil`, the empty list, counts as false.
-/

set_option autoImplicit false

namespace Lisplet

abbrev FrameId := Nat

inductive Value where
  | nil
  | long (n : Int)
  | double (x : Binary64)
  | symbol (name : String)
  | string (text : String)
  | pair (head tail : Value)
  | closure (params body : Value) (frame : FrameId)
  deriving DecidableEq

def Sentinel.value (s : Sentinel) : Value := .symbol s.name

namespace Value

def truth : Value := .symbol "t"

def ofBool (b : Bool) : Value := if b then truth else .nil

def isNil : Value → Bool
  | .nil => true
  | _ => false

def isSymbol : Value → Bool
  | .symbol _ => true
  | _ => false

def isString : Value → Bool
  | .string _ => true
  | _ => false

def isNumber : Value → Bool
  | .long _ | .double _ => true
  | _ => false

def isList : Value → Bool
  | .nil | .pair _ _ => true
  | _ => false

def isSentinel : Value → Bool
  | .symbol name => (Sentinel.ofName? name).isSome
  | _ => false

theorem isNil_iff {v : Value} : v.isNil = true ↔ v = .nil := by cases v <;> simp [isNil]

theorem isSentinel_value (s : Sentinel) : s.value.isSentinel = true := by
  simp [Sentinel.value, isSentinel, Sentinel.ofName?_name]

/-- The first element; the empty list is its own, and an atom has none. -/
def car : Value → Value
  | .pair head _ => head
  | .nil => .nil
  | _ => Sentinel.notAPair.value

def cdr : Value → Value
  | .pair _ tail => tail
  | .nil => .nil
  | _ => Sentinel.notAPair.value

def cadr (v : Value) : Value := v.cdr.car
def cddr (v : Value) : Value := v.cdr.cdr
def caddr (v : Value) : Value := v.cdr.cdr.car
def cadddr (v : Value) : Value := v.cdr.cdr.cdr.car

def ofList (items : List Value) (tail : Value) : Value := items.foldr .pair tail

def toList : Value → List Value
  | .pair head tail => head :: tail.toList
  | _ => []

def length : Value → Nat
  | .pair _ tail => tail.length + 1
  | _ => 0

def lastTail : Value → Value
  | .pair _ tail => tail.lastTail
  | v => v

theorem length_toList (v : Value) : v.toList.length = v.length := by
  induction v with
  | pair head tail _ ih => simp [toList, length, ih]
  | _ => simp [toList, length]

theorem toList_ofList (items : List Value) : (ofList items .nil).toList = items := by
  induction items with
  | nil => rfl
  | cons v vs ih => simpa [ofList, toList] using ih

theorem ofList_toList (v : Value) : ofList v.toList v.lastTail = v := by
  induction v with
  | pair head tail _ ih => simpa [ofList, toList, lastTail] using ih
  | _ => rfl

def quotation (v : Value) : Value := ofList [.symbol "quote", v] .nil

/-- Parameters are the empty list or a proper list of symbols. -/
def isParameterList : Value → Bool
  | .nil => true
  | .pair (.symbol _) tail => tail.isParameterList
  | _ => false

/-- The text a value is compared by when it is looked up as a name. -/
def nameText? : Value → Option String
  | .symbol name => some name
  | .string text => some text
  | _ => none

end Value

end Lisplet
