import Lisplet.Primitive
import Lisplet.Reader

/-!
Sound values. A rule for atoms spreads over pairs and closures, and with it what every closure
needs: its parameters are a list of symbols, and the frame that it captured exists. What the
primitives make of sound values is sound.
-/

set_option autoImplicit false

namespace Lisplet

namespace Value

/-- The value stands somewhere in another one: it is that value, or stands in the head or the tail
of a pair, or in the parameters or the body of a closure. -/
inductive OccursIn (w : Value) : Value → Prop
  | self : OccursIn w w
  | head {head : Value} (tail : Value) (h : OccursIn w head) : OccursIn w (.pair head tail)
  | tail (head : Value) {tail : Value} (h : OccursIn w tail) : OccursIn w (.pair head tail)
  | params {params : Value} (body : Value) (frame : FrameId) (h : OccursIn w params) :
    OccursIn w (.closure params body frame)
  | body (params : Value) {body : Value} (frame : FrameId) (h : OccursIn w body) :
    OccursIn w (.closure params body frame)

def atoms : Value → List Value
  | .pair head tail => head.atoms ++ tail.atoms
  | .closure params body _ => params.atoms ++ body.atoms
  | v => [v]

theorem OccursIn.atoms_subset {v w : Value} (h : w.OccursIn v) : w.atoms ⊆ v.atoms := by
  induction h with
  | self => exact fun _ hmem => hmem
  | head tail _ ih => exact fun u hu => List.mem_append_left _ (ih hu)
  | tail head _ ih => exact fun u hu => List.mem_append_right _ (ih hu)
  | params body frame _ ih => exact fun u hu => List.mem_append_left _ (ih hu)
  | body params frame _ ih => exact fun u hu => List.mem_append_right _ (ih hu)

/-- A property of every atom that is read from a text or computed. -/
structure AtomRule (p : Value → Prop) : Prop where
  nil : p .nil
  truth : p .truth
  sentinel : ∀ s : Sentinel, p s.value
  quoteName : p (.symbol "quote")
  string : ∀ {text : List Char}, '"' ∉ text → p (.string (String.ofList text))
  token : ∀ {c : Char} {tail : List Char} {v : Value},
    (∀ d ∈ c :: tail, Text.isDelimiter d = false) → c ≠ '"' → c ≠ '\'' →
    Reader.tokenValue c tail = .ok v → p v
  number : ∀ x : Binary64, p (.ofNumber x)
  remainder : ∀ {x y : Binary64} {m n : Int}, x.toLong? = some m → y.toLong? = some n → n ≠ 0 →
    p (.long (m.tmod n))

/-- Every atom obeys the rule, and every closure has a list of symbols for parameters and one of
the first `size` frames. -/
def Sound (p : Value → Prop) (size : Nat) : Value → Prop
  | .pair head tail => head.Sound p size ∧ tail.Sound p size
  | .closure params body frame =>
    params.isParameterList = true ∧ frame < size ∧ params.Sound p size ∧ body.Sound p size
  | v => p v

theorem isParameterList_iff {params : Value} : params.isParameterList = true ↔
    ∃ names : List String, params = ofList (names.map .symbol) .nil := by
  constructor
  · intro h
    fun_induction isParameterList params with
    | case1 => exact ⟨[], rfl⟩
    | case2 name tail ih =>
      obtain ⟨names, rfl⟩ := ih h
      exact ⟨name :: names, rfl⟩
    | case3 => cases h
  · rintro ⟨names, rfl⟩
    induction names with
    | nil => rfl
    | cons name names ih => exact ih

variable {p : Value → Prop} {size : Nat}

theorem Sound.mono {v : Value} {more : Nat} (h : v.Sound p size) (hle : size ≤ more) :
    v.Sound p more := by
  induction v with
  | pair head tail hhead htail => exact ⟨hhead h.1, htail h.2⟩
  | closure params body frame hparams hbody =>
    obtain ⟨hlist, hframe, hp, hb⟩ := h
    exact ⟨hlist, Nat.lt_of_lt_of_le hframe hle, hparams hp, hbody hb⟩
  | _ => exact h

theorem Sound.of_occursIn {v w : Value} (h : v.Sound p size) (hw : w.OccursIn v) :
    w.Sound p size := by
  induction hw with
  | self => exact h
  | head tail _ ih => exact ih h.1
  | tail head _ ih => exact ih h.2
  | params body frame _ ih => exact ih h.2.2.1
  | body params frame _ ih => exact ih h.2.2.2

theorem Sound.closure_of_occursIn {v params body : Value} {frame : FrameId} (h : v.Sound p size)
    (hw : (Value.closure params body frame).OccursIn v) :
    (∃ names : List String, params = ofList (names.map .symbol) .nil) ∧ frame < size := by
  obtain ⟨hlist, hframe, -, -⟩ := h.of_occursIn hw
  exact ⟨isParameterList_iff.mp hlist, hframe⟩

theorem sound_of_isNumber {v : Value} (hnumber : v.isNumber = true) (h : p v) :
    v.Sound p size := by
  cases v with
  | long n => exact h
  | double x => exact h
  | _ => cases hnumber

theorem sound_ofList {items : List Value} {tail : Value} (hitems : ∀ v ∈ items, v.Sound p size)
    (htail : tail.Sound p size) : (ofList items tail).Sound p size := by
  induction items with
  | nil => exact htail
  | cons v items ih => exact ⟨hitems v (by simp), ih fun w hw => hitems w (by simp [hw])⟩

namespace AtomRule

variable (rule : AtomRule p)
include rule

theorem sound_sentinel (s : Sentinel) : s.value.Sound p size := rule.sentinel s

theorem sound_ofBool (b : Bool) : (ofBool b).Sound p size := by
  cases b with
  | false => exact rule.nil
  | true => exact rule.truth

theorem sound_ofNumber (x : Binary64) : (ofNumber x).Sound p size :=
  sound_of_isNumber (isNumber_ofNumber x) (rule.number x)

theorem sound_quotation {v : Value} (h : v.Sound p size) : v.quotation.Sound p size :=
  ⟨rule.quoteName, h, rule.nil⟩

theorem sound_car {v : Value} (h : v.Sound p size) : v.car.Sound p size := by
  cases v with
  | pair head tail => exact h.1
  | nil => exact h
  | _ => exact rule.sound_sentinel .notAPair

theorem sound_cdr {v : Value} (h : v.Sound p size) : v.cdr.Sound p size := by
  cases v with
  | pair head tail => exact h.2
  | nil => exact h
  | _ => exact rule.sound_sentinel .notAPair

theorem sound_cadr {v : Value} (h : v.Sound p size) : v.cadr.Sound p size :=
  rule.sound_car (rule.sound_cdr h)

theorem sound_caddr {v : Value} (h : v.Sound p size) : v.caddr.Sound p size :=
  rule.sound_car (rule.sound_cdr (rule.sound_cdr h))

theorem sound_arithmetic (operation : Binary64 → Binary64 → Binary64) (a b : Value) :
    (arithmetic operation a b).Sound p size := by
  unfold arithmetic
  split
  · exact rule.sound_ofNumber _
  · exact rule.sound_sentinel .notANumber

theorem sound_div (a b : Value) : (a.div b).Sound p size := by
  unfold div
  split
  · split
    · exact rule.sound_sentinel .divideByZero
    · exact rule.sound_ofNumber _
  · exact rule.sound_sentinel .notANumber

theorem sound_mod (a b : Value) : (a.mod b).Sound p size := by
  unfold mod
  split
  · split
    · rename_i hm hn
      split
      · exact rule.sound_sentinel .divideByZero
      · rename_i hzero
        exact rule.remainder hm hn hzero
    · exact rule.sound_sentinel .notANumber
  · exact rule.sound_sentinel .notANumber

theorem sound_comparison (test : Binary64 → Binary64 → Bool) (a b : Value) :
    (comparison test a b).Sound p size := by
  unfold comparison
  split
  · exact rule.sound_ofBool _
  · exact rule.sound_sentinel .notANumber

theorem sound_eq (a b : Value) : (a.eq b).Sound p size := by
  fun_cases eq a b with
  | case7 => exact rule.sound_sentinel .listEquality
  | case8 => exact rule.sound_sentinel .typeMismatch
  | _ => exact rule.sound_ofBool _

theorem sound_unary (operation : Unary) {v : Value} (h : v.Sound p size) :
    (operation.apply v).Sound p size := by
  cases operation with
  | car => exact rule.sound_car h
  | cdr => exact rule.sound_cdr h
  | _ => exact rule.sound_ofBool _

theorem sound_binary (operation : Binary) {a b : Value} (ha : a.Sound p size)
    (hb : b.Sound p size) : (operation.apply a b).Sound p size := by
  cases operation with
  | cons => exact ⟨ha, hb⟩
  | add | sub | mul => exact rule.sound_arithmetic _ a b
  | div => exact rule.sound_div a b
  | mod => exact rule.sound_mod a b
  | lt | gt | lte | gte => exact rule.sound_comparison _ a b
  | eq => exact rule.sound_eq a b

end AtomRule

end Value

end Lisplet
