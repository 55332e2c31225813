import Lisplet.Proofs.CanonicalNumber
import Lisplet.Proofs.SoundSession

/-!
Numbers in sessions. Every number that is read, bound or given as a result has the one form of its
value: a `long` is a number exactly, and a `double` is no integer that a `long` could hold.
-/

set_option autoImplicit false

namespace Lisplet

theorem Value.atomRule_isCanonical : AtomRule IsCanonical where
  nil := isCanonical_of_not_isNumber rfl
  truth := isCanonical_of_not_isNumber rfl
  sentinel := fun _ => isCanonical_of_not_isNumber rfl
  quoteName := isCanonical_of_not_isNumber rfl
  string := fun _ => isCanonical_of_not_isNumber rfl
  token := by
    intro c tail v hall hstring hquote h
    rcases Reader.tokenValue_cases h with ⟨name, rfl⟩ | ⟨x, rfl⟩
    · exact isCanonical_of_not_isNumber rfl
    · exact isCanonical_ofNumber x
  number := isCanonical_ofNumber
  remainder := isCanonical_remainder

structure Value.Canonical (w : Value) : Prop where
  form : ∀ x, w.number? = some x → ofNumber x = w
  long : ∀ n, w = .long n → isLong n = true ∧ (Binary64.ofInt n).isInt n = true
  double : ∀ x, w = .double x → ∀ n, isLong n = true → x.isInt n = false

theorem Value.IsCanonical.canonical {w : Value} (h : w.IsCanonical) : w.Canonical where
  form := h
  long := by
    intro n hn
    subst hn
    exact h.isInt_ofInt
  double := by
    intro x hx n hlong
    subst hx
    exact h.isInt_eq_false hlong

theorem Value.Sound.canonical_of_occursIn {v w : Value} {size : Nat}
    (h : v.Sound IsCanonical size) (hw : w.OccursIn v) : w.Canonical := by
  have hsound := h.of_occursIn hw
  cases w with
  | pair head tail => exact (isCanonical_of_not_isNumber rfl).canonical
  | closure params body frame => exact (isCanonical_of_not_isNumber rfl).canonical
  | _ => exact IsCanonical.canonical hsound

/-- In every session the numbers in the expressions that are read, in what names are bound to and
in the results are canonical, and so is every remainder. -/
theorem session_numbers_canonical (limit : Nat) (requests : List Session.Request) :
    let session := (Session.start limit).after requests
    (∀ text : List Char, ∀ expr ∈ (Script.ofText text).values,
      ∀ w, Value.OccursIn w expr → w.Canonical) ∧
    (∀ (frame : FrameId) (name : String) (v : Value), (name, v) ∈ session.store.bindings frame →
      ∀ w, Value.OccursIn w v → w.Canonical) ∧
    (∀ (request : Session.Request) (values : List Value),
      (request.perform.run session).1 = .ok values →
      ∀ v ∈ values, ∀ w, Value.OccursIn w v → w.Canonical) ∧
    ∀ a b : Value, (a.mod b).Canonical := by
  intro session
  have rule := Value.atomRule_isCanonical
  -- The one invariant of sessions, for the rule that atoms are canonical.
  obtain ⟨hstore, -⟩ := Session.sound_start_after rule limit requests
  refine ⟨?_, ?_, ?_, ?_⟩
  · intro text expr hexpr w hw
    have hsound : expr.Sound Value.IsCanonical 0 := Script.sound_values rule hexpr
    exact hsound.canonical_of_occursIn hw
  · intro frame name v hmem w hw
    exact (hstore.of_mem_bindings hmem).canonical_of_occursIn hw
  · intro request values hvalues v hv w hw
    have hkeeps := Session.keeps_perform rule limit requests request
    exact (hkeeps.result hvalues v hv).canonical_of_occursIn hw
  · intro a b
    have hsound : (a.mod b).Sound Value.IsCanonical 0 := rule.sound_mod a b
    exact hsound.canonical_of_occursIn .self

def Session.numberRequests : List Session.Request :=
  [.run "(define half (x) (mul x 0.5))".toList,
    .eval "(set m (mod 9223372036854774784 -1000.9))".toList]

def Value.half : Value := .double (.finite false ⟨1022 * 2 ^ 52, by decide⟩)

theorem session_numbers_canonical_numberRequests :
    ("m", Value.long 784) ∈
      ((Session.start 50).after Session.numberRequests).store.bindings Store.globalFrame ∧
    (Value.long 784).Canonical ∧
    ((Session.Request.feed "(half 1)".toList).perform.run
      ((Session.start 50).after Session.numberRequests)).1 = .ok [Value.half] ∧
    Value.half.Canonical := by
  obtain ⟨-, hbound, hresult, -⟩ := session_numbers_canonical 50 Session.numberRequests
  have hmem : ("m", Value.long 784) ∈
      ((Session.start 50).after Session.numberRequests).store.bindings Store.globalFrame := by
    decide +kernel
  have hfeed : ((Session.Request.feed "(half 1)".toList).perform.run
      ((Session.start 50).after Session.numberRequests)).1 = .ok [Value.half] := by
    decide +kernel
  exact ⟨hmem, hbound _ _ _ hmem _ .self, hfeed,
    hresult _ _ hfeed _ (List.mem_singleton.mpr rfl) _ .self⟩

end Lisplet
