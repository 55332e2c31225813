import Lisplet.Proofs.Descent
import Lisplet.Proofs.Reach
import Lisplet.Proofs.SoundSession

/-!
Parts of source expressions. What is read consists of proper lists and atoms, without closures, so
the heads and tails of the lists in it are all that can be taken out of it. Closures are made from
such parts, and the primitives make no new ones.
-/

set_option autoImplicit false

namespace Lisplet

namespace Value

/-- Steps to heads and tails of pairs lead from the value to `w`. -/
inductive PartOf (w : Value) : Value → Prop
  | self : PartOf w w
  | head {head : Value} (tail : Value) (h : PartOf w head) : PartOf w (.pair head tail)
  | tail (head : Value) {tail : Value} (h : PartOf w tail) : PartOf w (.pair head tail)

theorem PartOf.trans {u v w : Value} (h : u.PartOf v) (h' : v.PartOf w) : u.PartOf w := by
  induction h' with
  | self => exact h
  | head tail _ ih => exact ih.head tail
  | tail head _ ih => exact ih.tail head

/-- Proper lists of atoms and of such lists, with no closure in them. -/
def IsPlain : Value → Prop
  | .pair head tail => head.IsPlain ∧ tail.IsPlain ∧ tail.isList = true
  | .closure _ _ _ => False
  | _ => True

theorem IsPlain.of_partOf {v w : Value} (h : v.IsPlain) (hw : w.PartOf v) : w.IsPlain := by
  induction hw with
  | self => exact h
  | head tail _ ih => exact ih h.1
  | tail head _ ih => exact ih h.2.1

theorem IsPlain.not_occursIn {v params body : Value} {frame : FrameId} (h : v.IsPlain) :
    ¬(closure params body frame).OccursIn v := by
  intro hw
  induction hw with
  | self => exact h
  | head tail _ ih => exact ih h.1
  | tail head _ ih => exact ih h.2.1
  | params body frame _ ih => exact h
  | body params frame _ ih => exact h

end Value

def Reading.Gives (q : Value → Prop) (r : Reading) : Prop := ∀ v, r.result = .ok v → q v

namespace Reading.Gives

variable {q q' : Value → Prop}

theorem error (fault : ReadFault) (after : Cursor) : Gives q ⟨.error fault, after⟩ := by
  rintro v ⟨⟩

theorem ok {v : Value} (h : q v) (after : Cursor) : Gives q ⟨.ok v, after⟩ := by
  rintro w ⟨⟩
  exact h

theorem map {r : Reading} {f : Value → Value} (h : r.Gives q) (hf : ∀ v, q v → q' (f v)) :
    (r.map f).Gives q' := by
  rcases r with ⟨result, after⟩
  cases result with
  | error fault => exact error fault after
  | ok v => exact ok (hf v (h v rfl)) after

end Reading.Gives

theorem Reader.isPlain_readAtom (offset : Nat) (c : Char) (rest : List Char) :
    (readAtom offset c rest).Gives Value.IsPlain := by
  unfold readAtom
  split
  · unfold readString
    dsimp only
    split
    · exact .ok trivial _
    · exact .error _ _
  · unfold readToken
    cases hvalue : tokenValue c (tokenTail rest) with
    | error fault => exact .error _ _
    | ok v =>
      refine .ok ?_ _
      rcases tokenValue_cases hvalue with ⟨name, rfl⟩ | ⟨x, rfl⟩
      · trivial
      · cases hnumber : Value.ofNumber x with
        | pair | closure => simpa [hnumber, Value.isNumber] using Value.isNumber_ofNumber x
        | _ => trivial

namespace Descent

theorem gives_isPlain (cursor : Cursor) : (expression cursor).Gives Value.IsPlain ∧
    ∀ start, (elements start cursor).Gives fun v => v.IsPlain ∧ v.isList = true := by
  -- Both read each other, so the induction is on how much text is left.
  induction hn : cursor.rest.length using Nat.strongRecOn generalizing cursor with
  | ind n ih =>
    subst hn
    have hexpression : (expression cursor).Gives Value.IsPlain := by
      rw [expression_eq]
      cases hrest : cursor.skipBlanks.rest with
      | nil => exact .error _ _
      | cons c rest =>
        have hlt := Cursor.length_of_skipBlanks hrest
        have hnext := ih _ hlt ⟨cursor.skipBlanks.offset + 1, rest⟩ rfl
        dsimp only
        split
        · exact fun v hv => (hnext.2 _ v hv).1
        split
        · exact hnext.1.map fun v hv => ⟨trivial, ⟨hv, trivial, rfl⟩, rfl⟩
        split
        · exact .error _ _
        · exact Reader.isPlain_readAtom _ _ _
    refine ⟨hexpression, fun start => ?_⟩
    rw [elements_eq]
    split
    · exact .error _ _
    split
    · exact .ok ⟨trivial, rfl⟩ _
    split
    · exact .error _ _
    · rename_i head after hread
      have hshorter : after.rest.length < cursor.rest.length := by
        simpa [hread] using expression_shortens cursor head (by rw [hread])
      rw [hread] at hexpression
      refine ((ih _ hshorter after rfl).2 start).map fun v hv => ?_
      exact ⟨⟨hexpression head rfl, hv⟩, rfl⟩

end Descent

theorem Script.isPlain_values {text : List Char} {expr : Value}
    (h : expr ∈ (Script.ofText text).values) : expr.IsPlain := by
  have hitems : ∀ cursor, ∀ item ∈ (Script.readFrom cursor).items, item.value.IsPlain := by
    intro cursor
    fun_induction Script.readFrom cursor with
    | case1 => simp
    | case2 cursor start hend v after hread script ih =>
      intro item hitem
      rcases List.mem_cons.mp hitem with rfl | hitem
      · have hplain := (Descent.gives_isPlain start).1
        rw [← Descent.descend, ← Descent.readFrom_eq_descend] at hplain
        exact hplain v (by rw [← Cursor.read, hread])
      · exact ih item hitem
    | case3 => simp
  obtain ⟨item, hitem, rfl⟩ := List.mem_map.mp h
  exact hitems _ item hitem

namespace Value

variable {sources more : List Value}

/-- The empty list, or a part of one of the sources. -/
def IsSource (sources : List Value) (v : Value) : Prop := v = .nil ∨ ∃ s ∈ sources, v.PartOf s

structure IsOperands (sources : List Value) (v : Value) : Prop where
  source : v.IsSource sources
  list : v.isList = true

/-- What may be evaluated: the sources and their parts, the empty list that stands for a missing
operand, and what is taken for the test and the result of a clause that is no list. -/
inductive IsCode (sources : List Value) : Value → Prop
  | source {v : Value} (h : v.IsSource sources) : IsCode sources v
  | clause {s operands clause : Value} (hs : s ∈ sources)
    (hcond : (pair (.symbol "cond") operands).PartOf s) (hclause : clause ∈ operands.toList)
    (hlist : clause.isList = false) : IsCode sources Sentinel.notAPair.value

/-- Every closure in the value has parameters and a body that come from the sources. -/
def MadeFrom (sources : List Value) (v : Value) : Prop :=
  ∀ params body frame, (closure params body frame).OccursIn v →
    params.IsSource sources ∧ body.IsSource sources

theorem IsSource.mono {v : Value} (h : v.IsSource sources) (hsub : sources ⊆ more) :
    v.IsSource more := by
  rcases h with rfl | ⟨s, hs, hpart⟩
  · exact .inl rfl
  · exact .inr ⟨s, hsub hs, hpart⟩

theorem MadeFrom.mono {v : Value} (h : v.MadeFrom sources) (hsub : sources ⊆ more) :
    v.MadeFrom more := fun params body frame hoccurs =>
  ⟨(h params body frame hoccurs).1.mono hsub, (h params body frame hoccurs).2.mono hsub⟩

theorem isCode_last (sources : List Value) (expr : Value) : expr.IsCode (sources ++ [expr]) :=
  .source (.inr ⟨expr, by simp, .self⟩)

section Plain

variable (hplain : ∀ s ∈ sources, s.IsPlain)
include hplain

theorem IsSource.isPlain {v : Value} (h : v.IsSource sources) : v.IsPlain := by
  rcases h with rfl | ⟨s, hs, hpart⟩
  · trivial
  · exact (hplain s hs).of_partOf hpart

theorem IsSource.madeFrom {v : Value} (h : v.IsSource sources) : v.MadeFrom sources :=
  fun _ _ _ hoccurs => absurd hoccurs (h.isPlain hplain).not_occursIn

theorem IsCode.madeFrom {v : Value} (h : v.IsCode sources) : v.MadeFrom sources := by
  cases h with
  | source h => exact h.madeFrom hplain
  | clause =>
    intro params body frame hoccurs
    cases hoccurs

theorem IsSource.pair {head tail : Value} (h : (Value.pair head tail).IsSource sources) :
    head.IsSource sources ∧ tail.IsOperands sources := by
  obtain ⟨-, -, hlist⟩ := h.isPlain hplain
  rcases h with h | ⟨s, hs, hpart⟩
  · cases h
  · have hhead := (PartOf.self.head tail).trans hpart
    have htail := (PartOf.self.tail head).trans hpart
    exact ⟨.inr ⟨s, hs, hhead⟩, .inr ⟨s, hs, htail⟩, hlist⟩

theorem IsOperands.car {v : Value} (h : v.IsOperands sources) : v.car.IsSource sources := by
  cases v with
  | pair head tail => exact (h.source.pair hplain).1
  | nil => exact h.source
  | _ => cases h.list

theorem IsOperands.cdr {v : Value} (h : v.IsOperands sources) : v.cdr.IsOperands sources := by
  cases v with
  | pair head tail => exact (h.source.pair hplain).2
  | nil => exact h
  | _ => cases h.list

theorem IsOperands.cadr {v : Value} (h : v.IsOperands sources) : v.cadr.IsSource sources :=
  (h.cdr hplain).car hplain

theorem IsOperands.caddr {v : Value} (h : v.IsOperands sources) : v.caddr.IsSource sources :=
  ((h.cdr hplain).cdr hplain).car hplain

theorem madeFrom_closure {params body : Value} (hparams : params.IsSource sources)
    (hbody : body.IsSource sources) (frame : FrameId) :
    (Value.closure params body frame).MadeFrom sources := by
  intro p b f hoccurs
  cases hoccurs with
  | self => exact ⟨hparams, hbody⟩
  | params _ _ h => exact hparams.madeFrom hplain p b f h
  | body _ _ h => exact hbody.madeFrom hplain p b f h

end Plain

theorem madeFrom_pair {head tail : Value} (hhead : head.MadeFrom sources)
    (htail : tail.MadeFrom sources) : (Value.pair head tail).MadeFrom sources := by
  intro params body frame hoccurs
  cases hoccurs with
  | head _ h => exact hhead params body frame h
  | tail _ h => exact htail params body frame h

theorem madeFrom_of_sound {v : Value} (h : v.Sound (fun _ => True) 0) : v.MadeFrom sources :=
  fun _ _ _ hoccurs => absurd (h.closure_of_occursIn hoccurs).2 (Nat.not_lt_zero _)

theorem madeFrom_symbol (name : String) : (Value.symbol name).MadeFrom sources :=
  madeFrom_of_sound trivial

theorem madeFrom_sentinel (s : Sentinel) : s.value.MadeFrom sources := madeFrom_symbol s.name

theorem madeFrom_nil : Value.nil.MadeFrom sources := madeFrom_of_sound trivial

theorem madeFrom_ofBool (b : Bool) : (ofBool b).MadeFrom sources := by
  cases b with
  | false => exact madeFrom_nil
  | true => exact madeFrom_symbol _

theorem MadeFrom.car {v : Value} (h : v.MadeFrom sources) : v.car.MadeFrom sources := by
  cases v with
  | pair head tail => exact fun params body frame hoccurs => h params body frame (hoccurs.head tail)
  | nil => exact h
  | _ => exact madeFrom_sentinel .notAPair

theorem MadeFrom.cdr {v : Value} (h : v.MadeFrom sources) : v.cdr.MadeFrom sources := by
  cases v with
  | pair head tail => exact fun params body frame hoccurs => h params body frame (hoccurs.tail head)
  | nil => exact h
  | _ => exact madeFrom_sentinel .notAPair

theorem MadeFrom.unary {v : Value} (h : v.MadeFrom sources) (operation : Unary) :
    (operation.apply v).MadeFrom sources := by
  cases operation with
  | car => exact h.car
  | cdr => exact h.cdr
  | _ => exact madeFrom_ofBool _

theorem MadeFrom.binary {a b : Value} (ha : a.MadeFrom sources) (hb : b.MadeFrom sources)
    (operation : Binary) : (operation.apply a b).MadeFrom sources := by
  cases operation with
  | cons => exact madeFrom_pair ha hb
  | add | sub | mul => exact madeFrom_of_sound (atomRule_true.sound_arithmetic _ a b)
  | div => exact madeFrom_of_sound (atomRule_true.sound_div a b)
  | mod => exact madeFrom_of_sound (atomRule_true.sound_mod a b)
  | lt | gt | lte | gte => exact madeFrom_of_sound (atomRule_true.sound_comparison _ a b)
  | eq => exact madeFrom_of_sound (atomRule_true.sound_eq a b)

end Value

end Lisplet
