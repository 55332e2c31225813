import Lisplet.Proofs.FrameGrowth
import Lisplet.Proofs.Reach
import Mathlib.Data.List.TakeWhile

/-!
Lexical scope. What an evaluation gives, and what it does, depends on the frames that one comes to
from its own frame and its expression, and on no others. A call depends on the frames that one
comes to from the closure and the arguments, so the bindings of its caller make no difference.
-/

set_option autoImplicit false

namespace Lisplet

namespace Evaluation

variable {α β : Type} {region : FrameId → Prop} {q : α → Prop} {r : β → Prop}

/-- Started on stores that are the same in the region, the computation ends alike, with stores
that are the same there, and what it gives is of this kind. -/
def SeesOnly (region : FrameId → Prop) (q : α → Prop) (m : Evaluation α) : Prop :=
  ∀ s t : Store, s.SameIn region t → (m.run s).1 = (m.run t).1 ∧
    (m.run s).2.SameIn region (m.run t).2 ∧ ∀ a, (m.run s).1 = .ok a → q a

namespace SeesOnly

theorem pure {a : α} (h : q a) : SeesOnly region q (Pure.pure a : Evaluation α) := by
  refine fun s t hsame => ⟨rfl, hsame, ?_⟩
  rintro b ⟨⟩
  exact h

theorem throw (failure : Failure) :
    SeesOnly region q (MonadExcept.throw failure : Evaluation α) := by
  refine fun s t hsame => ⟨rfl, hsame, ?_⟩
  rintro b ⟨⟩

theorem bind {m : Evaluation α} {next : α → Evaluation β} (hm : SeesOnly region q m)
    (hnext : ∀ a, q a → SeesOnly region r (next a)) : SeesOnly region r (m >>= next) := by
  intro s t hsame
  obtain ⟨hresult, hafter, hkind⟩ := hm s t hsame
  rw [run_bind, run_bind]
  rcases hs : m.run s with ⟨result, after⟩
  rcases ht : m.run t with ⟨other, afterwards⟩
  rw [hs, ht] at hresult hafter
  rw [hs] at hkind
  subst hresult
  cases result with
  | ok a => exact hnext a (hkind a rfl) _ _ hafter
  | error failure =>
    refine ⟨rfl, hafter, ?_⟩
    rintro b ⟨⟩

theorem ite {c : Prop} [Decidable c] {m n : Evaluation α} (hm : SeesOnly region q m)
    (hn : SeesOnly region q n) : SeesOnly region q (if c then m else n) := by
  split
  · exact hm
  · exact hn

theorem lookup {frame : FrameId} (hframe : region frame) {name : Value}
    (hname : name.Within region) :
    SeesOnly region (Value.Within region) (Evaluation.lookup frame name) := by
  intro s t hsame
  obtain ⟨heq, hwithin⟩ := hsame.lookup hframe hname
  rw [run_lookup, run_lookup, heq]
  refine ⟨rfl, hsame, ?_⟩
  rintro v ⟨⟩
  exact heq ▸ hwithin

theorem bindName (frame : FrameId) (name : Value) {value : Value} (hvalue : value.Within region) :
    SeesOnly region (Value.Within region) (Evaluation.bind frame name value) := by
  cases name with
  | symbol text =>
    intro s t hsame
    rw [run_bind_symbol, run_bind_symbol]
    refine ⟨rfl, hsame.bind frame text hvalue, ?_⟩
    rintro v ⟨⟩
    exact hvalue
  | _ => exact throw _

end SeesOnly

def StaysWithin (region : FrameId → Prop) (evaluate : Evaluator) : Prop :=
  ∀ {expr : Value} {frame : FrameId}, expr.Within region → region frame →
    SeesOnly region (Value.Within region) (evaluate expr frame)

section Inside

variable {evaluate : Evaluator} (h : StaysWithin region evaluate)
include h

theorem each_seesOnly {operands : Value} {frame : FrameId} (hoperands : operands.Within region)
    (hframe : region frame) :
    SeesOnly region (fun values => ∀ v ∈ values, v.Within region)
      (each evaluate frame operands) := by
  induction operands with
  | pair head tail _ ih =>
    obtain ⟨hhead, htail⟩ := Value.within_pair.mp hoperands
    refine .bind (h hhead hframe) fun value hvalue => ?_
    refine .bind (ih htail) fun values hvalues => .pure ?_
    simpa using ⟨hvalue, hvalues⟩
  | _ => exact .pure (by simp)

theorem clauses_seesOnly {operands : Value} {frame : FrameId}
    (hoperands : operands.Within region) (hframe : region frame) :
    SeesOnly region (Value.Within region) (clauses evaluate frame operands) := by
  induction operands with
  | pair clause rest _ ih =>
    obtain ⟨hclause, hrest⟩ := Value.within_pair.mp hoperands
    exact .bind (h hclause.car hframe) fun _ _ => .ite (ih hrest) (h hclause.cadr hframe)
  | _ => exact .pure (Value.within_sentinel .noBranchMatched)

theorem runSet_seesOnly {operands : Value} {frame : FrameId} (hoperands : operands.Within region)
    (hframe : region frame) :
    SeesOnly region (Value.Within region) (runSet evaluate frame operands) := by
  refine .ite ?_ (.pure (Value.within_sentinel .notASymbol))
  exact .bind (h hoperands.cadr hframe) fun value hvalue => .bindName _ _ hvalue

theorem runDefine_seesOnly {operands : Value} {frame : FrameId}
    (hoperands : operands.Within region) (hframe : region frame) :
    SeesOnly region (Value.Within region) (runDefine evaluate frame operands) := by
  have hsentinel : SeesOnly region (Value.Within region) (pure Sentinel.notASymbol.value) :=
    .pure (Value.within_sentinel .notASymbol)
  refine .ite hsentinel (.ite ?_ (.ite ?_ hsentinel))
  · refine .bind (h hoperands.cadr hframe) fun value hvalue => ?_
    exact .bind (.bindName _ _ hvalue) fun _ _ => .pure hoperands.car
  · have hclosure : (Value.closure operands.cadr operands.caddr frame).Within region :=
      Value.within_closure.mpr ⟨hframe, hoperands.cadr, hoperands.caddr⟩
    exact .bind (.bindName _ _ hclosure) fun _ _ => .pure hoperands.car

omit h in
theorem makeClosure_within {params body : Value} {frame : FrameId}
    (hparams : params.Within region) (hbody : body.Within region) (hframe : region frame) :
    (makeClosure params body frame).Within region := by
  unfold makeClosure
  split
  · exact Value.within_closure.mpr ⟨hframe, hparams, hbody⟩
  · exact Value.within_sentinel .notASymbol

theorem runForm_seesOnly {operands : Value} {frame : FrameId} (hoperands : operands.Within region)
    (hframe : region frame) (form : Form) :
    SeesOnly region (Value.Within region) (runForm evaluate frame operands form) := by
  have first := h hoperands.car hframe
  have second := h hoperands.cadr hframe
  have third := h hoperands.caddr hframe
  cases form with
  | quote => exact .pure hoperands.car
  | set => exact runSet_seesOnly h hoperands hframe
  | define => exact runDefine_seesOnly h hoperands hframe
  | lambda => exact .pure (makeClosure_within hoperands.car hoperands.cadr hframe)
  | and => exact .bind first fun _ _ => .ite (.pure Value.within_nil) second
  | or => exact .bind first fun _ _ => .ite second (.pure (Value.within_ofBool true))
  | «if» => exact .bind first fun _ _ => .ite third second
  | cond => exact clauses_seesOnly h hoperands hframe
  | unary operation => exact .bind first fun _ hvalue => .pure (hvalue.unary operation)
  | binary operation =>
    refine .bind first fun _ hvalue => ?_
    exact .bind second fun _ hvalue' => .pure (hvalue.binary hvalue' operation)

theorem applyTo_seesOnly {params body : Value} {captured : FrameId} {arguments : List Value}
    (hcaptured : region captured) (hbody : body.Within region)
    (harguments : ∀ v ∈ arguments, v.Within region) :
    SeesOnly region (Value.Within region) (applyTo evaluate params body captured arguments) := by
  intro s t hsame
  rw [run_applyTo, run_applyTo]
  cases hbindings : callBindings? params.toList arguments with
  | none => exact SeesOnly.pure (Value.within_sentinel .arityMismatch) s t hsame
  | some result =>
    cases result with
    | error name => exact SeesOnly.throw (.unbindable name) s t hsame
    | ok bindings =>
      have hwithin : ∀ entry ∈ bindings, entry.2.Within region := fun entry hentry =>
        harguments _ (snd_mem_of_callBindings? hbindings hentry)
      have hmade := hsame.newFrame hwithin hcaptured
      have hframe := hsame.fresh _ (Nat.le_refl _)
      have hrun := h hbody hframe _ _ hmade
      rwa [hsame.size] at hrun ⊢

theorem call_seesOnly {params body operands : Value} {frame captured : FrameId}
    (hclosure : (Value.closure params body captured).Within region)
    (hoperands : operands.Within region) (hframe : region frame) :
    SeesOnly region (Value.Within region) (call evaluate frame params body captured operands) := by
  obtain ⟨hcaptured, -, hbody⟩ := Value.within_closure.mp hclosure
  rw [call_eq]
  exact .bind (each_seesOnly h hoperands hframe) fun arguments harguments =>
    applyTo_seesOnly h hcaptured hbody harguments

theorem level_staysWithin : StaysWithin region (level evaluate) := by
  intro expr frame hexpr hframe
  cases expr with
  | symbol name => exact .lookup hframe hexpr
  | pair head operands =>
    obtain ⟨hhead, hoperands⟩ := Value.within_pair.mp hexpr
    unfold level
    dsimp only
    cases Form.ofHead? head with
    | some form => exact runForm_seesOnly h hoperands hframe form
    | none =>
      refine .bind (h hhead hframe) fun operator hoperator => ?_
      cases operator with
      | closure params body captured => exact call_seesOnly h hoperator hoperands hframe
      | _ => exact .pure hexpr
  | _ => exact .pure hexpr

end Inside

end Evaluation

theorem evaluate_staysWithin (region : FrameId → Prop) (limit : Nat) :
    Evaluation.StaysWithin region (evaluate limit) := by
  induction limit with
  | zero => exact fun _ _ => .throw .tooDeep
  | succ limit ih => exact Evaluation.level_staysWithin ih

namespace Store

def rootsAfter (roots : FrameId → Prop) (result : Except Failure Value) (i : FrameId) : Prop :=
  roots i ∨ ∃ v, result = .ok v ∧ v.Captures i

/-- Two runs, from `s` and from `t`, that no program tells apart: they end in the same way, make
the same frames, and leave the same in every frame that one comes to. What one did not come to
keeps what it held in each of them. -/
structure Indistinguishable (roots : FrameId → Prop) (s t : Store)
    (run other : Except Failure Value × Store) : Prop where
  result : run.1 = other.1
  size : run.2.frames.size = other.2.frames.size
  made : ∀ i, s.frames.size ≤ i → run.2.frames[i]? = other.2.frames[i]?
  reaches : ∀ i, run.2.Reaches (rootsAfter roots run.1) i ↔
    other.2.Reaches (rootsAfter roots other.1) i
  reached : ∀ i, run.2.Reaches (rootsAfter roots run.1) i → run.2.frames[i]? = other.2.frames[i]?
  kept : ∀ i < s.frames.size, ¬s.Reaches roots i →
    run.2.frames[i]? = s.frames[i]? ∧ other.2.frames[i]? = t.frames[i]?

variable {roots : FrameId → Prop} {s t : Store}

theorem GrowsIn.getElem?_of_ne {frame : FrameId} {before after : Store}
    (h : before.GrowsIn frame after) {i : Nat} (hi : i < before.frames.size) (hne : i ≠ frame) :
    after.frames[i]? = before.frames[i]? := by
  obtain ⟨fresh, hfresh⟩ := h
  have hf := Array.getElem?_eq_getElem hi
  rw [hfresh i _ hf, hf, if_neg hne]

/-- A computation that stays in what one comes to, and changes only what one comes to, cannot tell
two stores apart that are the same there. -/
theorem indistinguishable_of_seesOnly {m : Evaluation Value}
    (hsize : s.frames.size = t.frames.size)
    (hsame : ∀ i, s.Reaches roots i → s.frames[i]? = t.frames[i]?)
    (hsees : ∀ region : FrameId → Prop, (∀ i, roots i → region i) →
      Evaluation.SeesOnly region (Value.Within region) m)
    (hkept : ∀ (store : Store) (i : FrameId), i < store.frames.size → ¬roots i →
      (m.run store).2.frames[i]? = store.frames[i]?) :
    Indistinguishable roots s t (m.run s) (m.run t) := by
  have hstart := sameIn_of_reaches hsize hsame
  obtain ⟨hresult, hafter, hwithin⟩ := hsees _ (fun i hi => .inl (.root hi)) s t hstart
  have hroots : ∀ i, rootsAfter roots (m.run s).1 i → s.Reaches roots i ∨ s.frames.size ≤ i := by
    rintro i (hi | ⟨v, hv, hi⟩)
    · exact .inl (.root hi)
    · exact hwithin v hv i hi
  refine ⟨hresult, hafter.size, ?_, ?_, ?_, ?_⟩
  · intro i hi
    exact hafter.frame i (.inr hi)
  · intro i
    rw [← hresult]
    exact ⟨hafter.reaches hroots, hafter.symm.reaches hroots⟩
  · intro i hi
    exact hafter.frame i (hafter.closed.of_reaches hroots hi)
  · intro i hi hnot
    have hroot : ¬roots i := fun hroot => hnot (.root hroot)
    exact ⟨hkept s i hi hroot, hkept t i (hsize ▸ hi) hroot⟩

end Store

namespace Evaluation

/-- The frames that an evaluation starts from: its own, and those that its expression captured. -/
def roots (expr : Value) (frame root : FrameId) : Prop := root = frame ∨ expr.Captures root

/-- The frames that a call of a closure starts from; its caller's is not among them. -/
def callRoots (closure : Value) (arguments : List Value) (root : FrameId) : Prop :=
  closure.Captures root ∨ ∃ v ∈ arguments, v.Captures root

variable {s t : Store}

theorem evaluate_indistinguishable (limit : Nat) (expr : Value) (frame : FrameId)
    (hsize : s.frames.size = t.frames.size)
    (hsame : ∀ i, s.Reaches (roots expr frame) i → s.frames[i]? = t.frames[i]?) :
    Store.Indistinguishable (roots expr frame) s t ((evaluate limit expr frame).run s)
      ((evaluate limit expr frame).run t) := by
  refine Store.indistinguishable_of_seesOnly hsize hsame ?_ ?_
  · intro region hregion
    exact evaluate_staysWithin region limit (fun i hi => hregion i (.inr hi))
      (hregion frame (.inl rfl))
  · intro store i hi hroot
    exact (evaluate_growsOwn limit expr frame store).getElem?_of_ne hi fun heq => hroot (.inl heq)

theorem applyTo_indistinguishable (limit : Nat) (params body : Value) (captured : FrameId)
    (arguments : List Value) (hsize : s.frames.size = t.frames.size)
    (hsame : ∀ i, s.Reaches (callRoots (.closure params body captured) arguments) i →
      s.frames[i]? = t.frames[i]?) :
    Store.Indistinguishable (callRoots (.closure params body captured) arguments) s t
      ((applyTo (evaluate limit) params body captured arguments).run s)
      ((applyTo (evaluate limit) params body captured arguments).run t) := by
  refine Store.indistinguishable_of_seesOnly hsize hsame ?_ ?_
  · intro region hregion
    have hclosure : (Value.closure params body captured).Within region :=
      fun i hi => hregion i (.inl hi)
    obtain ⟨hcaptured, -, hbody⟩ := Value.within_closure.mp hclosure
    exact applyTo_seesOnly (evaluate_staysWithin region limit) hcaptured hbody
      fun v hv i hi => hregion i (.inr ⟨v, hv, hi⟩)
  · intro store i hi _
    have hf := Array.getElem?_eq_getElem hi
    rw [hf]
    exact applyTo_keeps (evaluate_growsOwn limit) params body captured arguments store i _ hf

theorem run_call {evaluate : Evaluator} {frame captured : FrameId} {params body operands : Value}
    {arguments : List Value} {before after : Store}
    (h : (each evaluate frame operands).run before = (.ok arguments, after)) :
    (call evaluate frame params body captured operands).run before =
      (applyTo evaluate params body captured arguments).run after := by
  rw [call_eq, run_bind, h]

end Evaluation

/-- An evaluation cannot tell two stores apart that are the same in the frames that one comes to
from its own frame and its expression. Nor can two calls of a closure with the same arguments, if
the stores are the same in the frames that one comes to from the closure and the arguments: which
frame called it, and what else is bound there, makes no difference. -/
theorem evaluate_sees_reached_frames_only (limit : Nat) (s t : Store)
    (hsize : s.frames.size = t.frames.size) :
    (∀ (expr : Value) (frame : FrameId),
      (∀ i, s.Reaches (Evaluation.roots expr frame) i → s.frames[i]? = t.frames[i]?) →
      Store.Indistinguishable (Evaluation.roots expr frame) s t
        ((evaluate limit expr frame).run s) ((evaluate limit expr frame).run t)) ∧
    ∀ (params body : Value) (captured : FrameId) (arguments : List Value)
      (caller other : FrameId) (operands others : Value) (before before' : Store),
      (Evaluation.each (evaluate limit) caller operands).run before = (.ok arguments, s) →
      (Evaluation.each (evaluate limit) other others).run before' = (.ok arguments, t) →
      (∀ i, s.Reaches (Evaluation.callRoots (.closure params body captured) arguments) i →
        s.frames[i]? = t.frames[i]?) →
      Store.Indistinguishable (Evaluation.callRoots (.closure params body captured) arguments) s t
        ((Evaluation.call (evaluate limit) caller params body captured operands).run before)
        ((Evaluation.call (evaluate limit) other params body captured others).run before') := by
  constructor
  · intro expr frame hsame
    exact Evaluation.evaluate_indistinguishable limit expr frame hsize hsame
  · intro params body captured arguments caller other operands others before before' hs ht hsame
    rw [Evaluation.run_call hs, Evaluation.run_call ht]
    exact Evaluation.applyTo_indistinguishable limit params body captured arguments hsize hsame

def Value.pairWithX : Value :=
  .closure (.ofList [.symbol "y"] .nil)
    (.ofList [.symbol "cons", .symbol "x", .symbol "y"] .nil) 0

def Store.hidingX (n : Int) : Store :=
  ⟨#[⟨[("f", .pairWithX), ("x", .long 1)], none⟩, ⟨[("x", .long n), ("z", .long 7)], some 0⟩]⟩

theorem Store.closed_hidingX (n : Int) : (Store.hidingX n).Closed (· = 0) where
  outwards := by
    rintro i outer f rfl hf houter
    cases hf
    cases houter
  captured := by
    rintro i f rfl hf entry hentry j hcaptured
    cases hf
    have hframes : ∀ entry ∈ [("f", Value.pairWithX), ("x", .long 1)],
        ∀ j ∈ entry.2.capturedFrames, j = 0 := by decide
    exact hframes entry hentry j (Value.captures_iff_mem.mp hcaptured)

/-- The function sees the `x` around its definition, whatever its caller binds `x` to. -/
theorem evaluate_sees_reached_frames_only_hidingX :
    Store.hidingX 2 ≠ Store.hidingX 3 ∧
    ((evaluate 9 (.ofList [.symbol "f", .long 7] .nil) 0).run (Store.hidingX 3)).1 =
      .ok (.pair (.long 1) (.long 7)) ∧
    ((Evaluation.call (evaluate 9) 1 (.ofList [.symbol "y"] .nil)
      (.ofList [.symbol "cons", .symbol "x", .symbol "y"] .nil) 0
      (.ofList [.symbol "z"] .nil)).run (Store.hidingX 3)).1 =
        .ok (.pair (.long 1) (.long 7)) := by
  have hframe : ∀ i, i = 0 → (Store.hidingX 2).frames[i]? = (Store.hidingX 3).frames[i]? := by
    rintro i rfl
    rfl
  obtain ⟨hevaluate, hcall⟩ :=
    evaluate_sees_reached_frames_only 9 (Store.hidingX 2) (Store.hidingX 3) rfl
  refine ⟨by decide, ?_, ?_⟩
  · have hroots : ∀ i, Evaluation.roots (.ofList [.symbol "f", .long 7] .nil) 0 i → i = 0 := by
      rintro i (rfl | hi)
      · rfl
      · cases Value.captures_iff_mem.mp hi
    have hsame := hevaluate (.ofList [.symbol "f", .long 7] .nil) 0 fun i hi =>
      hframe i ((Store.closed_hidingX 2).of_reaches hroots hi)
    rw [← hsame.result]
    decide +kernel
  · have hroots : ∀ i, Evaluation.callRoots Value.pairWithX [.long 7] i → i = 0 := by
      rintro i (hi | ⟨v, hv, hi⟩)
      · simpa [Value.pairWithX, Value.capturedFrames, Value.ofList] using
          Value.captures_iff_mem.mp hi
      · rw [List.mem_singleton.mp hv] at hi
        cases Value.captures_iff_mem.mp hi
    have hsame := hcall (.ofList [.symbol "y"] .nil)
      (.ofList [.symbol "cons", .symbol "x", .symbol "y"] .nil) 0 [.long 7] 1 1
      (.ofList [.symbol "z"] .nil) (.ofList [.symbol "z"] .nil) (Store.hidingX 2)
      (Store.hidingX 3) (Prod.ext (by decide +kernel) (by decide +kernel))
      (Prod.ext (by decide +kernel) (by decide +kernel)) fun i hi =>
        hframe i ((Store.closed_hidingX 2).of_reaches hroots hi)
    rw [← hsame.result]
    decide +kernel

end Lisplet
