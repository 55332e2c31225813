import Lisplet.Proofs.EvaluationRun

/-!
Relations between two evaluators, each over frames of its own. The forms only look up names, bind
them and put computations one after another, so a relation that this keeps holds between the forms
when it holds between what is evaluated inside them. Calls enter other frames and come in as an
assumption.
-/

set_option autoImplicit false

namespace Lisplet

namespace Evaluation

variable {σ τ : Type}

theorem related_ite {α : Type} {Related : Computation σ α → Computation τ α → Prop} {p : Prop}
    [Decidable p] {m m' : Computation σ α} {n n' : Computation τ α} (h : Related m n)
    (h' : Related m' n') : Related (if p then m else m') (if p then n else n') := by
  split
  · exact h
  · exact h'

variable [FrameStore σ] [FrameStore τ]

/-- What the forms do in a frame keeps the relation. -/
structure Parametric (frame : FrameId)
    (Related : ∀ {α : Type}, Computation σ α → Computation τ α → Prop) : Prop where
  pure : ∀ {α : Type} (a : α), Related (Pure.pure a) (Pure.pure a)
  throw : ∀ {α : Type} (failure : Failure),
    Related (MonadExcept.throw failure : Computation σ α) (MonadExcept.throw failure)
  bind : ∀ {α β : Type} {m : Computation σ α} {n : Computation τ α} {f : α → Computation σ β}
    {g : α → Computation τ β}, Related m n → (∀ a, Related (f a) (g a)) →
    Related (m >>= f) (n >>= g)
  lookup : ∀ name : Value,
    Related (Evaluation.lookup frame name) (Evaluation.lookup frame name)
  bindSymbol : ∀ (name : String) (value : Value),
    Related (Evaluation.bind frame (.symbol name) value)
      (Evaluation.bind frame (.symbol name) value)

namespace Parametric

variable {frame : FrameId}
  {Related : ∀ {α : Type}, Computation σ α → Computation τ α → Prop}
  (h : Parametric frame Related)
include h

theorem bindName (name value : Value) :
    Related (Evaluation.bind frame name value) (Evaluation.bind frame name value) := by
  cases name with
  | symbol text => exact h.bindSymbol text value
  | _ => exact h.throw _

theorem enter (params arguments : List Value) (captured : FrameId)
    (hframe : ∀ bindings : List (String × Value),
      Related
        (modifyGet fun s => (FrameStore.size s, FrameStore.addFrame s bindings (some captured)))
        (modifyGet fun s => (FrameStore.size s, FrameStore.addFrame s bindings (some captured)))) :
    Related (Evaluation.enter params arguments captured)
      (Evaluation.enter params arguments captured) := by
  unfold Evaluation.enter
  cases callBindings? params arguments with
  | none => exact h.pure none
  | some result =>
    cases result with
    | error name => exact h.throw _
    | ok bindings => exact h.bind (hframe bindings) fun inner => h.pure (some inner)

variable {ev : EvaluatorOn σ} {ew : EvaluatorOn τ}

theorem applyTo (params : Value) {body : Value} (captured : FrameId) (arguments : List Value)
    (hframe : ∀ bindings : List (String × Value),
      Related
        (modifyGet fun s => (FrameStore.size s, FrameStore.addFrame s bindings (some captured)))
        (modifyGet fun s => (FrameStore.size s, FrameStore.addFrame s bindings (some captured))))
    (hbody : ∀ inner, Related (ev body inner) (ew body inner)) :
    Related (Evaluation.applyTo ev params body captured arguments)
      (Evaluation.applyTo ew params body captured arguments) := by
  refine h.bind (h.enter params.toList arguments captured hframe) fun entered => ?_
  cases entered with
  | none => exact h.pure _
  | some inner => exact hbody inner

variable (hev : ∀ expr, Related (ev expr frame) (ew expr frame))
include hev

theorem each (operands : Value) :
    Related (Evaluation.each ev frame operands) (Evaluation.each ew frame operands) := by
  induction operands with
  | pair head tail _ ih =>
    exact h.bind (hev head) fun value => h.bind ih fun values => h.pure (value :: values)
  | _ => exact h.pure []

theorem clauses (operands : Value) :
    Related (Evaluation.clauses ev frame operands) (Evaluation.clauses ew frame operands) := by
  induction operands with
  | pair clause rest _ ih =>
    exact h.bind (hev clause.car) fun test => related_ite ih (hev clause.cadr)
  | _ => exact h.pure _

theorem runSet (operands : Value) :
    Related (Evaluation.runSet ev frame operands) (Evaluation.runSet ew frame operands) := by
  refine related_ite ?_ (h.pure _)
  exact h.bind (hev operands.cadr) fun value => h.bindName operands.car value

theorem runDefine (operands : Value) :
    Related (Evaluation.runDefine ev frame operands)
      (Evaluation.runDefine ew frame operands) := by
  refine related_ite (h.pure _) (related_ite ?_ (related_ite ?_ (h.pure _)))
  · refine h.bind (hev operands.cadr) fun value => ?_
    exact h.bind (h.bindName operands.car value) fun _ => h.pure operands.car
  · exact h.bind (h.bindName operands.car _) fun _ => h.pure operands.car

theorem runForm (operands : Value) (form : Form) :
    Related (Evaluation.runForm ev frame operands form)
      (Evaluation.runForm ew frame operands form) := by
  have first := hev operands.car
  have second := hev operands.cadr
  cases form with
  | quote => exact h.pure _
  | set => exact h.runSet hev operands
  | define => exact h.runDefine hev operands
  | lambda => exact h.pure _
  | and => exact h.bind first fun test => related_ite (h.pure _) second
  | or => exact h.bind first fun test => related_ite second (h.pure _)
  | «if» => exact h.bind first fun test => related_ite (hev operands.caddr) second
  | cond => exact h.clauses hev operands
  | unary operation => exact h.bind first fun value => h.pure _
  | binary operation => exact h.bind first fun a => h.bind second fun b => h.pure _

variable (ev ew) in
/-- One level of evaluation in a frame keeps what the evaluations inside and the calls keep. -/
theorem level (hcall : ∀ (params body : Value) (captured : FrameId) (arguments : List Value),
      Related (Evaluation.applyTo ev params body captured arguments)
        (Evaluation.applyTo ew params body captured arguments))
    (expr : Value) :
    Related (Evaluation.level ev expr frame) (Evaluation.level ew expr frame) := by
  cases expr with
  | symbol name => exact h.lookup (.symbol name)
  | pair head operands =>
    unfold Evaluation.level
    dsimp only
    cases Form.ofHead? head with
    | some form => exact h.runForm hev operands form
    | none =>
      refine h.bind (hev head) fun operator => ?_
      cases operator with
      | closure params body captured =>
        exact h.bind (h.each hev operands) fun arguments => hcall params body captured arguments
      | _ => exact h.pure _
  | _ => exact h.pure _

end Parametric

end Evaluation

end Lisplet
