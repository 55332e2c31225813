import Lisplet.Failure
import Lisplet.Primitive
import Lisplet.Store

/-!
Evaluation of an expression in a frame. A form is recognised by the name at the head of a pair
and decides itself which operands to evaluate; any other pair is a call, when its head evaluates
to a closure, and otherwise evaluates to itself. Evaluations nest up to a limit. What was bound
before a failure stays bound.
-/

set_option autoImplicit false

namespace Lisplet

/-- A computation in some state that may fail; a failure keeps the changes of the state. -/
abbrev Computation (σ : Type) := ExceptT Failure (StateM σ)

abbrev EvaluatorOn (σ : Type) := Value → FrameId → Computation σ Value

abbrev Evaluation := Computation Store

abbrev Evaluator := EvaluatorOn Store

inductive Form where
  | quote
  | set
  | define
  | lambda
  | and
  | or
  | if
  | cond
  | unary (operation : Unary)
  | binary (operation : Binary)
  deriving DecidableEq, Repr

def Form.table : List (String × Form) :=
  [("quote", .quote), ("set", .set), ("define", .define), ("lambda", .lambda), ("and", .and),
   ("or", .or), ("if", .if), ("cond", .cond), ("cons", .binary .cons), ("car", .unary .car),
   ("cdr", .unary .cdr), ("add", .binary .add), ("sub", .binary .sub), ("mul", .binary .mul),
   ("div", .binary .div), ("mod", .binary .mod), ("lt", .binary .lt), ("gt", .binary .gt),
   ("lte", .binary .lte), ("gte", .binary .gte), ("eq", .binary .eq), ("not", .unary .not),
   ("nil?", .unary .isNil), ("symbol?", .unary .isSymbol), ("number?", .unary .isNumber),
   ("string?", .unary .isString), ("list?", .unary .isList)]

def Form.ofHead? : Value → Option Form
  | .symbol name => Form.table.lookup name
  | _ => none

namespace Evaluation

variable {σ : Type} [FrameStore σ]

def lookup (frame : FrameId) (name : Value) : Computation σ Value := do
  return FrameStore.lookup (← get) frame name

def bind (frame : FrameId) (name value : Value) : Computation σ Value :=
  match name with
  | .symbol text => do
    modify fun store => FrameStore.bind store frame text value
    return value
  | _ => throw (.unbindable name)

/-- Makes the frame of a call; none when the counts differ. -/
def enter (params arguments : List Value) (captured : FrameId) :
    Computation σ (Option FrameId) := do
  match callBindings? params arguments with
  | none => return none
  | some (.error name) => throw (.unbindable name)
  | some (.ok bindings) =>
    let frame ← modifyGet fun store =>
      (FrameStore.size store, FrameStore.addFrame store bindings (some captured))
    return some frame

def makeClosure (params body : Value) (frame : FrameId) : Value :=
  if params.isParameterList then .closure params body frame else Sentinel.notASymbol.value

def each (evaluate : EvaluatorOn σ) (frame : FrameId) : Value → Computation σ (List Value)
  | .pair head tail => do
    let value ← evaluate head frame
    let values ← each evaluate frame tail
    return value :: values
  | _ => return []

/-- Evaluates the result of the first clause whose test is not `nil`. -/
def clauses (evaluate : EvaluatorOn σ) (frame : FrameId) : Value → Computation σ Value
  | .pair clause rest => do
    if (← evaluate clause.car frame).isNil then clauses evaluate frame rest
    else evaluate clause.cadr frame
  | _ => return Sentinel.noBranchMatched.value

def runSet (evaluate : EvaluatorOn σ) (frame : FrameId) (operands : Value) :
    Computation σ Value := do
  if operands.car.isSymbol then
    let value ← evaluate operands.cadr frame
    bind frame operands.car value
  else return Sentinel.notASymbol.value

/-- Binds a symbol, to the value of an expression or to a closure whose parameters and body
are given, and answers with the symbol. -/
def runDefine (evaluate : EvaluatorOn σ) (frame : FrameId) (operands : Value) :
    Computation σ Value := do
  let name := operands.car
  if !name.isSymbol then return Sentinel.notASymbol.value
  else if operands.cddr.isNil then
    let value ← evaluate operands.cadr frame
    let _ ← bind frame name value
    return name
  else if operands.cadr.isParameterList then
    let _ ← bind frame name (.closure operands.cadr operands.caddr frame)
    return name
  else return Sentinel.notASymbol.value

/-- Evaluates a form with these operands; a missing operand counts as `nil`. -/
def runForm (evaluate : EvaluatorOn σ) (frame : FrameId) (operands : Value) :
    Form → Computation σ Value
  | .quote => return operands.car
  | .set => runSet evaluate frame operands
  | .define => runDefine evaluate frame operands
  | .lambda => return makeClosure operands.car operands.cadr frame
  | .and => do
    if (← evaluate operands.car frame).isNil then return .nil
    else evaluate operands.cadr frame
  | .or => do
    if (← evaluate operands.car frame).isNil then evaluate operands.cadr frame
    else return .truth
  | .if => do
    if (← evaluate operands.car frame).isNil then evaluate operands.caddr frame
    else evaluate operands.cadr frame
  | .cond => clauses evaluate frame operands
  | .unary operation => do
    let value ← evaluate operands.car frame
    return operation.apply value
  | .binary operation => do
    let first ← evaluate operands.car frame
    let second ← evaluate operands.cadr frame
    return operation.apply first second

/-- Calls a closure: the arguments are evaluated in the caller's frame, the body in a new frame
inside the one that the closure captured. -/
def call (evaluate : EvaluatorOn σ) (frame : FrameId) (params body : Value) (captured : FrameId)
    (operands : Value) : Computation σ Value := do
  let arguments ← each evaluate frame operands
  match ← enter params.toList arguments captured with
  | none => return Sentinel.arityMismatch.value
  | some inner => evaluate body inner

def level (evaluate : EvaluatorOn σ) (expr : Value) (frame : FrameId) : Computation σ Value :=
  match expr with
  | .symbol _ => lookup frame expr
  | .pair head operands =>
    match Form.ofHead? head with
    | some form => runForm evaluate frame operands form
    | none => do
      match ← evaluate head frame with
      | .closure params body captured => call evaluate frame params body captured operands
      | _ => return expr
  | _ => return expr

end Evaluation

/-- Evaluates an expression in a frame, with at most `limit` evaluations inside each other. -/
def evaluate {σ : Type} [FrameStore σ] : Nat → EvaluatorOn σ
  | 0, _, _ => throw .tooDeep
  | limit + 1, expr, frame => Evaluation.level (evaluate limit) expr frame

end Lisplet
