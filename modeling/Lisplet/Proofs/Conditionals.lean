import Lisplet.Proofs.EvaluationTasks
import Lisplet.Proofs.SpareDepth

/-!
Conditionals. All forms that choose by tests come down to `if`: `cond` is a chain of them, `and` and
`or` are one each. The tests are evaluated in turn up to the first that holds, each in the store
that the one before leaves, and after them at most the one branch that was chosen.
-/

set_option autoImplicit false

namespace Lisplet

namespace Value

def ifForm (test yes no : Value) : Value := ofList [.symbol "if", test, yes, no] .nil

def andForm (first second : Value) : Value := ofList [.symbol "and", first, second] .nil

def orForm (first second : Value) : Value := ofList [.symbol "or", first, second] .nil

def condForm (clauses : List (Value × Value)) : Value :=
  .pair (.symbol "cond")
    (ofList (clauses.map fun clause => ofList [clause.1, clause.2] .nil) .nil)

/-- An `if` for each clause, inside the one for the clause before. -/
def ifChain : List (Value × Value) → Value
  | [] => Sentinel.noBranchMatched.value.quotation
  | clause :: rest => ifForm clause.1 clause.2 (ifChain rest)

end Value

/-- What a test can choose: a value that needs no evaluation, or an expression. -/
inductive Branch where
  | value (v : Value)
  | expression (expr : Value)
  deriving DecidableEq

def Branch.ofClauses (clauses : List (Value × Value)) : List (Value × Branch) :=
  clauses.map fun clause => (clause.1, .expression clause.2)

namespace Evaluation

variable {σ : Type} [FrameStore σ]

def takeBranch (evaluate : EvaluatorOn σ) (frame : FrameId) : Branch → Computation σ Value
  | .value v => return v
  | .expression expr => evaluate expr frame

/-- Takes the branch of the first test that is not `nil`, and `otherwise` if there is none. -/
def choose (evaluate : EvaluatorOn σ) (frame : FrameId) (otherwise : Branch) :
    List (Value × Branch) → Computation σ Value
  | [] => takeBranch evaluate frame otherwise
  | (test, branch) :: rest => do
    if (← evaluate test frame).isNil then choose evaluate frame otherwise rest
    else takeBranch evaluate frame branch

section Level

variable (evaluate : EvaluatorOn σ) (frame : FrameId)

theorem level_if (test yes no : Value) :
    level evaluate (.ifForm test yes no) frame =
      choose evaluate frame (.expression no) [(test, .expression yes)] := rfl

theorem level_and (first second : Value) :
    level evaluate (.andForm first second) frame =
      choose evaluate frame (.value .nil) [(first, .expression second)] := rfl

theorem level_or (first second : Value) :
    level evaluate (.orForm first second) frame =
      choose evaluate frame (.expression second) [(first, .value .truth)] := rfl

theorem level_cond (clauses : List (Value × Value)) :
    level evaluate (.condForm clauses) frame =
      choose evaluate frame (.value Sentinel.noBranchMatched.value)
        (Branch.ofClauses clauses) := by
  change Evaluation.clauses evaluate frame
    (.ofList (clauses.map fun clause => .ofList [clause.1, clause.2] .nil) .nil) = _
  induction clauses with
  | nil => rfl
  | cons clause rest ih =>
    refine congrArg (evaluate clause.1 frame >>= ·) (funext fun test => ?_)
    exact congrArg (if test.isNil then · else evaluate clause.2 frame) ih

end Level

end Evaluation

theorem EndsLike.trans {σ α : Type} {m n k : Computation σ α} (h : EndsLike Eq m n)
    (h' : EndsLike Eq n k) : EndsLike Eq m k := by
  rintro s t rfl hends
  obtain ⟨hresult, hafter⟩ := h s s rfl hends
  obtain ⟨hresult', hafter'⟩ := h' s s rfl (hresult ▸ hends)
  exact ⟨hresult'.trans hresult, hafter.trans hafter'⟩

theorem EndsLike.run_eq {σ α : Type} {m n : Computation σ α} (h : EndsLike Eq m n) {s : σ}
    (hends : (m.run s).1 ≠ .error .tooDeep) : n.run s = m.run s := by
  obtain ⟨hresult, hafter⟩ := h s s rfl hends
  exact Prod.ext hresult hafter.symm

namespace Evaluation

variable (limit : Nat) (frame : FrameId)

section Chain

variable {σ : Type} [FrameStore σ]

theorem evaluate_cond (clauses : List (Value × Value)) :
    (evaluate (limit + 1) (.condForm clauses) frame : Computation σ Value) =
      choose (evaluate limit) frame (.value Sentinel.noBranchMatched.value)
        (Branch.ofClauses clauses) := by
  rw [evaluate, level_cond]

theorem evaluate_if (test yes no : Value) :
    (evaluate (limit + 1) (.ifForm test yes no) frame : Computation σ Value) =
      choose (evaluate limit) frame (.expression no) [(test, .expression yes)] := by
  rw [evaluate, level_if]

/-- Each `if` of the chain is one level further inside. -/
theorem cond_endsLike_ifChain (clauses : List (Value × Value)) :
    EndsLike Eq (evaluate limit (.condForm clauses) frame : Computation σ Value)
      (evaluate (limit + clauses.length) (.ifChain clauses) frame) := by
  cases limit with
  | zero => exact .tooDeep _
  | succ limit =>
    induction clauses with
    | nil => exact .refl _
    | cons clause rest ih =>
      rw [evaluate_cond] at ih
      rw [evaluate_cond, List.length_cons, ← Nat.add_assoc, Value.ifChain, evaluate_if]
      have hle : limit ≤ limit + 1 + rest.length := by omega
      exact (evaluate_endsLike hle clause.1 frame).bind fun test =>
        .ite ih (evaluate_endsLike hle clause.2 frame)

theorem ifChain_endsLike_cond (clauses : List (Value × Value)) :
    EndsLike Eq (evaluate limit (.ifChain clauses) frame : Computation σ Value)
      (evaluate limit (.condForm clauses) frame) := by
  induction clauses generalizing limit with
  | nil =>
    cases limit with
    | zero => exact .tooDeep _
    | succ limit => exact .refl _
  | cons clause rest ih =>
    cases limit with
    | zero => exact .tooDeep _
    | succ limit =>
      have hrest := (ih limit).trans (evaluate_endsLike (Nat.le_succ limit) _ frame)
      rw [evaluate_cond] at hrest
      rw [evaluate_cond, Value.ifChain, evaluate_if]
      exact (EndsLike.refl (evaluate limit clause.1 frame)).bind fun test =>
        .ite hrest (.refl _)

/-- What is taken after a test may need one level, since the test has needed one. -/
theorem choose_congr {branch branch' otherwise otherwise' : Branch}
    (hbranch : ∀ n, (takeBranch (evaluate (n + 1)) frame branch : Computation σ Value) =
      takeBranch (evaluate (n + 1)) frame branch')
    (hotherwise : ∀ n, (takeBranch (evaluate (n + 1)) frame otherwise : Computation σ Value) =
      takeBranch (evaluate (n + 1)) frame otherwise') (test : Value) :
    (choose (evaluate limit) frame otherwise [(test, branch)] : Computation σ Value) =
      choose (evaluate limit) frame otherwise' [(test, branch')] := by
  cases limit with
  | zero => rfl
  | succ limit => simp only [choose, hbranch, hotherwise]

theorem evaluate_and (first second : Value) :
    (evaluate limit (.andForm first second) frame : Computation σ Value) =
      evaluate limit (.ifForm first second .nil) frame := by
  cases limit with
  | zero => rfl
  | succ limit =>
    rw [evaluate, level_and, evaluate_if]
    apply choose_congr
    · exact fun _ => rfl
    · exact fun _ => rfl

theorem evaluate_or (first second : Value) :
    (evaluate limit (.orForm first second) frame : Computation σ Value) =
      evaluate limit (.ifForm first Value.truth.quotation second) frame := by
  cases limit with
  | zero => rfl
  | succ limit =>
    rw [evaluate, level_or, evaluate_if]
    apply choose_congr
    · exact fun _ => rfl
    · exact fun _ => rfl

end Chain

section Choice

variable (otherwise : Branch)

def takingEnds (store : Store) : Branch → Except Failure Value × Store
  | .value v => (.ok v, store)
  | .expression expr => (evaluate limit expr frame).run store

def takingTasks (store : Store) : Branch → List Task
  | .value _ => []
  | .expression expr => tasks limit expr frame store

/-- How a choice goes on in a store: the tasks that it adds, the result and the store in the end.
The tests are evaluated in turn, up to one that fails or is not `nil`. -/
inductive ChoiceRun :
    Store → List (Value × Branch) → List Task → Except Failure Value × Store → Prop
  | otherwise (store : Store) :
    ChoiceRun store [] (takingTasks limit frame store otherwise)
      (takingEnds limit frame store otherwise)
  | stops {store after : Store} {test : Value} {failure : Failure} (branch : Branch)
    (rest : List (Value × Branch))
    (hrun : (evaluate limit test frame).run store = (.error failure, after)) :
    ChoiceRun store ((test, branch) :: rest) (tasks limit test frame store)
      (.error failure, after)
  | chosen {store mid : Store} {test value : Value} (branch : Branch)
    (rest : List (Value × Branch))
    (hrun : (evaluate limit test frame).run store = (.ok value, mid)) (hvalue : value ≠ .nil) :
    ChoiceRun store ((test, branch) :: rest)
      (tasks limit test frame store ++ takingTasks limit frame mid branch)
      (takingEnds limit frame mid branch)
  | passed {store mid : Store} {test : Value} {rest : List (Value × Branch)} {added : List Task}
    {run : Except Failure Value × Store} (branch : Branch)
    (hrun : (evaluate limit test frame).run store = (.ok .nil, mid))
    (hrest : ChoiceRun mid rest added run) :
    ChoiceRun store ((test, branch) :: rest) (tasks limit test frame store ++ added) run

theorem run_takeBranch (store : Store) (branch : Branch) (before : List Task) :
    (takeBranch (recording limit) frame branch).run ⟨store, before⟩ =
      ((takingEnds limit frame store branch).1, ⟨(takingEnds limit frame store branch).2,
        before ++ takingTasks limit frame store branch⟩) := by
  cases branch with
  | value v => exact congrArg (fun tasks => (_, TaskedStore.mk store tasks)) before.append_nil.symm
  | expression expr => exact run_recording limit expr frame store before

theorem exists_choiceRun (clauses : List (Value × Branch)) (store : Store) :
    ∃ added run, ChoiceRun limit frame otherwise store clauses added run ∧
      ∀ before, (choose (recording limit) frame otherwise clauses).run ⟨store, before⟩ =
        (run.1, ⟨run.2, before ++ added⟩) := by
  induction clauses generalizing store with
  | nil => exact ⟨_, _, .otherwise store, run_takeBranch limit frame store otherwise⟩
  | cons clause rest ih =>
    obtain ⟨test, branch⟩ := clause
    have htest := run_recording limit test frame store
    rcases hrun : (evaluate limit test frame).run store with ⟨result, mid⟩
    rw [hrun] at htest
    cases result with
    | error failure =>
      refine ⟨_, _, .stops branch rest hrun, fun before => ?_⟩
      rw [choose, run_bind, htest before]
    | ok value =>
      by_cases hnil : value = .nil
      · subst hnil
        obtain ⟨added, run, hchoice, hrest⟩ := ih mid
        refine ⟨_, run, .passed branch hrun hchoice, fun before => ?_⟩
        rw [choose, run_bind, htest before, ← List.append_assoc]
        exact hrest _
      · refine ⟨_, _, .chosen branch rest hrun hnil, fun before => ?_⟩
        have hisNil : value.isNil = false := by
          rw [← Bool.not_eq_true, Value.isNil_iff]
          exact hnil
        rw [choose, run_bind, htest before, ← List.append_assoc]
        simp only [hisNil, Bool.false_eq_true, ↓reduceIte]
        exact run_takeBranch limit frame mid branch _

end Choice

/-- Evaluating the form is a choice by these clauses, and nothing else is evaluated. -/
def Chooses (form : Value) (otherwise : Branch) (clauses : List (Value × Branch)) : Prop :=
  ∀ (limit : Nat) (frame : FrameId) (store : Store), ∃ added,
    ChoiceRun limit frame otherwise store clauses added
      ((evaluate (limit + 1) form frame).run store) ∧
    tasks (limit + 1) form frame store = ⟨form, frame, store⟩ :: added

theorem chooses_of_level {form : Value} {otherwise : Branch} {clauses : List (Value × Branch)}
    (h : ∀ (evaluate : EvaluatorOn TaskedStore) (frame : FrameId),
      Evaluation.level evaluate form frame = choose evaluate frame otherwise clauses) :
    Chooses form otherwise clauses := by
  intro limit frame store
  obtain ⟨added, run, hchoice, hadded⟩ := exists_choiceRun limit frame otherwise clauses store
  let first : Task := ⟨form, frame, store⟩
  have hrun : (recording (limit + 1) form frame).run ⟨store, []⟩ =
      (run.1, ⟨run.2, first :: added⟩) := by
    change (Evaluation.level (recording limit) form frame).run ⟨store, [first]⟩ = _
    rw [h]
    exact hadded _
  rw [run_recording] at hrun
  obtain ⟨hresult, hstate⟩ := Prod.mk.inj hrun
  obtain ⟨hafter, htasks⟩ := TaskedStore.mk.inj hstate
  have heq : (evaluate (limit + 1) form frame).run store = run := Prod.ext hresult hafter
  exact ⟨added, heq ▸ hchoice, htasks⟩

end Evaluation

/-- But for how deep they nest, `cond` ends as a chain of `if` does, with the same store; `and` and
`or` end as one `if` does, and nest as deep. The tests are evaluated in turn up to the first that
is not `nil`, and then the branch that it chooses. -/
theorem conditionals_end_like_if (clauses : List (Value × Value)) (first second : Value)
    (frame : FrameId) (store : Store) :
    (∀ limit, ((evaluate limit (.condForm clauses) frame).run store).1 ≠ .error .tooDeep →
      (evaluate (limit + clauses.length) (.ifChain clauses) frame).run store =
        (evaluate limit (.condForm clauses) frame).run store) ∧
    (∀ limit, ((evaluate limit (.ifChain clauses) frame).run store).1 ≠ .error .tooDeep →
      (evaluate limit (.condForm clauses) frame).run store =
        (evaluate limit (.ifChain clauses) frame).run store) ∧
    (∀ limit, (evaluate limit (.andForm first second) frame).run store =
      (evaluate limit (.ifForm first second .nil) frame).run store) ∧
    (∀ limit, (evaluate limit (.orForm first second) frame).run store =
      (evaluate limit (.ifForm first Value.truth.quotation second) frame).run store) ∧
    Evaluation.Chooses (.condForm clauses) (.value Sentinel.noBranchMatched.value)
      (Branch.ofClauses clauses) ∧
    Evaluation.Chooses (.andForm first second) (.value .nil) [(first, .expression second)] ∧
    Evaluation.Chooses (.orForm first second) (.expression second) [(first, .value .truth)] := by
  refine ⟨?_, ?_, ?_, ?_, ?_, ?_, ?_⟩
  · exact fun limit hends => (Evaluation.cond_endsLike_ifChain limit frame clauses).run_eq hends
  · exact fun limit hends => (Evaluation.ifChain_endsLike_cond limit frame clauses).run_eq hends
  · exact fun limit => by rw [Evaluation.evaluate_and]
  · exact fun limit => by rw [Evaluation.evaluate_or]
  · exact Evaluation.chooses_of_level fun evaluate frame =>
      Evaluation.level_cond evaluate frame clauses
  · exact Evaluation.chooses_of_level fun evaluate frame =>
      Evaluation.level_and evaluate frame first second
  · exact Evaluation.chooses_of_level fun evaluate frame =>
      Evaluation.level_or evaluate frame first second

/-- The first test binds `x` to `nil`, the second one holds by what it binds, and the third one
would bind `x` again. -/
def Value.bindingClauses : List (Value × Value) :=
  [(ofList [.symbol "set", .symbol "x", .nil] .nil, .symbol "first"),
   (ofList [.symbol "set", .symbol "y", .long 2] .nil,
    ofList [.symbol "cons", .symbol "y", .symbol "x"] .nil),
   (ofList [.symbol "set", .symbol "x", .long 3] .nil, .symbol "x")]

theorem conditionals_end_like_if_bindingClauses :
    let outcome : Except Failure Value × Store :=
      (.ok (.pair (.long 2) .nil), ⟨#[⟨[("y", .long 2), ("x", .nil)], none⟩]⟩)
    (evaluate 3 (.condForm Value.bindingClauses) 0).run Store.withGlobal = outcome ∧
    (evaluate 6 (.ifChain Value.bindingClauses) 0).run Store.withGlobal = outcome ∧
    (evaluate 4 (.ifChain Value.bindingClauses) 0).run Store.withGlobal = outcome ∧
    (evaluate 4 (.condForm Value.bindingClauses) 0).run Store.withGlobal = outcome := by
  intro outcome
  obtain ⟨hchain, hcond, -⟩ := conditionals_end_like_if Value.bindingClauses .nil .nil 0
    Store.withGlobal
  have hshort : (evaluate 3 (.condForm Value.bindingClauses) 0).run Store.withGlobal = outcome :=
    Prod.ext (by decide +kernel) (by decide +kernel)
  have hlong : (evaluate 4 (.ifChain Value.bindingClauses) 0).run Store.withGlobal = outcome :=
    Prod.ext (by decide +kernel) (by decide +kernel)
  refine ⟨hshort, (hchain 3 ?_).trans hshort, hlong, (hcond 4 ?_).trans hlong⟩
  · rw [hshort]
    decide
  · rw [hlong]
    decide

end Lisplet
