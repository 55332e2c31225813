import Lisplet.Proofs.ParametricEvaluation

/-!
The tasks of an evaluation: which expressions are evaluated while one is evaluated, in which
frames, and what the stores are when they are begun. They are noted by the evaluator itself, over
a store that comes with a list of tasks. This changes nothing else, and the tasks that an
evaluation adds to the list do not depend on those that stand there.
-/

set_option autoImplicit false

namespace Lisplet

structure Evaluation.Task where
  expr : Value
  frame : FrameId
  store : Store
  deriving DecidableEq

/-- A store and the tasks so far, in the order in which they were begun. -/
structure TaskedStore where
  store : Store
  tasks : List Evaluation.Task

namespace TaskedStore

instance : FrameStore TaskedStore where
  size s := FrameStore.size s.store
  entry? s := FrameStore.entry? s.store
  outer? s := FrameStore.outer? s.store
  bind s frame name value := { s with store := FrameStore.bind s.store frame name value }
  addFrame s bindings outer := { s with store := FrameStore.addFrame s.store bindings outer }

theorem lookup_eq (s : TaskedStore) (frame : FrameId) (name : Value) :
    FrameStore.lookup s frame name = s.store.lookup frame name := by
  rw [Store.lookup]
  apply FrameStore.lookup_congr
  · intro i name
    rfl
  · intro i
    rfl

end TaskedStore

namespace Evaluation

def noting (evaluate : EvaluatorOn TaskedStore) : EvaluatorOn TaskedStore := fun expr frame => do
  modify fun s => { s with tasks := s.tasks ++ [⟨expr, frame, s.store⟩] }
  evaluate expr frame

/-- The evaluator, noting what it is asked to evaluate. -/
def recording : Nat → EvaluatorOn TaskedStore
  | 0 => noting fun _ _ => throw .tooDeep
  | limit + 1 => noting (level (recording limit))

def tasks (limit : Nat) (expr : Value) (frame : FrameId) (store : Store) : List Task :=
  ((recording limit expr frame).run ⟨store, []⟩).2.tasks

variable {α β : Type}

/-- `n` ends as `m` does, with the store that `m` leaves, and adds tasks to those that stand there
without looking at them. -/
def Notes (m : Evaluation α) (n : Computation TaskedStore α) : Prop :=
  ∀ store, ∃ added, ∀ before,
    n.run ⟨store, before⟩ = ((m.run store).1, ⟨(m.run store).2, before ++ added⟩)

namespace Notes

theorem pure (a : α) : Notes (Pure.pure a) (Pure.pure a) := fun store =>
  ⟨[], fun before => by rw [List.append_nil]; rfl⟩

theorem throw (failure : Failure) :
    Notes (MonadExcept.throw failure : Evaluation α) (MonadExcept.throw failure) := fun store =>
  ⟨[], fun before => by rw [List.append_nil]; rfl⟩

theorem bind {m : Evaluation α} {n : Computation TaskedStore α} {f : α → Evaluation β}
    {g : α → Computation TaskedStore β} (h : Notes m n) (hnext : ∀ a, Notes (f a) (g a)) :
    Notes (m >>= f) (n >>= g) := by
  intro store
  obtain ⟨added, hadded⟩ := h store
  rcases hm : m.run store with ⟨result, after⟩
  rw [hm] at hadded
  cases result with
  | error failure =>
    refine ⟨added, fun before => ?_⟩
    rw [run_bind, run_bind, hadded before, hm]
  | ok a =>
    obtain ⟨more, hmore⟩ := hnext a after
    refine ⟨added ++ more, fun before => ?_⟩
    rw [run_bind, run_bind, hadded before, hm]
    simp only [hmore, List.append_assoc]

theorem lookup (frame : FrameId) (name : Value) :
    Notes (Evaluation.lookup frame name) (Evaluation.lookup frame name) := by
  refine fun store => ⟨[], fun before => ?_⟩
  change (Except.ok (FrameStore.lookup (TaskedStore.mk store before) frame name), _) = _
  rw [TaskedStore.lookup_eq, List.append_nil]
  rfl

theorem parametric (frame : FrameId) :
    Parametric frame fun (m : Evaluation _) (n : Computation TaskedStore _) => Notes m n where
  pure := pure
  throw := throw
  bind := bind
  lookup := lookup frame
  bindSymbol _ _ := fun store => ⟨[], fun before => by rw [List.append_nil]; rfl⟩

theorem newFrame (bindings : List (String × Value)) (outer : Option FrameId) :
    Notes
      (modifyGet fun s => (FrameStore.size s, FrameStore.addFrame s bindings outer))
      (modifyGet fun s => (FrameStore.size s, FrameStore.addFrame s bindings outer)) :=
  fun store => ⟨[], fun before => by rw [List.append_nil]; rfl⟩

end Notes

section Inside

variable {ev : Evaluator} {ew : EvaluatorOn TaskedStore}
  (h : ∀ expr frame, Notes (ev expr frame) (ew expr frame))
include h

theorem notes_level (expr : Value) (frame : FrameId) :
    Notes (level ev expr frame) (level ew expr frame) := by
  have hforms := Notes.parametric frame
  refine hforms.level ev ew (fun expr => h expr frame)
    (fun params body captured arguments => ?_) expr
  exact hforms.applyTo params captured arguments
    (fun bindings => .newFrame bindings (some captured)) fun inner => h body inner

theorem notes_noting (expr : Value) (frame : FrameId) :
    Notes (ev expr frame) (noting ew expr frame) := by
  intro store
  obtain ⟨added, hadded⟩ := h expr frame store
  refine ⟨⟨expr, frame, store⟩ :: added, fun before => ?_⟩
  have hrest := hadded (before ++ [⟨expr, frame, store⟩])
  rw [List.append_assoc] at hrest
  exact hrest

end Inside

theorem notes_recording (limit : Nat) (expr : Value) (frame : FrameId) :
    Notes (evaluate limit expr frame) (recording limit expr frame) := by
  induction limit generalizing expr frame with
  | zero => exact notes_noting (fun _ _ => .throw .tooDeep) expr frame
  | succ limit ih => exact notes_noting (notes_level ih) expr frame

/-- Recording evaluates like the evaluator, and puts the tasks behind those that stand there. -/
theorem run_recording (limit : Nat) (expr : Value) (frame : FrameId) (store : Store)
    (before : List Task) :
    (recording limit expr frame).run ⟨store, before⟩ =
      (((evaluate limit expr frame).run store).1,
        ⟨((evaluate limit expr frame).run store).2,
          before ++ tasks limit expr frame store⟩) := by
  obtain ⟨added, hadded⟩ := notes_recording limit expr frame store
  have htasks : tasks limit expr frame store = added := by
    rw [tasks, hadded []]
    rfl
  rw [hadded before, htasks]

end Evaluation

end Lisplet
