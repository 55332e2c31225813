import Lisplet.Proofs.EvaluationTasks

/-!
Calls of closures. The operator comes first and then the arguments, from left to right in the
frame of the caller. Only then are they counted. When their number is right, the body is evaluated
in a new frame inside the captured one, where the last of several parameters of one name counts.
-/

set_option autoImplicit false

namespace Lisplet

section Parameters

variable {names : List String} {values : List Value} {name : String}

theorem lookup_reverse_zip_of_notMem (h : name ∉ names) :
    (names.zip values).reverse.lookup name = none := by
  rw [List.lookup_eq_none_iff]
  intro entry hentry
  have hmem := (List.of_mem_zip (List.mem_reverse.mp hentry)).1
  exact bne_iff_ne.mpr fun heq => h (heq ▸ hmem)

theorem lookup_reverse_zip_of_last {i : Nat} {value : Value} (hname : names[i]? = some name)
    (hlast : ∀ j, i < j → names[j]? ≠ some name) (hvalue : values[i]? = some value) :
    (names.zip values).reverse.lookup name = some value := by
  induction names generalizing values i with
  | nil => simp at hname
  | cons first names ih =>
    cases values with
    | nil => simp at hvalue
    | cons v values =>
      rw [List.zip_cons_cons, List.reverse_cons, List.lookup_append]
      cases i with
      | zero =>
        have hrest : name ∉ names := fun hmem => by
          obtain ⟨j, hj⟩ := List.mem_iff_getElem?.mp hmem
          exact hlast (j + 1) (by omega) hj
        simp_all [lookup_reverse_zip_of_notMem hrest]
      | succ i =>
        have hrest : ∀ j, i < j → names[j]? ≠ some name := fun j hj =>
          hlast (j + 1) (by omega)
        rw [ih hname hrest hvalue]
        rfl

end Parameters

namespace Store

theorem find?_of_size_le {store : Store} {frame : FrameId} (h : store.frames.size ≤ frame)
    (name : String) : store.find? name frame = none := by
  rw [find?_eq, Array.getElem?_eq_none h]

theorem find?_congr {s t : Store} (name : String) {frame : FrameId}
    (h : ∀ i ≤ frame, s.frames[i]? = t.frames[i]?) : s.find? name frame = t.find? name frame := by
  apply FrameStore.find?_congr
  · intro i hi
    simp only [FrameStore.entry?, bindings, h i hi]
  · intro i hi
    simp only [FrameStore.outer?, h i hi]

theorem find?_newFrame (store : Store) (bindings : List (String × Value)) (captured : FrameId)
    (name : String) :
    (store.newFrame bindings (some captured)).2.find? name store.frames.size =
      (bindings.lookup name).or (store.find? name captured) := by
  have hframe : (store.newFrame bindings (some captured)).2.frames[store.frames.size]? =
      some ⟨bindings, some captured⟩ := by
    simp [newFrame]
  rw [find?_eq, hframe]
  dsimp only
  cases bindings.lookup name with
  | some value => rfl
  | none =>
    rw [Option.none_or]
    dsimp only
    split
    · rename_i hlt
      refine find?_congr name fun i hi => ?_
      have hne := Nat.ne_of_lt (Nat.lt_of_le_of_lt hi hlt)
      simp [newFrame, Array.getElem?_push, hne]
    · rename_i hle
      rw [find?_of_size_le (Nat.le_of_not_lt hle)]

/-- What the call of a closure makes of a store: a new frame inside the captured one, in which the
last parameter of a name gives it its value, and the names that are no parameters have the values
that they have in the captured frame. -/
structure Entered (store : Store) (captured : FrameId) (names : List String) (values : List Value)
    (entered : Store) : Prop where
  size : entered.frames.size = store.frames.size + 1
  outer : entered.frames[store.frames.size]?.map Frame.outer = some (some captured)
  kept : ∀ i < store.frames.size, entered.frames[i]? = store.frames[i]?
  parameter : ∀ {i : Nat} {name : String} {value : Value}, names[i]? = some name →
    (∀ j, i < j → names[j]? ≠ some name) → values[i]? = some value →
    entered.lookup store.frames.size (.symbol name) = value
  captured : ∀ {name : String}, name ∉ names →
    entered.lookup store.frames.size (.symbol name) = store.lookup captured (.symbol name)

theorem entered_newFrame (store : Store) (captured : FrameId) (names : List String)
    (values : List Value) :
    store.Entered captured names values
      (store.newFrame (names.zip values).reverse (some captured)).2 where
  size := by simp [newFrame]
  outer := by simp [newFrame]
  kept i hi := by simp [newFrame, Array.getElem?_push, Nat.ne_of_lt hi]
  parameter hname hlast hvalue := by
    simp [lookup_eq, Value.nameText?, find?_newFrame, lookup_reverse_zip_of_last hname hlast hvalue]
  captured hname := by
    simp [lookup_eq, Value.nameText?, find?_newFrame, lookup_reverse_zip_of_notMem hname]

end Store

namespace Evaluation

/-- Expressions are evaluated in turn in one frame, each in the store that the one before it leaves,
up to the first failure. What they add to the tasks comes in the same order. -/
inductive Turns (limit : Nat) (frame : FrameId) :
    Store → List Value → List Task → Except Failure (List Value) → Store → Prop
  | done (store : Store) : Turns limit frame store [] [] (.ok []) store
  | next {store mid after : Store} {expr value : Value} {rest : List Value} {added : List Task}
    {result : Except Failure (List Value)}
    (hrun : (evaluate limit expr frame).run store = (.ok value, mid))
    (hrest : Turns limit frame mid rest added result after) :
    Turns limit frame store (expr :: rest) (tasks limit expr frame store ++ added)
      (result.map (value :: ·)) after
  | fails {store after : Store} {expr : Value} {failure : Failure} (rest : List Value)
    (hrun : (evaluate limit expr frame).run store = (.error failure, after)) :
    Turns limit frame store (expr :: rest) (tasks limit expr frame store) (.error failure) after

/-- How the call of a closure goes on when the closure is known: the tasks that it adds, the result
and the store in the end. -/
inductive CallRun (limit : Nat) (frame : FrameId) (names : List String) (body : Value)
    (captured : FrameId) (store : Store) (arguments : List Value) :
    List Task → Except Failure Value × Store → Prop
  | stops {added : List Task} {failure : Failure} {after : Store}
    (hturns : Turns limit frame store arguments added (.error failure) after) :
    CallRun limit frame names body captured store arguments added (.error failure, after)
  | mismatch {added : List Task} {values : List Value} {after : Store}
    (hturns : Turns limit frame store arguments added (.ok values) after)
    (hcount : arguments.length ≠ names.length) :
    CallRun limit frame names body captured store arguments added
      (.ok Sentinel.arityMismatch.value, after)
  | enters {added : List Task} {values : List Value} {after inside : Store}
    (hturns : Turns limit frame store arguments added (.ok values) after)
    (hcount : arguments.length = names.length)
    (hinside : after.Entered captured names values inside) :
    CallRun limit frame names body captured store arguments
      (added ++ tasks limit body after.frames.size inside)
      ((evaluate limit body after.frames.size).run inside)

theorem Turns.length_eq {limit : Nat} {frame : FrameId} {store after : Store}
    {arguments values : List Value} {added : List Task} {result : Except Failure (List Value)}
    (h : Turns limit frame store arguments added result after) (hresult : result = .ok values) :
    values.length = arguments.length := by
  induction h generalizing values with
  | done store =>
    cases hresult
    rfl
  | @next _ _ _ _ _ _ _ result _ _ ih =>
    cases result with
    | error failure => cases hresult
    | ok rest =>
      cases hresult
      simp [ih rfl]
  | fails rest hrun => cases hresult

theorem exists_turns (limit : Nat) (frame : FrameId) (arguments : List Value) (store : Store) :
    ∃ added result after, Turns limit frame store arguments added result after ∧
      ∀ before, (Evaluation.each (recording limit) frame (.ofList arguments .nil)).run
        ⟨store, before⟩ = (result, ⟨after, before ++ added⟩) := by
  induction arguments generalizing store with
  | nil => exact ⟨[], .ok [], store, .done store, fun before => by rw [List.append_nil]; rfl⟩
  | cons expr arguments ih =>
    have heach : Evaluation.each (recording limit) frame (.ofList (expr :: arguments) .nil) = do
        let value ← recording limit expr frame
        let values ← Evaluation.each (recording limit) frame (.ofList arguments .nil)
        return value :: values := rfl
    have hfirst := run_recording limit expr frame store
    rcases hrun : (evaluate limit expr frame).run store with ⟨result, mid⟩
    rw [hrun] at hfirst
    cases result with
    | error failure =>
      refine ⟨_, _, mid, .fails arguments hrun, fun before => ?_⟩
      rw [heach, run_bind, hfirst before]
    | ok value =>
      obtain ⟨added, result, after, hturns, hrest⟩ := ih mid
      refine ⟨_, _, after, .next hrun hturns, fun before => ?_⟩
      rw [heach, run_bind, hfirst before]
      dsimp only
      rw [run_bind, hrest, List.append_assoc]
      cases result <;> rfl

theorem run_enter_tasked (names : List String) (values : List Value) (captured : FrameId)
    (store : Store) (before : List Task) :
    (Evaluation.enter (names.map Value.symbol) values captured).run
        (⟨store, before⟩ : TaskedStore) =
      if names.length = values.length then
        (.ok (some store.frames.size),
          ⟨(store.newFrame (names.zip values).reverse (some captured)).2, before⟩)
      else (.ok none, ⟨store, before⟩) := by
  unfold Evaluation.enter
  rw [callBindings?_symbol]
  by_cases h : names.length = values.length
  · simp only [h, if_true]
    rfl
  · simp only [h, if_false]
    rfl

/-- With the closure known, recording notes what a run of the call adds, and ends as it does. -/
theorem exists_callRun (limit : Nat) (frame : FrameId) (names : List String) (body : Value)
    (captured : FrameId) (store : Store) (arguments : List Value) :
    ∃ added run, CallRun limit frame names body captured store arguments added run ∧
      ∀ before, (Evaluation.call (recording limit) frame (.ofList (names.map .symbol) .nil) body
        captured (.ofList arguments .nil)).run ⟨store, before⟩ =
          (run.1, ⟨run.2, before ++ added⟩) := by
  obtain ⟨added, result, after, hturns, hrun⟩ := exists_turns limit frame arguments store
  cases result with
  | error failure =>
    refine ⟨added, _, .stops hturns, fun before => ?_⟩
    rw [Evaluation.call, run_bind, hrun]
  | ok values =>
    have hlength := hturns.length_eq rfl
    by_cases hcount : arguments.length = names.length
    · have hinside := after.entered_newFrame captured names values
      refine ⟨_, _, .enters hturns hcount hinside, fun before => ?_⟩
      rw [Evaluation.call, run_bind, hrun]
      dsimp only
      rw [run_bind, Value.toList_ofList, run_enter_tasked, if_pos (by omega)]
      dsimp only
      rw [run_recording, List.append_assoc]
    · refine ⟨added, _, .mismatch hturns hcount, fun before => ?_⟩
      rw [Evaluation.call, run_bind, hrun]
      dsimp only
      rw [run_bind, Value.toList_ofList, run_enter_tasked, if_neg (by omega)]
      rfl

end Evaluation

/-- A call evaluates its operator and then its arguments, each once and from left to right in the
frame of the caller, in the store that the one before leaves. Then it is a mismatch and nothing
more is done, or the body is evaluated in a new frame. -/
theorem evaluate_call (limit : Nat) (head body : Value) (arguments : List Value)
    (names : List String) (frame captured : FrameId) (store known : Store)
    (hform : Form.ofHead? head = none)
    (hhead : (evaluate limit head frame).run store =
      (.ok (.closure (.ofList (names.map .symbol) .nil) body captured), known)) :
    ∃ added, Evaluation.CallRun limit frame names body captured known arguments added
        ((evaluate (limit + 1) (.ofList (head :: arguments) .nil) frame).run store) ∧
      Evaluation.tasks (limit + 1) (.ofList (head :: arguments) .nil) frame store =
        ⟨.ofList (head :: arguments) .nil, frame, store⟩ ::
          (Evaluation.tasks limit head frame store ++ added) := by
  obtain ⟨added, run, hcall, hadded⟩ :=
    Evaluation.exists_callRun limit frame names body captured known arguments
  let first : Evaluation.Task := ⟨.ofList (head :: arguments) .nil, frame, store⟩
  have hrun : (Evaluation.recording (limit + 1) (.ofList (head :: arguments) .nil) frame).run
      ⟨store, []⟩ =
        (run.1, ⟨run.2, first :: (Evaluation.tasks limit head frame store ++ added)⟩) := by
    change (Evaluation.level (Evaluation.recording limit)
      (.pair head (.ofList arguments .nil)) frame).run ⟨store, [first]⟩ = _
    rw [Evaluation.level]
    simp only [hform]
    rw [run_bind, Evaluation.run_recording, hhead]
    exact hadded _
  rw [Evaluation.run_recording] at hrun
  obtain ⟨hresult, hstate⟩ := Prod.mk.inj hrun
  obtain ⟨hafter, htasks⟩ := TaskedStore.mk.inj hstate
  have heq : (evaluate (limit + 1) (.ofList (head :: arguments) .nil) frame).run store = run :=
    Prod.ext hresult hafter
  exact ⟨added, heq ▸ hcall, htasks⟩

/-- A function of three parameters, two of them the same, that pairs the last one with `z`. -/
def Value.repeatedParameters : Value :=
  .closure (.ofList [.symbol "x", .symbol "y", .symbol "x"] .nil)
    (.ofList [.symbol "cons", .symbol "x", .symbol "z"] .nil) 0

def Store.withRepeated : Store := ⟨#[⟨[("f", .repeatedParameters)], none⟩]⟩

/-- The call `(f (set z 1) (set z 2) z)` binds `z` in the frame that `f` captured. -/
def Value.rebindingCall : List Value :=
  [.ofList [.symbol "set", .symbol "z", .long 1] .nil,
   .ofList [.symbol "set", .symbol "z", .long 2] .nil, .symbol "z"]

theorem evaluate_call_withRepeated :
    (∃ added, Evaluation.CallRun 3 0 ["x", "y", "x"]
        (.ofList [.symbol "cons", .symbol "x", .symbol "z"] .nil) 0 Store.withRepeated
        Value.rebindingCall added
        ((evaluate 4 (.ofList (.symbol "f" :: Value.rebindingCall) .nil) 0).run
          Store.withRepeated) ∧
      Evaluation.tasks 4 (.ofList (.symbol "f" :: Value.rebindingCall) .nil) 0
          Store.withRepeated =
        ⟨.ofList (.symbol "f" :: Value.rebindingCall) .nil, 0, Store.withRepeated⟩ ::
          (Evaluation.tasks 3 (.symbol "f") 0 Store.withRepeated ++ added)) ∧
    ((evaluate 4 (.ofList (.symbol "f" :: Value.rebindingCall) .nil) 0).run
      Store.withRepeated).1.toOption = some (.pair (.long 2) (.long 2)) := by
  have hlookup : Store.withRepeated.lookup 0 (.symbol "f") = .repeatedParameters := by
    decide +kernel
  have hhead : (evaluate 3 (.symbol "f") 0).run Store.withRepeated =
      (.ok .repeatedParameters, Store.withRepeated) := by
    rw [← hlookup]
    rfl
  refine ⟨?_, by decide +kernel⟩
  exact evaluate_call 3 (.symbol "f") _ Value.rebindingCall ["x", "y", "x"] 0 0
    Store.withRepeated Store.withRepeated (by decide) hhead

end Lisplet
