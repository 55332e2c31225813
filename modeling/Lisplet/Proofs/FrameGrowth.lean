import Lisplet.Proofs.ParametricEvaluation

/-!
What an evaluation does to the frames there are: it puts bindings in front of those of its own
frame, makes new frames, and leaves everything else as it was, also when it fails half-way.
-/

set_option autoImplicit false

namespace Lisplet

def Frame.inFront (fresh : List (String × Value)) (f : Frame) : Frame :=
  { f with bindings := fresh ++ f.bindings }

namespace Store

/-- Every frame of `before` is still there: `frame` with bindings put in front, the others as
they were. -/
def GrowsIn (frame : FrameId) (before after : Store) : Prop :=
  ∃ fresh, ∀ i f, before.frames[i]? = some f →
    after.frames[i]? = some (if i = frame then f.inFront fresh else f)

namespace GrowsIn

theorem refl (frame : FrameId) (store : Store) : GrowsIn frame store store :=
  ⟨[], fun i f h => by simp [h, Frame.inFront]⟩

theorem trans {frame : FrameId} {a b c : Store} (hab : GrowsIn frame a b)
    (hbc : GrowsIn frame b c) : GrowsIn frame a c := by
  obtain ⟨fresh, hfresh⟩ := hab
  obtain ⟨fresher, hfresher⟩ := hbc
  refine ⟨fresher ++ fresh, fun i f h => ?_⟩
  have hc := hfresher i _ (hfresh i f h)
  by_cases hi : i = frame
  · simpa [hi, Frame.inFront] using hc
  · simpa [hi] using hc

theorem getElem?_of_size_le {inner : FrameId} {a b : Store} (h : GrowsIn inner a b)
    (hinner : a.frames.size ≤ inner) {i : Nat} {f : Frame} (hi : a.frames[i]? = some f) :
    b.frames[i]? = some f := by
  obtain ⟨fresh, hfresh⟩ := h
  have hlt := (Array.getElem?_eq_some_iff.mp hi).1
  have hne : i ≠ inner := Nat.ne_of_lt (Nat.lt_of_lt_of_le hlt hinner)
  simpa [hne] using hfresh i f hi

theorem of_getElem? (frame : FrameId) {a b : Store}
    (h : ∀ (i : Nat) f, a.frames[i]? = some f → b.frames[i]? = some f) : GrowsIn frame a b :=
  ⟨[], fun i f hi => by simpa [Frame.inFront] using h i f hi⟩

theorem newFrame (frame : FrameId) (store : Store) (bindings : List (String × Value))
    (outer : Option FrameId) : GrowsIn frame store (store.newFrame bindings outer).2 := by
  refine of_getElem? frame fun i f h => ?_
  have hlt := (Array.getElem?_eq_some_iff.mp h).1
  simp [Store.newFrame, Array.getElem?_push, Nat.ne_of_lt hlt, h]

theorem bind (frame : FrameId) (store : Store) (name : String) (value : Value) :
    GrowsIn frame store (store.bind frame name value) := by
  refine ⟨[(name, value)], fun i f h => ?_⟩
  by_cases hi : i = frame
  · subst hi
    simp [Store.bind, Array.getElem?_modify, h, Frame.inFront]
  · simp [Store.bind, Array.getElem?_modify, h, hi, Ne.symm hi]

theorem bindings {frame : FrameId} {a b : Store} (h : GrowsIn frame a b) :
    ∃ fresh, b.bindings frame = fresh ++ a.bindings frame := by
  obtain ⟨fresh, hfresh⟩ := h
  cases hf : a.frames[frame]? with
  | none => exact ⟨b.bindings frame, by simp [Store.bindings, hf]⟩
  | some f => exact ⟨fresh, by simp [Store.bindings, hf, hfresh frame f hf, Frame.inFront]⟩

end GrowsIn

end Store

namespace Evaluation

variable {α β : Type} {evaluate : Evaluator} {frame : FrameId}

/-- However it ends, the computation adds bindings to this frame alone. -/
def GrowsIn (frame : FrameId) (m : Evaluation α) : Prop :=
  ∀ store : Store, store.GrowsIn frame (m.run store).2

namespace GrowsIn

theorem pure (a : α) : GrowsIn frame (Pure.pure a : Evaluation α) := fun store => .refl frame store

theorem throw (failure : Failure) : GrowsIn frame (MonadExcept.throw failure : Evaluation α) :=
  fun store => .refl frame store

theorem bind {m : Evaluation α} {next : α → Evaluation β} (hm : GrowsIn frame m)
    (hnext : ∀ a, GrowsIn frame (next a)) : GrowsIn frame (m >>= next) := by
  intro store
  have hfirst := hm store
  rw [run_bind]
  cases hrun : m.run store with
  | mk result after =>
    rw [hrun] at hfirst
    cases result with
    | error failure => exact hfirst
    | ok a => exact hfirst.trans (hnext a after)

theorem lookup (name : Value) : GrowsIn frame (Evaluation.lookup frame name) :=
  fun store => .refl frame store

theorem parametric (frame : FrameId) :
    Parametric frame fun (m _ : Evaluation _) => GrowsIn frame m where
  pure := pure
  throw := throw
  bind := bind
  lookup := lookup
  bindSymbol name value := fun store => .bind frame store name value

end GrowsIn

def GrowsOwn (evaluate : Evaluator) : Prop :=
  ∀ expr frame, GrowsIn frame (evaluate expr frame)

/-- The body of a call grows the frame made for it, so every frame there was stays as it is, the
captured one included. -/
theorem applyTo_keeps (h : GrowsOwn evaluate) (params body : Value) (captured : FrameId)
    (arguments : List Value) (store : Store) (i : Nat) (f : Frame)
    (hi : store.frames[i]? = some f) :
    ((applyTo evaluate params body captured arguments).run store).2.frames[i]? = some f := by
  rw [run_applyTo]
  cases callBindings? params.toList arguments with
  | none => exact hi
  | some result =>
    cases result with
    | error name => exact hi
    | ok bindings =>
      have hmade := Store.GrowsIn.newFrame store.frames.size store bindings (some captured)
      have hbody := h body store.frames.size (store.newFrame bindings (some captured)).2
      exact (hmade.trans hbody).getElem?_of_size_le (Nat.le_refl _) hi

theorem level_growsOwn (h : GrowsOwn evaluate) : GrowsOwn (level evaluate) := by
  intro expr frame
  refine (GrowsIn.parametric frame).level evaluate evaluate (fun expr => h expr frame)
    (fun params body captured arguments store => ?_) expr
  exact .of_getElem? frame (applyTo_keeps h params body captured arguments store)

end Evaluation

theorem evaluate_growsOwn (limit : Nat) : Evaluation.GrowsOwn (evaluate limit) := by
  induction limit with
  | zero => exact fun expr frame => .throw _
  | succ limit ih => exact Evaluation.level_growsOwn ih

/-- However a run ends, what it changes in the frames there were is that bindings stand in front
of those of its own frame. Entering a closure changes none of them. -/
theorem evaluate_adds_only_in_front (limit : Nat) (expr : Value) (frame : FrameId)
    (store after : Store) (outcome : Except Failure Value)
    (hrun : (evaluate limit expr frame).run store = (outcome, after)) :
    (∃ fresh, after.bindings frame = fresh ++ store.bindings frame) ∧
    (∀ other, other < store.frames.size → other ≠ frame →
      after.bindings other = store.bindings other) ∧
    (∀ i, i < store.frames.size →
      after.frames[i]?.map Frame.outer = store.frames[i]?.map Frame.outer) ∧
    ∀ params body captured arguments i, i < store.frames.size →
      ((Evaluation.applyTo (evaluate limit) params body captured arguments).run
        store).2.frames[i]? = store.frames[i]? := by
  have hgrows : store.GrowsIn frame after := by
    simpa [hrun] using evaluate_growsOwn limit expr frame store
  obtain ⟨fresh, hfresh⟩ := hgrows
  have hsome : ∀ i, i < store.frames.size → ∃ f, store.frames[i]? = some f :=
    fun i hi => ⟨_, Array.getElem?_eq_getElem hi⟩
  refine ⟨?_, ?_, ?_, ?_⟩
  · cases hf : store.frames[frame]? with
    | none => exact ⟨after.bindings frame, by simp [Store.bindings, hf]⟩
    | some f =>
      refine ⟨fresh, ?_⟩
      simp [Store.bindings, hf, hfresh frame f hf, Frame.inFront]
  · intro other hother hne
    obtain ⟨f, hf⟩ := hsome other hother
    simp [Store.bindings, hf, hfresh other f hf, hne]
  · intro i hi
    obtain ⟨f, hf⟩ := hsome i hi
    rw [hfresh i f hf, hf]
    by_cases hframe : i = frame <;> simp [hframe, Frame.inFront]
  · intro params body captured arguments i hi
    obtain ⟨f, hf⟩ := hsome i hi
    rw [hf]
    exact Evaluation.applyTo_keeps (evaluate_growsOwn limit) params body captured arguments store
      i f hf

/-- A closure whose parameter is no symbol, called with an argument that binds `x`. -/
def Value.unbindableCall : Value :=
  .ofList [.closure (.ofList [.long 5] .nil) .nil 0,
    .ofList [.symbol "set", .symbol "x", .long 1] .nil] .nil

theorem evaluate_adds_only_in_front_before_failure :
    (evaluate 5 Value.unbindableCall 0).run Store.withGlobal =
      (.error (.unbindable (.long 5)), ⟨#[⟨[("x", .long 1)], none⟩]⟩) ∧
    ∃ fresh, (⟨#[⟨[("x", .long 1)], none⟩]⟩ : Store).bindings 0 =
      fresh ++ Store.withGlobal.bindings 0 := by
  have hrun : (evaluate 5 Value.unbindableCall 0).run Store.withGlobal =
      (.error (.unbindable (.long 5)), ⟨#[⟨[("x", .long 1)], none⟩]⟩) := by rfl
  exact ⟨hrun, (evaluate_adds_only_in_front _ _ _ _ _ _ hrun).1⟩

end Lisplet
