import Lisplet.Evaluation

/-!
Runs of evaluations: what each part of a form or a call gives, and which store it leaves.
-/

set_option autoImplicit false

namespace Lisplet

theorem run_bind {σ α β : Type} (m : Computation σ α) (next : α → Computation σ β)
    (state : σ) :
    (m >>= next).run state =
      match m.run state with
      | (.ok a, after) => (next a).run after
      | (.error failure, after) => (.error failure, after) := by
  change (match m state with | (result, after) => ExceptT.bindCont next result after) =
    match m state with
    | (.ok a, after) => next a after
    | (.error failure, after) => (.error failure, after)
  cases m state with
  | mk result after => cases result <;> rfl

theorem of_run_bind_ok {σ α β : Type} {m : Computation σ α} {next : α → Computation σ β}
    {state after : σ} {b : β} (h : (m >>= next).run state = (.ok b, after)) :
    ∃ a mid, m.run state = (.ok a, mid) ∧ (next a).run mid = (.ok b, after) := by
  rw [run_bind] at h
  rcases hrun : m.run state with ⟨result, mid⟩
  rw [hrun] at h
  cases result with
  | ok a => exact ⟨a, mid, rfl, h⟩
  | error failure => cases h

theorem of_run_bind_error {σ α β : Type} {m : Computation σ α} {next : α → Computation σ β}
    {state after : σ} {failure : Failure} (h : (m >>= next).run state = (.error failure, after)) :
    m.run state = (.error failure, after) ∨
      ∃ a mid, m.run state = (.ok a, mid) ∧ (next a).run mid = (.error failure, after) := by
  rw [run_bind] at h
  rcases hrun : m.run state with ⟨result, mid⟩
  rw [hrun] at h
  cases result with
  | ok a => exact .inr ⟨a, mid, rfl, h⟩
  | error other =>
    cases h
    exact .inl rfl

namespace FrameStore

variable {σ τ : Type} [FrameStore σ] [FrameStore τ] {s : σ} {t : τ}

/-- A search outwards depends on the frames up to its own, and in them on the entries of its name
and the ways outwards. -/
theorem find?_congr {name : String} {frame : FrameId}
    (hentry : ∀ i ≤ frame, entry? s i name = entry? t i name)
    (houter : ∀ i ≤ frame, outer? s i = outer? t i) :
    find? s name frame = find? t name frame := by
  induction frame using Nat.strongRecOn with
  | ind frame ih =>
    rw [find?, find?, hentry frame (Nat.le_refl _), houter frame (Nat.le_refl _)]
    cases entry? t frame name with
    | some v => rfl
    | none =>
      cases outer? t frame with
      | none => rfl
      | some outer =>
        by_cases hlt : outer < frame
        · have hle : ∀ i ≤ outer, i ≤ frame := fun i hi => Nat.le_trans hi (Nat.le_of_lt hlt)
          have hrest := ih outer hlt (fun i hi => hentry i (hle i hi))
            fun i hi => houter i (hle i hi)
          simp only [hlt, if_true, hrest]
        · simp only [hlt, if_false]

theorem lookup_congr (hentry : ∀ i name, entry? s i name = entry? t i name)
    (houter : ∀ i, outer? s i = outer? t i) (frame : FrameId) (name : Value) :
    lookup s frame name = lookup t frame name := by
  unfold lookup
  cases name.nameText? with
  | none => rfl
  | some text => simp only [find?_congr (fun i _ => hentry i text) fun i _ => houter i]

end FrameStore

namespace Store

theorem frame_of_bind {store : Store} {frame : FrameId} {name : String} {value : Value} {i : Nat}
    {f : Frame} (h : (store.bind frame name value).frames[i]? = some f) :
    ∃ g, store.frames[i]? = some g ∧ f.outer = g.outer ∧
      ∀ entry ∈ f.bindings, entry = (name, value) ∨ entry ∈ g.bindings := by
  simp only [Store.bind, Array.getElem?_modify] at h
  split at h
  · obtain ⟨g, hg, rfl⟩ := Option.map_eq_some_iff.mp h
    exact ⟨g, hg, rfl, by simp⟩
  · exact ⟨f, h, rfl, fun entry hentry => .inr hentry⟩

theorem frame_of_newFrame {store : Store} {bindings : List (String × Value)}
    {outer : Option FrameId} {i : Nat} {f : Frame}
    (h : (store.newFrame bindings outer).2.frames[i]? = some f) :
    store.frames[i]? = some f ∨ i = store.frames.size ∧ f = ⟨bindings, outer⟩ := by
  simp only [Store.newFrame, Array.getElem?_push] at h
  split at h
  · rename_i heq
    exact .inr ⟨heq, (Option.some.inj h).symm⟩
  · exact .inl h

/-- A search outwards, step by step: the frame may not exist, bind the name, have none around it,
or send the search to the frame around it, which is older unless the store is malformed. -/
@[elab_as_elim] theorem find?_induction (store : Store) (name : String)
    {motive : FrameId → Prop}
    (absent : ∀ frame, store.frames[frame]? = none → store.find? name frame = none →
      motive frame)
    (found : ∀ frame f v, store.frames[frame]? = some f → f.bindings.lookup name = some v →
      store.find? name frame = some v → motive frame)
    (ended : ∀ frame f, store.frames[frame]? = some f → f.bindings.lookup name = none →
      f.outer = none → store.find? name frame = none → motive frame)
    (outwards : ∀ frame f outer, store.frames[frame]? = some f →
      f.bindings.lookup name = none → f.outer = some outer → outer < frame →
      store.find? name frame = store.find? name outer → motive outer → motive frame)
    (malformed : ∀ frame f outer, store.frames[frame]? = some f →
      f.bindings.lookup name = none → f.outer = some outer → ¬outer < frame →
      store.find? name frame = none → motive frame)
    (frame : FrameId) : motive frame := by
  induction frame using Nat.strongRecOn with
  | ind frame ih =>
    have hfind := find?_eq store name frame
    cases hf : store.frames[frame]? with
    | none => exact absent frame hf (by rw [hfind, hf])
    | some f =>
      rw [hf] at hfind
      cases hbound : f.bindings.lookup name with
      | some v => exact found frame f v hf hbound (by simpa only [hbound] using hfind)
      | none =>
        cases houter : f.outer with
        | none => exact ended frame f hf hbound houter (by simpa only [hbound, houter] using hfind)
        | some outer =>
          simp only [hbound, houter] at hfind
          by_cases hlt : outer < frame
          · rw [if_pos hlt] at hfind
            exact outwards frame f outer hf hbound houter hlt hfind (ih outer hlt)
          · rw [if_neg hlt] at hfind
            exact malformed frame f outer hf hbound houter hlt hfind

theorem exists_entry_of_find? {store : Store} {name : String} {frame : FrameId} {v : Value}
    (h : store.find? name frame = some v) :
    ∃ (i : FrameId) (f : Frame), store.frames[i]? = some f ∧ (name, v) ∈ f.bindings := by
  induction frame using find?_induction store name with
  | absent frame hf hnone => simp [hnone] at h
  | found frame f w hf hbound hfound =>
    rw [hfound] at h
    cases h
    obtain ⟨entries, rest, heq, -⟩ := List.lookup_eq_some_iff.mp hbound
    exact ⟨frame, f, hf, by simp [heq]⟩
  | ended frame f hf hfree houter hnone => simp [hnone] at h
  | outwards frame f outer hf hfree houter hlt hsame ih => exact ih (hsame ▸ h)
  | malformed frame f outer hf hfree houter hlt hnone => simp [hnone] at h

end Store

theorem bindAll_symbol (bindings : List (String × Value)) (names : List String)
    (values : List Value) :
    bindAll bindings ((names.map Value.symbol).zip values) =
      .ok ((names.zip values).reverse ++ bindings) := by
  induction names generalizing bindings values with
  | nil => rfl
  | cons name names ih =>
    cases values with
    | nil => rfl
    | cons value values => simp [bindAll, ih]

theorem callBindings?_symbol (names : List String) (values : List Value) :
    callBindings? (names.map Value.symbol) values =
      if names.length = values.length then some (.ok (names.zip values).reverse) else none := by
  simp [callBindings?, bindAll_symbol]

namespace Evaluation

variable {σ : Type} [FrameStore σ]

@[simp] theorem run_lookup (frame : FrameId) (name : Value) (store : Store) :
    (lookup frame name).run store = (.ok (store.lookup frame name), store) := rfl

theorem run_bind_symbol (frame : FrameId) (name : String) (value : Value) (store : Store) :
    (Evaluation.bind frame (.symbol name) value).run store =
      (.ok value, store.bind frame name value) := rfl

theorem run_enter (params arguments : List Value) (captured : FrameId) (store : Store) :
    (enter params arguments captured).run store =
      match callBindings? params arguments with
      | none => (.ok none, store)
      | some (.error name) => (.error (.unbindable name), store)
      | some (.ok bindings) =>
        (.ok (some store.frames.size), (store.newFrame bindings (some captured)).2) := by
  unfold enter
  cases callBindings? params arguments with
  | none => rfl
  | some result => cases result <;> rfl

/-- A call whose arguments are evaluated: what is left is to make its frame and evaluate the
body in it. -/
def applyTo (evaluate : EvaluatorOn σ) (params body : Value) (captured : FrameId)
    (arguments : List Value) : Computation σ Value := do
  match ← enter params.toList arguments captured with
  | none => return Sentinel.arityMismatch.value
  | some inner => evaluate body inner

theorem call_eq (evaluate : EvaluatorOn σ) (frame : FrameId) (params body : Value)
    (captured : FrameId) (operands : Value) :
    call evaluate frame params body captured operands =
      each evaluate frame operands >>= applyTo evaluate params body captured := rfl

theorem run_applyTo (evaluate : Evaluator) (params body : Value) (captured : FrameId)
    (arguments : List Value) (store : Store) :
    (applyTo evaluate params body captured arguments).run store =
      match callBindings? params.toList arguments with
      | none => (.ok Sentinel.arityMismatch.value, store)
      | some (.error name) => (.error (.unbindable name), store)
      | some (.ok bindings) =>
        (evaluate body store.frames.size).run
          (store.newFrame bindings (some captured)).2 := by
  unfold applyTo
  rw [run_bind, run_enter]
  cases callBindings? params.toList arguments with
  | none => rfl
  | some result => cases result <;> rfl

end Evaluation

end Lisplet
