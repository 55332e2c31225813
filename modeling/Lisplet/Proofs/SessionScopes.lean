import Lisplet.Proofs.SoundSession

/-!
Scopes in sessions. Whatever a session was asked to do, its frames lead outwards to older ones, so
that every lookup ends, and the closures that its names and results hold can be called: they have
lists of symbols for parameters, and frames that exist.
-/

set_option autoImplicit false

namespace Lisplet

/-- How a name is looked up from a frame: the newest binding there, or else the frame around it,
until there is none. A walk that goes on for ever has no result. -/
inductive Store.Walk (store : Store) (name : String) : FrameId → Option Value → Prop
  | found {frame : FrameId} {f : Frame} {v : Value} (hf : store.frames[frame]? = some f)
    (hbound : f.bindings.lookup name = some v) : Walk store name frame (some v)
  | ended {frame : FrameId} {f : Frame} (hf : store.frames[frame]? = some f)
    (hfree : f.bindings.lookup name = none) (houter : f.outer = none) :
    Walk store name frame none
  | outwards {frame outer : FrameId} {f : Frame} {result : Option Value}
    (hf : store.frames[frame]? = some f) (hfree : f.bindings.lookup name = none)
    (houter : f.outer = some outer) (rest : Walk store name outer result) :
    Walk store name frame result

/-- Every closure in the value has a list of symbols for parameters and one of the first `size`
frames. -/
def Value.ClosuresWithin (size : Nat) (v : Value) : Prop :=
  ∀ params body frame, (Value.closure params body frame).OccursIn v →
    (∃ names : List String, params = ofList (names.map .symbol) .nil) ∧ frame < size

namespace Store.Sound

variable {p : Value → Prop} {store : Store}

theorem walk (h : store.Sound p) (name : String) {frame : FrameId}
    (hframe : frame < store.frames.size) :
    store.Walk name frame (store.find? name frame) := by
  induction frame using Store.find?_induction store name with
  | absent frame hf hnone =>
    rw [Array.getElem?_eq_getElem hframe] at hf
    cases hf
  | found frame f v hf hbound hfound =>
    rw [hfound]
    exact .found hf hbound
  | ended frame f hf hfree houter hnone =>
    rw [hnone]
    exact .ended hf hfree houter
  | outwards frame f outer hf hfree houter hlt hsame ih =>
    rw [hsame]
    exact .outwards hf hfree houter (ih (Nat.lt_trans hlt hframe))
  | malformed frame f outer hf hfree houter hlt hnone => exact absurd (h.outer_lt hf houter) hlt

end Store.Sound

theorem Store.lookup_of_mem_bindings {store : Store} {frame : FrameId} {name : String} {v : Value}
    (h : (name, v) ∈ store.bindings frame) :
    ∃ newest, (name, newest) ∈ store.bindings frame ∧
      store.lookup frame (.symbol name) = newest := by
  unfold Store.bindings at h ⊢
  cases hf : store.frames[frame]? with
  | none =>
    rw [hf] at h
    cases h
  | some f =>
    rw [hf] at h
    cases hbound : f.bindings.lookup name with
    | none => simpa using List.lookup_eq_none_iff.mp hbound (name, v) h
    | some newest =>
      obtain ⟨before, after, heq, -⟩ := List.lookup_eq_some_iff.mp hbound
      refine ⟨newest, by simp [heq], ?_⟩
      simp only [Store.lookup_eq, Value.nameText?]
      rw [Store.find?_eq, hf]
      simp [hbound]

/-- In every session frames lead outwards to older ones, so that lookups end; names are bound to
values, and requests give values, whose closures have lists of symbols for parameters and frames
that exist; and nothing ends with a name that cannot be bound. -/
theorem session_scopes (limit : Nat) (requests : List Session.Request) :
    let session := (Session.start limit).after requests
    (∀ (i outer : FrameId) (f : Frame), session.store.frames[i]? = some f →
      f.outer = some outer → outer < i) ∧
    (∀ (name : String) (frame : FrameId), frame < session.store.frames.size →
      session.store.Walk name frame (session.store.find? name frame)) ∧
    (∀ (frame : FrameId) (name : String) (v : Value), (name, v) ∈ session.store.bindings frame →
      v.ClosuresWithin session.store.frames.size ∧
      ∃ newest, (name, newest) ∈ session.store.bindings frame ∧
        session.store.lookup frame (.symbol name) = newest) ∧
    (∀ request : Session.Request,
      (∀ values, (request.perform.run session).1 = .ok values → ∀ v ∈ values,
        v.ClosuresWithin (request.perform.run session).2.store.frames.size) ∧
      ∀ name, (request.perform.run session).1 ≠ .error (.unbindable name)) ∧
    ∀ (text : List Char), ∀ expr ∈ (Script.ofText text).values, ∀ nesting : Nat,
      (∃ v, ((evaluate nesting expr Store.globalFrame).run session.store).1 = .ok v) ∨
        ((evaluate nesting expr Store.globalFrame).run session.store).1 = .error .tooDeep := by
  intro session
  have rule : Value.AtomRule fun _ => True := by constructor <;> intros <;> trivial
  obtain ⟨hstore, hglobal⟩ := Session.sound_start_after rule limit requests
  refine ⟨fun i outer f => hstore.outer_lt, fun name frame => hstore.walk name, ?_, ?_, ?_⟩
  · intro frame name v hmem
    refine ⟨fun params body captured hoccurs => ?_, Store.lookup_of_mem_bindings hmem⟩
    exact (hstore.of_mem_bindings hmem).closure_of_occursIn hoccurs
  · intro request
    have hkeeps := Session.keeps_perform rule limit requests request
    refine ⟨fun values hvalues v hv params body captured hoccurs => ?_, fun name hname => ?_⟩
    · exact (hkeeps.result hvalues v hv).closure_of_occursIn hoccurs
    · exact hkeeps.failure hname name rfl
  · intro text expr hexpr nesting
    have hkeeps := safeEvaluator_evaluate rule nesting (Script.sound_values rule hexpr) hglobal
      session.store hstore (Nat.le_refl _)
    cases houtcome : ((evaluate nesting expr Store.globalFrame).run session.store).1 with
    | ok v => exact .inl ⟨v, rfl⟩
    | error failure => exact .inr (by rw [hkeeps.failure houtcome])

def Session.functionRequests : List Session.Request :=
  [.run "(define k (x) (lambda (y) x))".toList, .feed "(set g (k".toList, .feed " 1))".toList]

theorem session_scopes_functionRequests :
    ("g", Value.closure (.ofList [.symbol "y"] .nil) (.symbol "x") 1) ∈
      ((Session.start 50).after Session.functionRequests).store.bindings Store.globalFrame ∧
    1 < ((Session.start 50).after Session.functionRequests).store.frames.size := by
  have hmem : ("g", Value.closure (.ofList [.symbol "y"] .nil) (.symbol "x") 1) ∈
      ((Session.start 50).after Session.functionRequests).store.bindings Store.globalFrame := by
    decide +kernel
  have hwithin := ((session_scopes 50 Session.functionRequests).2.2.1 _ _ _ hmem).1
  exact ⟨hmem, (hwithin _ _ _ .self).2⟩

end Lisplet
