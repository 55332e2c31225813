import Lisplet.Console
import Lisplet.Proofs.FrameGrowth
import Lisplet.Proofs.SessionRun
import Mathlib.Order.Basic

/-!
Spare depth. How deep evaluations may nest decides whether a result is reached, and never which
one: what ends under one limit, with a value or with another failure, ends in the same way and
with the same bindings under every greater limit, and so does every session.
-/

set_option autoImplicit false

namespace Lisplet

section Computation

variable {σ α β : Type} {related : σ → σ → Prop}

/-- Started on related states, `n` ends as `m` does, with related states, unless `m` nests too
deep. -/
def EndsLike (related : σ → σ → Prop) (m n : Computation σ α) : Prop :=
  ∀ s t, related s t → (m.run s).1 ≠ .error .tooDeep →
    (n.run t).1 = (m.run s).1 ∧ related (m.run s).2 (n.run t).2

namespace EndsLike

theorem pure (a : α) :
    EndsLike related (Pure.pure a : Computation σ α) (Pure.pure a) := fun _ _ h _ => ⟨rfl, h⟩

theorem throw (failure : Failure) :
    EndsLike related (MonadExcept.throw failure : Computation σ α)
      (MonadExcept.throw failure) := fun _ _ h _ => ⟨rfl, h⟩

theorem tooDeep (n : Computation σ α) :
    EndsLike related (MonadExcept.throw .tooDeep : Computation σ α) n :=
  fun _ _ _ hends => absurd rfl hends

theorem refl (m : Computation σ α) : EndsLike Eq m m := by
  rintro s t rfl -
  exact ⟨rfl, rfl⟩

theorem bind {m n : Computation σ α} {f g : α → Computation σ β} (h : EndsLike related m n)
    (hnext : ∀ a, EndsLike related (f a) (g a)) : EndsLike related (m >>= f) (n >>= g) := by
  intro s t hst hends
  have hfirst := h s t hst
  rw [run_bind] at hends
  rw [run_bind, run_bind]
  rcases hm : m.run s with ⟨result, after⟩
  rcases hn : n.run t with ⟨other, afterwards⟩
  rw [hm] at hends
  rw [hm, hn] at hfirst
  cases result with
  | ok a =>
    obtain ⟨rfl, hafter⟩ := hfirst (fun herror => by cases herror)
    exact hnext a _ _ hafter hends
  | error failure =>
    -- A failure of the first part is that of the whole, so it is not for lack of depth.
    obtain ⟨rfl, hafter⟩ := hfirst (fun herror => hends (by cases herror; rfl))
    exact ⟨rfl, hafter⟩

theorem ite {p : Prop} [Decidable p] {m m' n n' : Computation σ α} (h : EndsLike related m n)
    (h' : EndsLike related m' n') :
    EndsLike related (if p then m else m') (if p then n else n') := by
  split
  · exact h
  · exact h'

end EndsLike

end Computation

namespace Evaluation

variable {σ : Type} [FrameStore σ]

theorem parametric_endsLike (frame : FrameId) :
    Parametric frame fun (m n : Computation σ _) => EndsLike Eq m n where
  pure := .pure
  throw := .throw
  bind := .bind
  lookup name := .refl (lookup frame name)
  bindSymbol name value := .refl (bind frame (.symbol name) value)

theorem level_endsLike {ev ew : EvaluatorOn σ}
    (h : ∀ expr frame, EndsLike Eq (ev expr frame) (ew expr frame)) (expr : Value)
    (frame : FrameId) : EndsLike Eq (level ev expr frame) (level ew expr frame) := by
  have hforms := @parametric_endsLike σ _ frame
  refine hforms.level ev ew (fun expr => h expr frame)
    (fun params body captured arguments => ?_) expr
  exact hforms.applyTo params captured arguments (fun bindings => .refl _) fun inner => h body inner

/-- One more level changes nothing that the levels inside it do not change. -/
theorem evaluate_endsLike {n m : Nat} (hle : n ≤ m) (expr : Value)
    (frame : FrameId) :
    EndsLike Eq (evaluate n expr frame : Computation σ Value) (evaluate m expr frame) := by
  induction n generalizing m expr frame with
  | zero => exact .tooDeep _
  | succ n ih =>
    obtain ⟨m, rfl⟩ := Nat.exists_eq_add_of_le' (Nat.lt_of_lt_of_le (Nat.succ_pos n) hle)
    have hinside := fun expr frame => @ih m (Nat.le_of_succ_le_succ hle) expr frame
    exact level_endsLike hinside expr frame

end Evaluation

namespace Session

/-- The same bindings and the same lines that wait, with no less depth to spare. -/
structure Deeper (s t : Session) : Prop where
  store : t.store = s.store
  pending : t.pending = s.pending
  limit : s.limit ≤ t.limit

namespace Deeper

variable {s t : Session}

theorem withPending (h : s.Deeper t) (lines : List (List Char)) :
    Deeper { s with pending := lines } { t with pending := lines } where
  store := h.store
  pending := rfl
  limit := h.limit

theorem taking (h : s.Deeper t) (line : List Char) : t.taking line = s.taking line := by
  rw [Session.taking, Session.taking, h.pending]

end Deeper

theorem report_endsLike (entry : LogEntry) : EndsLike Deeper (report entry) (report entry) :=
  fun _ _ h _ => ⟨rfl, h.store, h.pending, h.limit⟩

theorem evaluateGlobal_endsLike (expr : Value) :
    EndsLike Deeper (evaluateGlobal expr) (evaluateGlobal expr) := by
  intro s t h hends
  have hevaluate := Evaluation.evaluate_endsLike h.limit expr Store.globalFrame s.store t.store
    h.store.symm hends
  exact ⟨hevaluate.1, hevaluate.2.symm, h.pending, h.limit⟩

theorem evaluateReporting_endsLike (expr : Value) :
    EndsLike Deeper (evaluateReporting expr) (evaluateReporting expr) := by
  refine (report_endsLike _).bind fun _ => (evaluateGlobal_endsLike expr).bind fun value => ?_
  exact .ite ((report_endsLike _).bind fun _ => .pure value) (.pure value)

theorem evaluateAll_endsLike (exprs : List Value) :
    EndsLike Deeper (evaluateAll exprs) (evaluateAll exprs) := by
  induction exprs with
  | nil => exact .pure []
  | cons expr rest ih =>
    exact (evaluateReporting_endsLike expr).bind fun value =>
      ih.bind fun values => .pure (value :: values)

theorem finish_endsLike (fault : Option ReadFault) :
    EndsLike Deeper (finish fault) (finish fault) := by
  rcases fault with _ | ⟨sentinel, position⟩ | fault
  · exact .pure []
  · exact (report_endsLike _).bind fun _ => .pure _
  · exact .throw _

theorem run_endsLike (text : List Char) :
    EndsLike Deeper (Session.run text) (Session.run text) :=
  (evaluateAll_endsLike _).bind fun values =>
    (finish_endsLike _).bind fun last => .pure (values ++ last)

theorem feed_endsLike (line : List Char) : EndsLike Deeper (feed line) (feed line) := by
  intro s t h hends
  rw [run_feed] at hends
  rw [run_feed, run_feed, h.taking]
  split
  · exact ⟨rfl, h.withPending []⟩
  split
  · exact ⟨rfl, h.withPending (s.taking line)⟩
  · rename_i hblank hdepth
    rw [if_neg hblank, if_neg hdepth] at hends
    exact run_endsLike _ _ _ (h.withPending []) hends

theorem flush_endsLike : EndsLike Deeper flush flush := by
  intro s t h hends
  rw [run_flush] at hends
  rw [run_flush, run_flush, h.pending]
  split
  · exact ⟨rfl, h⟩
  · rename_i hsome
    rw [if_neg hsome] at hends
    exact run_endsLike _ _ _ (h.withPending []) hends

theorem perform_endsLike (request : Request) :
    EndsLike Deeper request.perform request.perform := by
  cases request with
  | run text => exact run_endsLike text
  | eval text =>
    exact ((run_endsLike _).bind fun values => .pure _).bind fun value => .pure [value]
  | feed line => exact feed_endsLike line
  | flush => exact flush_endsLike

/-- How each request ends, with the store that it leaves. -/
def record (session : Session) : List Request → List (Except Failure (List Value) × Store)
  | [] => []
  | request :: rest =>
    ((request.perform.run session).1, (request.perform.run session).2.store) ::
      record (request.perform.run session).2 rest

def DeepEnough (session : Session) (requests : List Request) : Prop :=
  ∀ entry ∈ session.record requests, entry.1 ≠ .error .tooDeep

instance (session : Session) (requests : List Request) :
    Decidable (session.DeepEnough requests) :=
  inferInstanceAs (Decidable (∀ entry ∈ session.record requests, entry.1 ≠ .error .tooDeep))

theorem Deeper.record {s t : Session} (h : s.Deeper t) {requests : List Request}
    (hends : s.DeepEnough requests) : t.record requests = s.record requests := by
  induction requests generalizing s t with
  | nil => rfl
  | cons request rest ih =>
    obtain ⟨hresult, hafter⟩ := perform_endsLike request s t h (hends _ List.mem_cons_self)
    have hrest := ih hafter fun entry hentry => hends entry (List.mem_cons_of_mem _ hentry)
    rw [Session.record, Session.record, hresult, hafter.store, hrest]

end Session

namespace Console

def heldLimit (machineLimit : Int) (limit : Option Int) : Int :=
  max machineLimit (limit.getD machineLimit)

theorem nesting_mono {a b : Int} (h : a ≤ b) : nesting a ≤ nesting b := by
  have hnat : a.toNat ≤ b.toNat := Int.toNat_le_toNat h
  unfold nesting
  omega

theorem session_of_start {machineLimit : Int} {limit : Option Int} {console : Console}
    (h : start machineLimit limit = .ok console) :
    console.session = { Session.start (nesting (heldLimit machineLimit limit)) with
      log := console.session.log } := by
  unfold start at h
  cases limit with
  | none =>
    cases h
    simp [heldLimit, usual, Session.start]
  | some n =>
    dsimp only at h
    split at h
    · cases h
    · split at h
      · rename_i hgreater
        cases h
        have hheld : heldLimit machineLimit (some n) = n := by
          simp only [heldLimit, Option.getD_some]; omega
        simp [hheld, Session.start]
      · rename_i hgreater
        cases h
        have hheld : heldLimit machineLimit (some n) = machineLimit := by
          simp only [heldLimit, Option.getD_some]; omega
        simp [hheld, usual, Session.start]

theorem deeper_of_start {machineLimit : Int} {limit greater : Option Int}
    {console other : Console} (hle : limit.getD machineLimit ≤ greater.getD machineLimit)
    (h : start machineLimit limit = .ok console) (h' : start machineLimit greater = .ok other) :
    console.session.Deeper other.session := by
  have hheld : heldLimit machineLimit limit ≤ heldLimit machineLimit greater := by
    unfold heldLimit
    omega
  rw [session_of_start h, session_of_start h']
  exact ⟨rfl, rfl, nesting_mono hheld⟩

end Console

/-- What ends without nesting too deep ends in the same way, and with the same store, under every
greater limit: an evaluation, the requests made of a session, and those made where the settings
ask for a greater limit. -/
theorem greater_limit_changes_nothing {n m : Nat} (hle : n ≤ m) :
    (∀ (expr : Value) (frame : FrameId) (store : Store),
      ((evaluate n expr frame).run store).1 ≠ .error .tooDeep →
      (evaluate m expr frame).run store = (evaluate n expr frame).run store) ∧
    (∀ requests : List Session.Request, (Session.start n).DeepEnough requests →
      (Session.start m).record requests = (Session.start n).record requests) ∧
    ∀ (machineLimit : Int) (limit greater : Option Int) (console other : Console),
      limit.getD machineLimit ≤ greater.getD machineLimit →
      Console.start machineLimit limit = .ok console →
      Console.start machineLimit greater = .ok other →
      ∀ requests : List Session.Request, console.session.DeepEnough requests →
      other.session.record requests = console.session.record requests := by
  refine ⟨?_, ?_, ?_⟩
  · intro expr frame store hends
    obtain ⟨hresult, hstore⟩ :=
      Evaluation.evaluate_endsLike hle expr frame store store rfl hends
    exact Prod.ext hresult hstore.symm
  · intro requests hends
    have hdeeper : (Session.start n).Deeper (Session.start m) := ⟨rfl, rfl, hle⟩
    exact hdeeper.record hends
  · intro machineLimit limit greater console other hlimits hstart hother requests hends
    exact (Console.deeper_of_start hlimits hstart hother).record hends

def Session.recursiveRequests : List Session.Request :=
  [.feed "(define f (n) (if (lte n 0) n".toList, .feed "  (f (sub n 1))))".toList,
    .run "(f 2) 0x1p٣".toList]

theorem greater_limit_changes_nothing_recursiveRequests :
    (evaluate 1000 Value.unbindableCall 0).run Store.withGlobal =
      (.error (.unbindable (.long 5)), ⟨#[⟨[("x", .long 1)], none⟩]⟩) ∧
    ¬(Session.start 7).DeepEnough Session.recursiveRequests ∧
    (Session.start 8).DeepEnough Session.recursiveRequests ∧
    (Session.start 1000).record Session.recursiveRequests =
      (Session.start 8).record Session.recursiveRequests ∧
    ∃ other, Console.start 10000 (some 20000) = .ok other ∧
      other.session.record Session.recursiveRequests =
        (Console.usual 10000).session.record Session.recursiveRequests := by
  obtain ⟨hevaluate, hsession, -⟩ := greater_limit_changes_nothing (by decide : 8 ≤ 1000)
  obtain ⟨-, -, hconsole⟩ := greater_limit_changes_nothing (Nat.le_refl 8)
  have hrun : (evaluate 8 Value.unbindableCall 0).run Store.withGlobal =
      (.error (.unbindable (.long 5)), ⟨#[⟨[("x", .long 1)], none⟩]⟩) := by rfl
  have hends : (Session.start 8).DeepEnough Session.recursiveRequests := by decide +kernel
  have hstart : Console.start 10000 none = .ok (Console.usual 10000) := rfl
  have hother : Console.start 10000 (some 20000) = .ok
      ⟨{ Session.start 20000 with log := [.raisingLimit 20000] }, 20000⟩ := by rfl
  have husual : (Console.usual 10000).session.DeepEnough Session.recursiveRequests := by
    decide +kernel
  refine ⟨(hevaluate _ _ _ (by rw [hrun]; decide)).trans hrun, by decide +kernel, hends,
    hsession _ hends, _, hother, ?_⟩
  exact hconsole 10000 none (some 20000) _ _ (by decide) hstart hother _ husual

end Lisplet
