import Lisplet.Proofs.FrameGrowth
import Lisplet.Session

/-!
Runs of sessions: what feeding a line and flushing give, and the session that they leave. Whatever
is evaluated, the lines that wait stay as they are, and bindings are only added.
-/

set_option autoImplicit false

namespace Lisplet.Session

variable {α : Type}

theorem run_ite (p : Prop) [Decidable p] (a b : SessionM α) (session : Session) :
    (if p then a else b).run session = if p then a.run session else b.run session := by
  split <;> rfl

def taking (session : Session) (line : List Char) : List (List Char) :=
  session.pending ++ [stripComment (Text.dropNewlines line)]

theorem run_feed (line : List Char) (session : Session) :
    (feed line).run session =
      if Text.isBlankText (Text.joinLines (session.taking line)) then
        (.ok [], { session with pending := [] })
      else if 0 < parenDepth (Text.joinLines (session.taking line)) then
        (.ok [], { session with pending := session.taking line })
      else
        (run (Text.joinLines (session.taking line))).run { session with pending := [] } := by
  rw [feed, run_bind]
  change (ite _ _ (ite _ _ _) : SessionM (List Value)).run session = _
  rw [run_ite, run_ite]
  rfl

theorem run_flush (session : Session) :
    flush.run session =
      if session.pending.isEmpty then (.ok [], session)
      else (run (Text.joinLines session.pending)).run { session with pending := [] } := by
  rw [flush, run_bind]
  change (ite _ _ _ : SessionM (List Value)).run session = _
  rw [run_ite]
  rfl

/-- What evaluations make of a session: bindings are put in front of the global ones, and neither
the lines that wait nor the limit is touched. -/
structure Grown (s t : Session) : Prop where
  pending : t.pending = s.pending
  limit : t.limit = s.limit
  store : s.store.GrowsIn Store.globalFrame t.store

namespace Grown

variable {s t u : Session}

theorem refl (s : Session) : s.Grown s := ⟨rfl, rfl, .refl _ _⟩

theorem trans (h : s.Grown t) (h' : t.Grown u) : s.Grown u where
  pending := h'.pending.trans h.pending
  limit := h'.limit.trans h.limit
  store := h.store.trans h'.store

theorem globals (h : s.Grown t) : ∃ fresh, t.globals = fresh ++ s.globals := h.store.bindings

end Grown

def Grows (m : SessionM α) : Prop := ∀ session : Session, session.Grown (m.run session).2

theorem Grows.bind {β : Type} {m : SessionM α} {next : α → SessionM β} (h : Grows m)
    (hnext : ∀ a, Grows (next a)) : Grows (m >>= next) := by
  intro session
  have hfirst := h session
  rw [run_bind]
  rcases hrun : m.run session with ⟨result, after⟩
  rw [hrun] at hfirst
  cases result with
  | ok a => exact hfirst.trans (hnext a after)
  | error failure => exact hfirst

theorem Grows.globals {m : SessionM α} (h : Grows m) {session after : Session}
    {result : Except Failure α} (hrun : m.run session = (result, after)) :
    ∃ fresh, after.globals = fresh ++ session.globals := by
  have hgrown := h session
  rw [hrun] at hgrown
  exact hgrown.globals

theorem grows_pure (a : α) : Grows (pure a : SessionM α) := .refl

theorem grows_throw (failure : Failure) : Grows (throw failure : SessionM α) := .refl

theorem grows_report (entry : LogEntry) : Grows (report entry) :=
  fun session => ⟨rfl, rfl, .refl _ session.store⟩

theorem grows_evaluateGlobal (expr : Value) : Grows (evaluateGlobal expr) := fun session =>
  ⟨rfl, rfl, evaluate_growsOwn session.limit expr Store.globalFrame session.store⟩

theorem grows_evaluateReporting (expr : Value) : Grows (evaluateReporting expr) := by
  refine (grows_report _).bind fun _ => (grows_evaluateGlobal expr).bind fun value => ?_
  split
  · exact (grows_report _).bind fun _ => grows_pure value
  · exact grows_pure value

theorem grows_evaluateAll (exprs : List Value) : Grows (evaluateAll exprs) := by
  induction exprs with
  | nil => exact grows_pure []
  | cons expr rest ih =>
    exact (grows_evaluateReporting expr).bind fun value =>
      ih.bind fun values => grows_pure (value :: values)

theorem grows_finish (fault : Option ReadFault) : Grows (finish fault) := by
  rcases fault with _ | ⟨sentinel, position⟩ | fault
  · exact grows_pure []
  · exact (grows_report _).bind fun _ => grows_pure [sentinel.value]
  · exact grows_throw _

theorem grows_run (text : List Char) : Grows (run text) :=
  (grows_evaluateAll _).bind fun values =>
    (grows_finish _).bind fun last => grows_pure (values ++ last)

theorem grows_eval (text : List Char) : Grows (eval text) :=
  (grows_run _).bind fun values => grows_pure (values.getLast?.getD .nil)

inductive Request where
  | run (text : List Char)
  | eval (text : List Char)
  | feed (line : List Char)
  | flush

def Request.perform : Request → SessionM (List Value)
  | .run text => Session.run text
  | .eval text => do return [← Session.eval text]
  | .feed line => Session.feed line
  | .flush => Session.flush

/-- The session after these requests, each of which may have failed. -/
def after (session : Session) (requests : List Request) : Session :=
  requests.foldl (fun session request => (request.perform.run session).2) session

end Lisplet.Session
