import Lisplet.Proofs.PendingLines
import Lisplet.Proofs.SourceCode

/-!
Sources of sessions. A session evaluates the expressions that it reads, one after another, and its
log tells which. Nothing that it computes is evaluated: what it evaluates is part of an expression
that was read before, and the closures that it holds or gives are made from such parts.
-/

set_option autoImplicit false

namespace Lisplet

def LogEntry.evaluated? : LogEntry → Option Value
  | .evaluating expr => some expr
  | _ => none

namespace Session

/-- The expressions that were read and evaluated so far, oldest first. -/
def evaluated (session : Session) : List Value :=
  session.log.reverse.filterMap LogEntry.evaluated?

/-- What evaluating these expressions one after another makes of a store. -/
def storeAfter (limit : Nat) (store : Store) (exprs : List Value) : Store :=
  exprs.foldl (fun store expr => ((evaluate limit expr Store.globalFrame).run store).2) store

def text? (session : Session) : Request → Option (List Char)
  | .run text => some text
  | .eval text => some (Text.joinLines ((Text.linesBy Text.isLineEnd text).map stripComment))
  | .feed line => (session.buffer? (.feed line)).map Text.joinLines
  | .flush => (session.buffer? .flush).map Text.joinLines

def texts (session : Session) : List Request → List (List Char)
  | [] => []
  | request :: rest => (session.text? request).toList ++ texts (request.perform.run session).2 rest

/-- The session has the store that its evaluations make, and they were of source expressions. -/
structure Traced (limit : Nat) (session : Session) : Prop where
  limit_eq : session.limit = limit
  store_eq : session.store = storeAfter limit .withGlobal session.evaluated
  plain : ∀ expr ∈ session.evaluated, expr.IsPlain

theorem traced_start (limit : Nat) : (start limit).Traced limit where
  limit_eq := rfl
  store_eq := rfl
  plain expr hexpr := by cases hexpr

theorem storeAfter_append (limit : Nat) (store : Store) (exprs more : List Value) :
    storeAfter limit store (exprs ++ more) =
      storeAfter limit (storeAfter limit store exprs) more :=
  List.foldl_append

theorem madeFrom_storeAfter (limit : Nat) {known exprs : List Value} {store : Store}
    (hplain : ∀ s ∈ known ++ exprs, s.IsPlain) (hstore : store.MadeFrom known) :
    (storeAfter limit store exprs).MadeFrom (known ++ exprs) := by
  induction exprs generalizing known store with
  | nil => rwa [List.append_nil]
  | cons expr exprs ih =>
    have hsplit : known ++ expr :: exprs = (known ++ [expr]) ++ exprs := by simp
    rw [hsplit] at hplain ⊢
    have hknown : ∀ s ∈ known ++ [expr], s.IsPlain := fun s hs =>
      hplain s (List.mem_append_left _ hs)
    have hcode := Value.isCode_last known expr
    exact ih hplain (Evaluation.madeFrom_store_evaluate hknown limit hcode Store.globalFrame
      (hstore.mono (List.subset_append_left _ _)))

variable {α β : Type} {limit : Nat} {exprs known : List Value} {q : List Value → α → Prop}
  {r : List Value → β → Prop}

theorem Traced.madeFrom {session : Session} (h : session.Traced limit) :
    session.store.MadeFrom session.evaluated := by
  rw [h.store_eq]
  exact @madeFrom_storeAfter limit [] session.evaluated _ h.plain .withGlobal

/-- Where the computation ends, some of the expressions have been evaluated, and what it gives is
of this kind then. -/
structure Ends (limit : Nat) (exprs : List Value) (q : List Value → α → Prop) (before : Session)
    (run : Except Failure α × Session) : Prop where
  traced : run.2.Traced limit
  fresh : ∃ fresh, run.2.evaluated = before.evaluated ++ fresh ∧ ∀ expr ∈ fresh, expr ∈ exprs
  result : ∀ a, run.1 = .ok a → q run.2.evaluated a

def Evaluates (limit : Nat) (exprs known : List Value) (q : List Value → α → Prop)
    (m : SessionM α) : Prop :=
  ∀ session : Session, session.Traced limit → known ⊆ session.evaluated →
    Ends limit exprs q session (m.run session)

theorem Ends.subset {before : Session} {run : Except Failure α × Session}
    (h : Ends limit exprs q before run) : before.evaluated ⊆ run.2.evaluated := by
  obtain ⟨fresh, heq, -⟩ := h.fresh
  rw [heq]
  exact List.subset_append_left _ _

namespace Evaluates

theorem pure {a : α} (h : ∀ evaluated, known ⊆ evaluated → q evaluated a) :
    Evaluates limit exprs known q (Pure.pure a) := fun session hsession hknown =>
  { traced := hsession
    fresh := ⟨[], (List.append_nil _).symm, by simp⟩
    result := by
      rintro b ⟨⟩
      exact h _ hknown }

theorem throw (failure : Failure) :
    Evaluates limit exprs known q (MonadExcept.throw failure) := fun session hsession _ =>
  { traced := hsession
    fresh := ⟨[], (List.append_nil _).symm, by simp⟩
    result := by rintro b ⟨⟩ }

theorem bind {m : SessionM α} {next : α → SessionM β} (hm : Evaluates limit exprs known q m)
    (hnext : ∀ a evaluated, known ⊆ evaluated → q evaluated a →
      Evaluates limit exprs evaluated r (next a)) :
    Evaluates limit exprs known r (m >>= next) := by
  intro session hsession hknown
  have hfirst := hm session hsession hknown
  rw [run_bind]
  rcases hrun : m.run session with ⟨result, after⟩
  rw [hrun] at hfirst
  cases result with
  | error failure => exact ⟨hfirst.traced, hfirst.fresh, by rintro b ⟨⟩⟩
  | ok a =>
    have hsubset := List.Subset.trans hknown hfirst.subset
    have hlast := hnext a after.evaluated hsubset (hfirst.result a rfl) after hfirst.traced
      (List.Subset.refl _)
    obtain ⟨fresh, heq, hfresh⟩ := hfirst.fresh
    obtain ⟨more, heq', hmore⟩ := hlast.fresh
    refine ⟨hlast.traced, ⟨fresh ++ more, ?_, ?_⟩, hlast.result⟩
    · rw [heq', heq, List.append_assoc]
    · intro expr hexpr
      rcases List.mem_append.mp hexpr with hold | hnew
      · exact hfresh expr hold
      · exact hmore expr hnew

theorem ite {c : Prop} [Decidable c] {m n : SessionM α} (hm : Evaluates limit exprs known q m)
    (hn : Evaluates limit exprs known q n) :
    Evaluates limit exprs known q (if c then m else n) := by
  split
  · exact hm
  · exact hn

end Evaluates

theorem evaluated_report {entry : LogEntry} (h : entry.evaluated? = none) (session : Session) :
    ((report entry).run session).2.evaluated = session.evaluated := by
  change ((entry :: session.log).reverse.filterMap LogEntry.evaluated?) = _
  simp [evaluated, h]

theorem evaluates_report {entry : LogEntry} (h : entry.evaluated? = none) :
    Evaluates limit exprs known (fun _ _ => True) (report entry) := by
  intro session hsession _
  have hsame := evaluated_report h session
  refine ⟨⟨hsession.limit_eq, ?_, ?_⟩, ⟨[], ?_, by simp⟩, fun _ _ => trivial⟩
  · rw [hsame]
    exact hsession.store_eq
  · rw [hsame]
    exact hsession.plain
  · rw [hsame, List.append_nil]

abbrev AllMadeFrom (evaluated values : List Value) : Prop := ∀ v ∈ values, v.MadeFrom evaluated

def startEvaluating (expr : Value) : SessionM Value := do
  report (.evaluating expr)
  evaluateGlobal expr

theorem evaluateReporting_eq (expr : Value) :
    evaluateReporting expr = do
      let value ← startEvaluating expr
      if value.isSentinel then report (.gaveSentinel expr value)
      return value := by
  rw [startEvaluating, bind_assoc]
  rfl

theorem evaluates_startEvaluating {expr : Value} (hmem : expr ∈ exprs) (hplain : expr.IsPlain) :
    Evaluates limit exprs known (fun evaluated v => v.MadeFrom evaluated)
      (startEvaluating expr) := by
  intro session hsession _
  have hrun : (startEvaluating expr).run session =
      (((evaluate session.limit expr Store.globalFrame).run session.store).1,
        { session with
          store := ((evaluate session.limit expr Store.globalFrame).run session.store).2
          log := .evaluating expr :: session.log }) := rfl
  rw [hrun]
  have hevaluated : (Session.mk ((evaluate session.limit expr Store.globalFrame).run
      session.store).2 session.pending session.limit (.evaluating expr :: session.log)).evaluated =
        session.evaluated ++ [expr] := by
    simp [evaluated, LogEntry.evaluated?]
  have hall : ∀ s ∈ session.evaluated ++ [expr], s.IsPlain := by
    intro s hs
    rcases List.mem_append.mp hs with hold | hnew
    · exact hsession.plain s hold
    · rwa [List.mem_singleton.mp hnew]
  have hcode := Value.isCode_last session.evaluated expr
  have hstore := hsession.madeFrom.mono (List.subset_append_left _ [expr])
  refine ⟨⟨hsession.limit_eq, ?_, ?_⟩, ⟨[expr], hevaluated, by simpa⟩, ?_⟩
  · rw [hevaluated, storeAfter_append, ← hsession.store_eq, ← hsession.limit_eq]
    rfl
  · rwa [hevaluated]
  · intro v hv
    rw [hevaluated]
    exact Evaluation.madeFrom_evaluate hall session.limit hcode Store.globalFrame hstore hv

theorem evaluates_evaluateReporting {expr : Value} (hmem : expr ∈ exprs) (hplain : expr.IsPlain) :
    Evaluates limit exprs known (fun evaluated v => v.MadeFrom evaluated)
      (evaluateReporting expr) := by
  rw [evaluateReporting_eq]
  refine (evaluates_startEvaluating hmem hplain).bind fun value evaluated _ hvalue => ?_
  have hlast : Evaluates limit exprs evaluated (fun evaluated v => v.MadeFrom evaluated)
      (Pure.pure value) := .pure fun _ hsubset => hvalue.mono hsubset
  refine .ite ?_ hlast
  exact (evaluates_report rfl).bind fun _ later hsubset _ => .pure fun _ hsubset' =>
    hvalue.mono (List.Subset.trans hsubset hsubset')

theorem evaluates_evaluateAll {values : List Value} (hsub : values ⊆ exprs)
    (hplain : ∀ expr ∈ values, expr.IsPlain) :
    Evaluates limit exprs known AllMadeFrom (evaluateAll values) := by
  induction values generalizing known with
  | nil => exact .pure fun _ _ v hv => by cases hv
  | cons expr rest ih =>
    have hrest : rest ⊆ exprs := List.Subset.trans (List.subset_cons_self expr rest) hsub
    refine (evaluates_evaluateReporting (hsub (by simp)) (hplain expr (by simp))).bind
      fun value evaluated _ hvalue => ?_
    refine (ih hrest fun other hother => hplain other (by simp [hother])).bind
      fun values later hsubset hvalues => .pure fun last hsubset' v hv => ?_
    rcases List.mem_cons.mp hv with rfl | hv
    · exact hvalue.mono (List.Subset.trans hsubset hsubset')
    · exact (hvalues v hv).mono hsubset'

theorem evaluates_finish (fault : Option ReadFault) :
    Evaluates limit exprs known AllMadeFrom (finish fault) := by
  rcases fault with _ | ⟨sentinel, position⟩ | fault
  · exact .pure fun _ _ v hv => by cases hv
  · refine (evaluates_report rfl).bind fun _ _ _ _ => .pure fun _ _ v hv => ?_
    rw [List.mem_singleton.mp hv]
    exact Value.madeFrom_sentinel sentinel
  · exact .throw _

theorem evaluates_run (text : List Char) :
    Evaluates limit (Script.ofText text).values known AllMadeFrom (Session.run text) := by
  refine (evaluates_evaluateAll (List.Subset.refl _) fun expr => Script.isPlain_values).bind
    fun values evaluated _ hvalues => ?_
  refine (evaluates_finish _).bind fun last later hsubset hlast => .pure fun _ hsubset' v hv => ?_
  rcases List.mem_append.mp hv with hv | hv
  · exact (hvalues v hv).mono (List.Subset.trans hsubset hsubset')
  · exact (hlast v hv).mono hsubset'

theorem evaluates_eval (text : List Char) :
    Evaluates limit
      (Script.ofText (Text.joinLines ((Text.linesBy Text.isLineEnd text).map stripComment))).values
      known (fun evaluated v => v.MadeFrom evaluated) (eval text) := by
  refine (evaluates_run _).bind fun values evaluated _ hvalues => .pure fun later hsubset => ?_
  cases hlast : values.getLast? with
  | none => exact Value.madeFrom_nil
  | some v => exact (hvalues v (List.mem_of_getLast? hlast)).mono hsubset

def readBy (session : Session) (request : Request) : List Value :=
  match session.text? request with
  | some text => (Script.ofText text).values
  | none => []

theorem Traced.withPending {session : Session} (h : session.Traced limit)
    (lines : List (List Char)) : ({ session with pending := lines } : Session).Traced limit :=
  ⟨h.limit_eq, h.store_eq, h.plain⟩

theorem ends_pending {session : Session} (h : session.Traced limit) (lines : List (List Char)) :
    Ends limit exprs AllMadeFrom session (.ok [], { session with pending := lines }) where
  traced := h.withPending lines
  fresh := ⟨[], (List.append_nil _).symm, by simp⟩
  result := by
    rintro values ⟨⟩ v hv
    cases hv

theorem ends_run_pending {session : Session} (h : session.Traced limit) (text : List Char)
    (lines : List (List Char)) :
    Ends limit (Script.ofText text).values AllMadeFrom session
      ((Session.run text).run { session with pending := lines }) := by
  have hrun := @evaluates_run limit [] text _ (h.withPending lines) (List.nil_subset _)
  exact ⟨hrun.traced, hrun.fresh, hrun.result⟩

theorem ends_perform {session : Session} (h : session.Traced limit) (request : Request) :
    Ends limit (session.readBy request) AllMadeFrom session (request.perform.run session) := by
  cases request with
  | run text => exact evaluates_run text session h (List.nil_subset _)
  | eval text =>
    have heval := (@evaluates_eval limit [] text).bind fun v evaluated _ hv =>
      .pure (q := AllMadeFrom) (a := [v]) fun later hsubset w hw => by
        rw [List.mem_singleton.mp hw]
        exact hv.mono hsubset
    exact heval session h (List.nil_subset _)
  | feed line =>
    change Ends _ _ _ _ ((feed line).run session)
    rw [run_feed_eq, readBy, text?]
    cases session.buffer? (.feed line) with
    | some lines => exact ends_run_pending h _ []
    | none => exact ends_pending h _
  | flush =>
    change Ends _ _ _ _ (flush.run session)
    rw [run_flush_eq, readBy, text?]
    cases session.buffer? .flush with
    | some lines => exact ends_run_pending h _ []
    | none => exact ends_pending h session.pending

theorem traced_after {session : Session} (h : session.Traced limit) (requests : List Request) :
    (session.after requests).Traced limit := by
  induction requests generalizing session with
  | nil => exact h
  | cons request rest ih => exact ih (ends_perform h request).traced

theorem mem_values_of_mem_evaluated {session : Session} (h : session.Traced limit)
    (requests : List Request) {expr : Value} (hexpr : expr ∈ (session.after requests).evaluated) :
    expr ∈ session.evaluated ∨
      ∃ text ∈ session.texts requests, expr ∈ (Script.ofText text).values := by
  induction requests generalizing session with
  | nil => exact .inl hexpr
  | cons request rest ih =>
    have hends := ends_perform h request
    rcases ih hends.traced hexpr with hfirst | ⟨text, htext, hvalue⟩
    · obtain ⟨fresh, heq, hfresh⟩ := hends.fresh
      rw [heq] at hfirst
      rcases List.mem_append.mp hfirst with hold | hnew
      · exact .inl hold
      · have hread := hfresh expr hnew
        unfold readBy at hread
        split at hread
        · rename_i text heq
          exact .inr ⟨text, by simp [texts, heq], hread⟩
        · cases hread
    · exact .inr ⟨text, by simp [texts, htext], hvalue⟩

end Session

/-- In every session nothing that was computed is evaluated. The store is what evaluating the
expressions that were read, one after another, makes of an empty one. Whatever is evaluated
meanwhile is a part of an expression read so far, or empty, or stands for the parts of a clause
that is no list. The closures in the values that are bound or given, in the end and at every place
before, have parameters and bodies that are such parts, or empty. -/
theorem session_evaluates_only_sources (limit : Nat) (requests : List Session.Request) :
    let session := (Session.start limit).after requests
    (∀ expr ∈ session.evaluated, ∃ text ∈ (Session.start limit).texts requests,
      expr ∈ (Script.ofText text).values) ∧
    session.store = Session.storeAfter limit .withGlobal session.evaluated ∧
    (∀ known expr later, session.evaluated = known ++ expr :: later →
      ∀ task ∈ Evaluation.tasks limit expr Store.globalFrame
          (Session.storeAfter limit .withGlobal known),
        task.FromSources (known ++ [expr]) ∧
        ∀ nesting v, ((evaluate nesting task.expr task.frame).run task.store).1 = .ok v →
          v.MadeFrom (known ++ [expr])) ∧
    session.store.MadeFrom session.evaluated ∧
    ∀ (request : Session.Request) values, (request.perform.run session).1 = .ok values →
      ∀ v ∈ values, v.MadeFrom (request.perform.run session).2.evaluated := by
  intro session
  have htraced := Session.traced_after (Session.traced_start limit) requests
  refine ⟨?_, htraced.store_eq, ?_, htraced.madeFrom, ?_⟩
  · intro expr hexpr
    rcases Session.mem_values_of_mem_evaluated (Session.traced_start limit) requests hexpr with
      hnone | hread
    · cases hnone
    · exact hread
  · intro known expr later heq task htask
    have hplain : ∀ s ∈ known ++ [expr], s.IsPlain := by
      intro s hs
      refine htraced.plain s ?_
      rw [heq]
      rcases List.mem_append.mp hs with hold | hnew
      · exact List.mem_append_left _ hold
      · exact List.mem_append_right _ (by simp [List.mem_singleton.mp hnew])
    have hknown : ∀ s ∈ [] ++ known, s.IsPlain := fun s hs =>
      hplain s (List.mem_append_left _ hs)
    have hcode := Value.isCode_last known expr
    have hstore := (Session.madeFrom_storeAfter limit hknown .withGlobal).mono
      (List.subset_append_left known [expr])
    have hfrom := Evaluation.fromSources_of_mem_tasks hplain limit hcode Store.globalFrame hstore
      htask
    refine ⟨hfrom, fun nesting v hv => ?_⟩
    exact Evaluation.madeFrom_evaluate hplain nesting hfrom.expr task.frame hfrom.store hv
  · intro request values hvalues
    exact (Session.ends_perform htraced request).result values hvalues

def Session.clauseRequests : List Session.Request :=
  [.run "(define k (x) (lambda (y) x))".toList, .feed "(set g (k (quote (k 1))))".toList,
    .run "(cond 5)".toList]

theorem session_evaluates_only_sources_clauseRequests :
    let session := (Session.start 50).after Session.clauseRequests
    ("g", Value.closure (.ofList [.symbol "y"] .nil) (.symbol "x") 1) ∈
      session.store.bindings Store.globalFrame ∧
    (Value.symbol "x").IsSource session.evaluated ∧
    (∃ task ∈ Evaluation.tasks 50 (.ofList [.symbol "cond", .long 5] .nil) Store.globalFrame
        (Session.storeAfter 50 .withGlobal (session.evaluated.take 2)),
      task.expr = Sentinel.notAPair.value) ∧
    Sentinel.notAPair.value.IsCode
      (session.evaluated.take 2 ++ [.ofList [.symbol "cond", .long 5] .nil]) := by
  intro session
  have hmem : ("g", Value.closure (.ofList [.symbol "y"] .nil) (.symbol "x") 1) ∈
      session.store.bindings Store.globalFrame := by decide +kernel
  have hread : session.evaluated =
      session.evaluated.take 2 ++ .ofList [.symbol "cond", .long 5] .nil :: [] := by
    decide +kernel
  have htask : ∃ task ∈ Evaluation.tasks 50 (.ofList [.symbol "cond", .long 5] .nil)
      Store.globalFrame (Session.storeAfter 50 .withGlobal (session.evaluated.take 2)),
      task.expr = Sentinel.notAPair.value := by decide +kernel
  obtain ⟨-, -, htasks, hbound, -⟩ := session_evaluates_only_sources 50 Session.clauseRequests
  obtain ⟨task, hintasks, hexpr⟩ := htask
  have hcode := (htasks _ _ _ hread task hintasks).1.expr
  rw [hexpr] at hcode
  have hframe : session.store.frames[0]? =
      some ⟨session.store.bindings Store.globalFrame, none⟩ := by decide +kernel
  have hclosure := hbound 0 _ hframe _ hmem
  exact ⟨hmem, (hclosure _ _ _ .self).2, ⟨task, hintasks, hexpr⟩, hcode⟩

end Lisplet
