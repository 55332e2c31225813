import Lisplet.Proofs.LineCuts

/-!
Pending lines. A session holds lines back only while a list is open in them. Whatever it is asked
to do, and however that ends, each line that was fed to it has been evaluated once, in its turn,
or is still pending; the lines that it drops are blank and come while nothing is pending.
-/

set_option autoImplicit false

namespace Lisplet

theorem Text.isBlankText_joinLines_append {a b : List (List Char)} (ha : a ≠ [])
    (hb : b ≠ []) : isBlankText (joinLines (a ++ b)) =
      (isBlankText (joinLines a) && isBlankText (joinLines b)) := by
  have hnewline : isBlank '\n' = true := by decide
  rw [joinLines_append ha hb, isBlankText, List.all_append, List.all_cons, hnewline,
    Bool.true_and]
  rfl

namespace Session

def stripped (line : List Char) : List Char := stripComment (Text.dropNewlines line)

theorem taking_eq (session : Session) (line : List Char) :
    session.taking line = session.pending ++ [stripped line] := rfl

/-- The lines that feeding a line or flushing hands to evaluation, if it does. -/
def buffer? (session : Session) : Request → Option (List (List Char))
  | .feed line =>
    if Text.isBlankText (Text.joinLines (session.taking line)) then none
    else if 0 < parenDepth (Text.joinLines (session.taking line)) then none
    else some (session.taking line)
  | .flush => if session.pending.isEmpty then none else some session.pending
  | .run _ | .eval _ => none

/-- The lines that a request adds to the input: the one that is fed, unless it is blank and
nothing is pending. -/
def counted (session : Session) : Request → List (List Char)
  | .feed line =>
    if session.pending = [] ∧ Text.isBlankText (stripped line) then [] else [stripped line]
  | .flush | .run _ | .eval _ => []

/-- The lines that are pending after a request. -/
def pendingAfter (session : Session) : Request → List (List Char)
  | .feed line =>
    if Text.isBlankText (Text.joinLines (session.taking line)) then []
    else if 0 < parenDepth (Text.joinLines (session.taking line)) then session.taking line
    else []
  | .flush => []
  | .run _ | .eval _ => session.pending

/-- Lines wait only for a list to be closed. -/
def Waits (session : Session) : Prop :=
  session.pending = [] ∨
    Text.isBlankText (Text.joinLines session.pending) = false ∧
      0 < parenDepth (Text.joinLines session.pending)

theorem waits_start (limit : Nat) : (start limit).Waits := .inl rfl

theorem keepsPending_eval (text : List Char) : KeepsPending (eval text) :=
  (grows_eval text).keepsPending

/-- What feeding and flushing do: they evaluate a buffer with nothing pending, or nothing. -/
theorem run_feed_eq (session : Session) (line : List Char) :
    (feed line).run session =
      match session.buffer? (.feed line) with
      | some lines => (run (Text.joinLines lines)).run { session with pending := [] }
      | none => (.ok [], { session with pending := session.pendingAfter (.feed line) }) := by
  rw [run_feed, buffer?, pendingAfter]
  split
  · rfl
  split <;> rfl

theorem run_flush_eq (session : Session) :
    flush.run session =
      match session.buffer? .flush with
      | some lines => (run (Text.joinLines lines)).run { session with pending := [] }
      | none => (.ok [], session) := by
  rw [run_flush, buffer?]
  split <;> rfl

theorem pending_perform (session : Session) (request : Request) :
    (request.perform.run session).2.pending = session.pendingAfter request := by
  cases request with
  | run text => exact keepsPending_run text session
  | eval text => exact ((grows_eval text).bind fun _ => grows_pure _).keepsPending session
  | feed line =>
    change ((feed line).run session).2.pending = _
    rw [run_feed, pendingAfter]
    split
    · rfl
    split
    · rfl
    · exact keepsPending_run _ _
  | flush =>
    change (flush.run session).2.pending = []
    rw [run_flush]
    split
    · rename_i hempty
      exact List.isEmpty_iff.mp hempty
    · exact keepsPending_run _ _

theorem waits_perform {session : Session} (h : session.Waits) (request : Request) :
    (request.perform.run session).2.Waits := by
  unfold Waits
  rw [pending_perform]
  cases request with
  | run text => exact h
  | eval text => exact h
  | feed line =>
    rw [pendingAfter]
    split
    · exact .inl rfl
    split
    · rename_i hblank hopen
      exact .inr ⟨by simpa using hblank, hopen⟩
    · exact .inl rfl
  | flush => exact .inl rfl

theorem blank_taking_iff {session : Session} (h : session.Waits) (line : List Char) :
    Text.isBlankText (Text.joinLines (session.taking line)) = true ↔
      session.pending = [] ∧ Text.isBlankText (stripped line) = true := by
  rw [taking_eq]
  rcases h with hnone | ⟨hblank, -⟩
  · rw [hnone, List.nil_append, Text.joinLines_singleton]
    simp
  · have hne : session.pending ≠ [] := by
      intro hnone
      rw [hnone] at hblank
      cases hblank
    rw [Text.isBlankText_joinLines_append hne (List.cons_ne_nil _ _), hblank]
    simp [hne]

theorem buffer?_append_pendingAfter {session : Session} (h : session.Waits) (request : Request) :
    (session.buffer? request).getD [] ++ session.pendingAfter request =
      session.pending ++ session.counted request := by
  cases request with
  | run text => simp [buffer?, pendingAfter, counted]
  | eval text => simp [buffer?, pendingAfter, counted]
  | feed line =>
    have hdropped := blank_taking_iff h line
    rw [buffer?, pendingAfter, counted]
    by_cases hblank : Text.isBlankText (Text.joinLines (session.taking line)) = true
    · have hboth := hdropped.mp hblank
      rw [if_pos hblank, if_pos hblank, if_pos hboth, hboth.1]
      rfl
    · rw [if_neg hblank, if_neg hblank, if_neg (hdropped.not.mp hblank), ← taking_eq]
      split <;> simp
  | flush =>
    rw [buffer?, pendingAfter, counted]
    split
    · rename_i hempty
      simp [List.isEmpty_iff.mp hempty]
    · simp

def buffers (session : Session) : List Request → List (List (List Char))
  | [] => []
  | request :: rest =>
    (session.buffer? request).toList ++ buffers (request.perform.run session).2 rest

/-- The lines that these requests add to the input. -/
def countedLines (session : Session) : List Request → List (List Char)
  | [] => []
  | request :: rest =>
    session.counted request ++ countedLines (request.perform.run session).2 rest

theorem waits_after {session : Session} (h : session.Waits) (requests : List Request) :
    (session.after requests).Waits := by
  induction requests generalizing session with
  | nil => exact h
  | cons request rest ih => exact ih (waits_perform h request)

theorem flatten_toList {α : Type} (o : Option (List α)) : o.toList.flatten = o.getD [] := by
  cases o <;> simp

theorem buffers_append_pending {session : Session} (h : session.Waits)
    (requests : List Request) :
    (session.buffers requests).flatten ++ (session.after requests).pending =
      session.pending ++ session.countedLines requests := by
  induction requests generalizing session with
  | nil => simp [buffers, countedLines, after]
  | cons request rest ih =>
    have hstep := buffer?_append_pendingAfter h request
    have hrest := ih (waits_perform h request)
    rw [pending_perform] at hrest
    calc (session.buffers (request :: rest)).flatten ++ (session.after (request :: rest)).pending
        = (session.buffer? request).getD [] ++
            (((request.perform.run session).2.buffers rest).flatten ++
              ((request.perform.run session).2.after rest).pending) := by
          rw [buffers, List.flatten_append, flatten_toList, List.append_assoc]
          rfl
      _ = ((session.buffer? request).getD [] ++ session.pendingAfter request) ++
            (request.perform.run session).2.countedLines rest := by
          rw [hrest, List.append_assoc]
      _ = session.pending ++ session.countedLines (request :: rest) := by
          rw [hstep, countedLines, List.append_assoc]

/-- After any requests, also where some have failed, nothing is pending or a list is open in what
is; the buffers that were evaluated so far and the pending lines are the lines of the input, in
order. Flushing, and a line whose evaluation fails, leave nothing pending; running and evaluating
a text leave pending what is. Feeding and flushing evaluate the buffer that they hand over, and
otherwise only keep or drop lines. -/
theorem every_line_once (limit : Nat) (requests : List Request) :
    let session := (start limit).after requests
    session.Waits ∧
    ((start limit).buffers requests).flatten ++ session.pending =
      (start limit).countedLines requests ∧
    (flush.run session).2.pending = [] ∧
    (∀ line failure, ((feed line).run session).1 = .error failure →
      ((feed line).run session).2.pending = []) ∧
    (∀ text, ((run text).run session).2.pending = session.pending ∧
      ((eval text).run session).2.pending = session.pending) ∧
    (∀ line, (feed line).run session =
      match session.buffer? (.feed line) with
      | some lines => (run (Text.joinLines lines)).run { session with pending := [] }
      | none => (.ok [], { session with pending := session.pendingAfter (.feed line) })) ∧
    flush.run session =
      match session.buffer? .flush with
      | some lines => (run (Text.joinLines lines)).run { session with pending := [] }
      | none => (.ok [], session) := by
  intro session
  have hlines := buffers_append_pending (waits_start limit) requests
  have hflush : (flush.run session).2.pending = [] := pending_perform session .flush
  refine ⟨waits_after (waits_start limit) requests, hlines, hflush, ?_, ?_,
    run_feed_eq session, run_flush_eq session⟩
  · intro line failure hfailure
    rw [run_feed_eq] at hfailure ⊢
    cases hbuffer : session.buffer? (.feed line) with
    | none =>
      rw [hbuffer] at hfailure
      cases hfailure
    | some lines => exact keepsPending_run _ _
  · intro text
    exact ⟨keepsPending_run text session, keepsPending_eval text session⟩

def brokenRequests : List Request :=
  [.feed "  ; none".toList, .feed "(f ; one".toList, .feed "".toList, .run "(g".toList,
    .feed "0x1p٣)\n".toList, .feed "(h".toList]

theorem every_line_once_brokenRequests :
    (start 50).countedLines brokenRequests =
      ["(f ".toList, "".toList, "0x1p٣)".toList, "(h".toList] ∧
    ((start 50).buffers brokenRequests).flatten ++ ((start 50).after brokenRequests).pending =
      (start 50).countedLines brokenRequests ∧
    ((feed "0x1p٣)".toList).run ((start 50).after brokenRequests)).1 =
      .error (.numeral .notHexadecimal) ∧
    ((feed "0x1p٣)".toList).run ((start 50).after brokenRequests)).2.pending = [] := by
  obtain ⟨-, hlines, -, hfails, -⟩ := every_line_once 50 brokenRequests
  have hfeed : ((feed "0x1p٣)".toList).run ((start 50).after brokenRequests)).1 =
      .error (.numeral .notHexadecimal) := by
    decide +kernel
  exact ⟨by decide +kernel, hlines, hfeed, hfails _ _ hfeed⟩

end Session

end Lisplet
