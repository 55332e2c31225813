import Lisplet.Proofs.Passage

/-!
How a source is cut into lines makes no difference, as long as each newline outside parentheses
stands between two expressions: fed line by line, run at once or evaluated as one text, it gives
the same values and leaves the same session.
-/

set_option autoImplicit false

namespace Lisplet

namespace Text

theorem joinLines_singleton (line : List Char) : joinLines [line] = line := by
  simp [joinLines, List.intercalate]

theorem joinLines_cons_cons (line next : List Char) (rest : List (List Char)) :
    joinLines (line :: next :: rest) = line ++ '\n' :: joinLines (next :: rest) := by
  simp [joinLines, List.intercalate]

theorem joinLines_append {a b : List (List Char)} (ha : a ≠ []) (hb : b ≠ []) :
    joinLines (a ++ b) = joinLines a ++ '\n' :: joinLines b := by
  induction a with
  | nil => exact absurd rfl ha
  | cons line a ih =>
    cases a with
    | nil =>
      obtain ⟨next, rest, rfl⟩ := List.exists_cons_of_ne_nil hb
      rw [joinLines_singleton]
      exact joinLines_cons_cons line next rest
    | cons next a =>
      have hrest := ih (List.cons_ne_nil _ _)
      rw [List.cons_append, List.cons_append, joinLines_cons_cons, ← List.cons_append, hrest,
        joinLines_cons_cons, List.append_assoc, List.cons_append]

theorem dropNewlines_of_not_mem {line : List Char} (h : '\n' ∉ line) :
    dropNewlines line = line := by
  have hdrop : line.reverse.dropWhile isNewline = line.reverse := by
    cases hreverse : line.reverse with
    | nil => rfl
    | cons c rest =>
      have hmem : c ∈ line := List.mem_reverse.mp (by simp [hreverse])
      have hc : c ≠ '\n' := by
        rintro rfl
        exact h hmem
      rw [List.dropWhile_cons_of_neg (by simp [isNewline, hc])]
  rw [dropNewlines, hdrop, List.reverse_reverse]

theorem linesFrom_line {line : List Char} (h : ∀ c ∈ line, isLineEnd c = false)
    (seen rest : List Char) :
    linesFrom isLineEnd false seen (line ++ '\n' :: rest) =
      (seen.reverse ++ line) :: linesBy isLineEnd rest := by
  induction line generalizing seen with
  | nil =>
    have hnewline : isLineEnd '\n' = true := by decide
    have hreturn : ('\n' == '\r') = false := by decide
    simp only [List.nil_append, List.append_nil, linesFrom, Bool.false_and, Bool.false_eq_true,
      ↓reduceIte, hnewline, hreturn]
    rfl
  | cons c line ih =>
    have hc := h c (by simp)
    have hline := ih (fun d hd => h d (by simp [hd])) (c :: seen)
    simp only [List.cons_append, linesFrom, Bool.false_and, Bool.false_eq_true, ↓reduceIte, hc]
    rw [hline, List.reverse_cons, List.append_assoc, List.singleton_append]

theorem linesBy_joinLines {lines : List (List Char)}
    (h : ∀ line ∈ lines, ∀ c ∈ line, isLineEnd c = false) :
    linesBy isLineEnd (joinLines lines) = lines ∨
      lines = linesBy isLineEnd (joinLines lines) ++ [[]] := by
  induction lines with
  | nil => exact .inl rfl
  | cons line rest ih =>
    have hline := h line (by simp)
    cases rest with
    | nil =>
      rw [joinLines_singleton, linesBy, linesFrom_of_none hline]
      by_cases hnil : line = []
      · exact .inr (by simp [hnil])
      · exact .inl (by simp [hnil])
    | cons next rest =>
      have hcut : linesBy isLineEnd (joinLines (line :: next :: rest)) =
          line :: linesBy isLineEnd (joinLines (next :: rest)) := by
        rw [joinLines_cons_cons, linesBy, linesFrom_line hline]
        rfl
      rw [hcut]
      rcases ih (fun other hother => h other (by simp [hother])) with hrest | hrest
      · exact .inl (by rw [hrest])
      · refine .inr ?_
        rw [List.cons_append, ← hrest]

end Text

/-- Every newline outside parentheses stands between expressions. -/
def CutsBetween (text : List Char) : Prop :=
  ∀ i < text.length, text[i]? = some '\n' → parenDepth (text.take i) = 0 →
    Script.IsBetween text i

instance (text : List Char) (i : Nat) : Decidable (Script.IsBetween text i) :=
  inferInstanceAs (Decidable (∃ stop ∈ 0 :: (Script.ofText text).items.map ScriptItem.stop,
    stop ≤ i ∧ Text.isBlankText ((text.take i).drop stop) = true))

instance (text : List Char) : Decidable (CutsBetween text) :=
  inferInstanceAs (Decidable (∀ i < text.length, text[i]? = some '\n' →
    parenDepth (text.take i) = 0 → Script.IsBetween text i))

def SettledCuts (text : List Char) : Prop :=
  ∀ head tail, text = head ++ '\n' :: tail → parenDepth head = 0 →
    (Script.ofText head).fault = none

theorem CutsBetween.settled {text : List Char} (h : CutsBetween text) : SettledCuts text := by
  rintro head tail rfl hdepth
  apply Script.fault_of_isBetween
  apply h
  · simp
  · simp
  · rw [List.take_left]
    exact hdepth

theorem SettledCuts.tail {head tail : List Char} (h : SettledCuts (head ++ '\n' :: tail))
    (hdepth : parenDepth head = 0) : SettledCuts tail := by
  intro head' tail' htail hdepth'
  have hhead := h head tail rfl hdepth
  have hwhole : head ++ '\n' :: tail = (head ++ '\n' :: head') ++ '\n' :: tail' := by
    rw [htail, List.append_assoc, List.cons_append]
  have hsum := (parenDepth_newline hhead head').trans hdepth'
  exact (Script.fault_newline hhead head').mp (h _ tail' hwhole hsum)

namespace Session

theorem evaluateAll_append (a b : List Value) :
    evaluateAll (a ++ b) = do
      let first ← evaluateAll a
      let second ← evaluateAll b
      return first ++ second := by
  induction a with
  | nil => simp [evaluateAll]
  | cons expr a ih => simp [evaluateAll, ih]

theorem run_of_fault_none {text : List Char} (h : (Script.ofText text).fault = none) :
    run text = evaluateAll (Script.ofText text).values := by
  simp [run, h, finish]

def KeepsPending {α : Type} (m : SessionM α) : Prop :=
  ∀ session, (m.run session).2.pending = session.pending

theorem Grows.keepsPending {α : Type} {m : SessionM α} (h : Grows m) : KeepsPending m :=
  fun session => (h session).pending

theorem keepsPending_run (text : List Char) : KeepsPending (run text) :=
  (grows_run text).keepsPending

theorem pending_of_run {text : List Char} {session after : Session}
    {result : Except Failure (List Value)} (h : (run text).run session = (result, after)) :
    after.pending = session.pending := by
  have hkeeps := keepsPending_run text session
  rwa [h] at hkeeps

theorem run_blank {text : List Char} (h : Text.isBlankText text = true) : run text = pure [] := by
  have hscript : Script.ofText text = ⟨[], none, _⟩ :=
    Script.readFrom_of_blank (Text.trimLeft_eq_nil.mpr h)
  rw [run_of_fault_none (by rw [hscript]), hscript]
  rfl

theorem run_feed_of_depth (line : List Char) (session : Session) :
    (feed line).run session =
      if 0 < parenDepth (Text.joinLines (session.taking line)) then
        (.ok [], { session with pending := session.taking line })
      else (run (Text.joinLines (session.taking line))).run { session with pending := [] } := by
  rw [run_feed]
  by_cases hblank : Text.isBlankText (Text.joinLines (session.taking line)) = true
  · -- White space alone is dropped, but running it would do nothing either.
    have hdepth : ¬0 < parenDepth (Text.joinLines (session.taking line)) := by
      rw [parenDepth_of_blank hblank]
      decide
    rw [if_pos hblank, if_neg hdepth, run_blank hblank]
    rfl
  · rw [if_neg hblank]

theorem run_feedAll_cons {line : List Char} {rest : List (List Char)} {session mid after : Session}
    {first second : List Value} (hfeed : (feed line).run session = (.ok first, mid))
    (hrest : (feedAll rest).run mid = (.ok second, after)) :
    (feedAll (line :: rest)).run session = (.ok (first ++ second), after) := by
  rw [feedAll, run_bind, hfeed]
  dsimp only
  rw [run_bind, hrest]
  rfl

/-- What is kept and the lines to come, as one text. -/
def source (session : Session) (lines : List (List Char)) : List Char :=
  Text.joinLines (session.pending ++ lines.map stripComment)

/-- Run at once, what is kept and the lines to come would give these values. -/
structure Yields (session : Session) (lines : List (List Char)) (values : List Value)
    (after : Session) : Prop where
  fault : (Script.ofText (session.source lines)).fault = none
  cuts : SettledCuts (session.source lines)
  run : (run (session.source lines)).run { session with pending := [] } = (.ok values, after)

section

variable {session after : Session} {line : List Char} {values : List Value}
  (hline : ∀ c ∈ line, Text.isLineEnd c = false)
include hline

theorem source_cons (session : Session) (rest : List (List Char)) :
    session.source (line :: rest) =
      Text.joinLines (session.taking line ++ rest.map stripComment) := by
  have hnewline : '\n' ∉ line := fun hmem => absurd (hline '\n' hmem) (by decide)
  rw [source, taking, Text.dropNewlines_of_not_mem hnewline, List.append_assoc]
  rfl

theorem Yields.feed_last (h : Yields session [line] values after) :
    (feed line).run session = (.ok values, after) := by
  have hsource := source_cons hline session []
  rw [List.map_nil, List.append_nil] at hsource
  have hdepth := parenDepth_of_fault_none h.fault
  have hrun := h.run
  rw [hsource] at hdepth hrun
  rw [run_feed_of_depth, if_neg (by omega), hrun]

theorem Yields.feed_next {next : List Char} {more : List (List Char)}
    (h : Yields session (line :: next :: more) values after) :
    ∃ first mid second, (feed line).run session = (.ok first, mid) ∧
      Yields mid (next :: more) second after ∧ values = first ++ second := by
  obtain ⟨hfault, hcuts, hrun⟩ := h
  have hsource := source_cons hline session (next :: more)
  have hjoin := @Text.joinLines_append (session.taking line) ((next :: more).map stripComment)
    (by simp [taking]) (by simp)
  have hfeed := run_feed_of_depth line session
  -- Either a list is still open and the line is kept, or the line ends where the text can be cut.
  by_cases hopen : 0 < parenDepth (Text.joinLines (session.taking line))
  · rw [if_pos hopen] at hfeed
    rw [hsource] at hfault hcuts hrun
    exact ⟨[], _, values, hfeed, ⟨hfault, hcuts, hrun⟩, rfl⟩
  · rw [hsource, hjoin] at hfault hcuts hrun
    have hdepth : parenDepth (Text.joinLines (session.taking line)) = 0 := by
      have hnonneg := parenDepth_nonneg hfault
      omega
    have hhead := hcuts _ _ rfl hdepth
    have htail := (Script.fault_newline hhead _).mp hfault
    rw [run_of_fault_none hfault, Script.values_newline hhead, evaluateAll_append,
      ← run_of_fault_none hhead, ← run_of_fault_none htail] at hrun
    obtain ⟨first, mid, hfirst, hrest⟩ := of_run_bind_ok hrun
    obtain ⟨second, last, hsecond, hdone⟩ := of_run_bind_ok hrest
    cases hdone
    have hnone : mid.pending = [] := pending_of_run hfirst
    have hmid : mid = { mid with pending := [] } := by rw [← hnone]
    have htext : mid.source (next :: more) = Text.joinLines ((next :: more).map stripComment) := by
      rw [source, hnone, List.nil_append]
    rw [if_neg hopen, hfirst] at hfeed
    rw [hmid] at hsecond
    refine ⟨first, mid, second, hfeed, ⟨?_, ?_, ?_⟩, rfl⟩
    · rw [htext]
      exact htail
    · rw [htext]
      exact hcuts.tail hdepth
    · rw [htext]
      exact hsecond

end

theorem feedAll_of_yields {line : List Char} {rest : List (List Char)} {session after : Session}
    {values : List Value} (hlines : ∀ other ∈ line :: rest, ∀ c ∈ other, Text.isLineEnd c = false)
    (h : Yields session (line :: rest) values after) :
    (feedAll (line :: rest)).run session = (.ok values, after) := by
  induction rest generalizing line session values with
  | nil =>
    have hfeed := h.feed_last (hlines line (by simp))
    have hall := run_feedAll_cons hfeed (show (feedAll []).run after = (.ok [], after) from rfl)
    rwa [List.append_nil] at hall
  | cons next more ih =>
    obtain ⟨first, mid, second, hfeed, hyields, rfl⟩ := h.feed_next (hlines line (by simp))
    exact run_feedAll_cons hfeed (ih (fun other hother => hlines other (by simp [hother])) hyields)

end Session

def Text.source (lines : List (List Char)) : List Char := joinLines (lines.map stripComment)

namespace Session

theorem run_append_newline {head : List Char}
    (hfault : (Script.ofText (head ++ ['\n'])).fault = none)
    (hcuts : SettledCuts (head ++ ['\n'])) : run (head ++ ['\n']) = run head := by
  have hdepth := parenDepth_of_fault_none hfault
  rw [parenDepth_append_newline] at hdepth
  have hhead := hcuts head [] rfl hdepth
  have hnil : (Script.ofText []).values = [] :=
    congrArg Script.values (Script.readFrom_of_blank rfl)
  rw [run_of_fault_none hfault, run_of_fault_none hhead, Script.values_newline hhead, hnil,
    List.append_nil]

theorem run_eval_source {lines : List (List Char)}
    (hlines : ∀ line ∈ lines, ∀ c ∈ line, Text.isLineEnd c = false)
    (hfault : (Script.ofText (Text.source lines)).fault = none)
    (hcuts : SettledCuts (Text.source lines)) :
    run (Text.source (Text.linesBy Text.isLineEnd (Text.joinLines lines))) =
      run (Text.source lines) := by
  rcases Text.linesBy_joinLines hlines with hsame | hlast
  · rw [hsame]
  · generalize Text.linesBy Text.isLineEnd (Text.joinLines lines) = cut at hlast ⊢
    subst hlast
    by_cases hcut : cut = []
    · subst hcut
      rfl
    · have hjoin : Text.source (cut ++ [[]]) = Text.source cut ++ ['\n'] := by
        rw [Text.source, List.map_append]
        exact Text.joinLines_append (by simpa using hcut) (List.cons_ne_nil _ _)
      rw [hjoin] at hfault hcuts ⊢
      exact (run_append_newline hfault hcuts).symm

theorem eval_eq (text : List Char) :
    eval text = run (Text.source (Text.linesBy Text.isLineEnd text)) >>= fun values =>
      pure (values.getLast?.getD .nil) := rfl

/-- A source in lines that is read to its end, with a newline outside parentheses only between
expressions, gives the same values line by line, with none left to flush, and the last of them
when it is evaluated as one text; the session is the same after each. -/
theorem lines_agree {limit : Nat} {lines : List (List Char)} {values : List Value} {after : Session}
    (hlines : ∀ line ∈ lines, ∀ c ∈ line, Text.isLineEnd c = false)
    (hfault : (Script.ofText (Text.source lines)).fault = none)
    (hcuts : CutsBetween (Text.source lines))
    (hrun : (run (Text.source lines)).run (start limit) = (.ok values, after)) :
    (feedAll lines).run (start limit) = (.ok values, after) ∧
    flush.run after = (.ok [], after) ∧
    (eval (Text.joinLines lines)).run (start limit) =
      (.ok (values.getLast?.getD .nil), after) := by
  refine ⟨?_, ?_, ?_⟩
  · cases lines with
    | nil =>
      rw [← hrun, show Text.source [] = [] from rfl, run_blank rfl]
      rfl
    | cons line rest => exact feedAll_of_yields hlines ⟨hfault, hcuts.settled, hrun⟩
  · rw [run_flush, pending_of_run hrun]
    rfl
  · rw [eval_eq, run_eval_source hlines hfault hcuts.settled, run_bind, hrun]
    rfl

def cutLines : List (List Char) :=
  ["(set x ; one".toList, "\";".toList, "\")".toList, "".toList, "'(x".toList, ")".toList,
    "".toList]

theorem lines_agree_cutLines :
    let after := ((run (Text.source cutLines)).run (start 50)).2
    let list := Value.ofList [.symbol "x"] .nil
    (feedAll cutLines).run (start 50) = (.ok [.string ";\n", list], after) ∧
    flush.run after = (.ok [], after) ∧
    (eval (Text.joinLines cutLines)).run (start 50) = (.ok list, after) := by
  intro after list
  have hlines : ∀ line ∈ cutLines, ∀ c ∈ line, Text.isLineEnd c = false := by
    have hnone : cutLines.all (·.all (!Text.isLineEnd ·)) = true := by decide +kernel
    simpa using hnone
  have hfault : (Script.ofText (Text.source cutLines)).fault = none := by decide +kernel
  have hcuts : CutsBetween (Text.source cutLines) := by decide +kernel
  have hvalues : ((run (Text.source cutLines)).run (start 50)).1 =
      .ok [.string ";\n", list] := by
    decide +kernel
  exact lines_agree hlines hfault hcuts (Prod.ext hvalues rfl)

end Session

end Lisplet
