import Lisplet.Console
import Lisplet.Proofs.PendingLines

/-!
Conversations. Between its prompts the console writes what a file of the same lines gives, and it
leaves the session that these lines leave; only the file then runs what is still pending. The
console quits at an exit line that comes while nothing is pending, and it goes on after a line
whose evaluation goes too deep.
-/

set_option autoImplicit false

namespace Lisplet

namespace Text

theorem linesFrom_isNewline_cons (seen : List Char) (c : Char) (rest : List Char) :
    linesFrom isNewline false seen (c :: rest) =
      if c = '\n' then seen.reverse :: linesBy isNewline rest
      else linesFrom isNewline false (c :: seen) rest := by
  by_cases hc : c = '\n' <;> simp [linesFrom, linesBy, isNewline, hc]

theorem linesFrom_isFileLineEnd {text : List Char} (h : '\r' ∉ text) (seen : List Char) :
    linesFrom isFileLineEnd false seen text = linesFrom isNewline false seen text := by
  induction text generalizing seen with
  | nil => rw [linesFrom_nil, linesFrom_nil]
  | cons c rest ih =>
    have hc : c ≠ '\r' := fun hreturn => h (by simp [hreturn])
    have hrest : '\r' ∉ rest := fun hmem => h (by simp [hmem])
    rw [linesFrom_isNewline_cons]
    by_cases hnewline : c = '\n'
    · rw [if_pos hnewline, linesBy, ← ih hrest]
      simp [linesFrom, isFileLineEnd, hnewline]
    · rw [if_neg hnewline, ← ih hrest]
      simp [linesFrom, isFileLineEnd, hnewline, hc]

def EndsLine (part : List Char) : Prop := part = [] ∨ part.getLast? = some '\n'

instance (part : List Char) : Decidable (EndsLine part) :=
  inferInstanceAs (Decidable (part = [] ∨ part.getLast? = some '\n'))

theorem linesFrom_append_newline (seen front rest : List Char) :
    linesFrom isNewline false seen (front ++ '\n' :: rest) =
      linesFrom isNewline false seen (front ++ ['\n']) ++ linesBy isNewline rest := by
  induction front generalizing seen with
  | nil => simp [linesFrom_isNewline_cons, linesBy, linesFrom_nil]
  | cons c front ih =>
    rw [List.cons_append, List.cons_append, linesFrom_isNewline_cons, linesFrom_isNewline_cons]
    split
    · exact congrArg (_ :: ·) (ih [])
    · exact ih _

theorem EndsLine.linesBy_append {part : List Char} (h : EndsLine part) (rest : List Char) :
    linesBy isNewline (part ++ rest) = linesBy isNewline part ++ linesBy isNewline rest := by
  rcases h with rfl | hlast
  · rfl
  · obtain ⟨front, rfl⟩ := List.getLast?_eq_some_iff.mp hlast
    rw [List.append_assoc]
    exact linesFrom_append_newline [] front rest

theorem of_linesFrom_eq_cons {seen text line : List Char} {lines : List (List Char)}
    (h : linesFrom isNewline false seen text = line :: lines) :
    lines = [] ∨ ∃ front rest, text = front ++ '\n' :: rest ∧
      linesFrom isNewline false seen (front ++ ['\n']) = [line] ∧
      linesBy isNewline rest = lines := by
  induction text generalizing seen with
  | nil =>
    rw [linesFrom_nil] at h
    split at h
    · cases h
    · exact .inl (List.cons.inj h).2.symm
  | cons c text ih =>
    rw [linesFrom_isNewline_cons] at h
    split at h
    · rename_i hc
      subst hc
      obtain ⟨hline, hlines⟩ := List.cons.inj h
      refine .inr ⟨[], text, rfl, ?_, hlines⟩
      rw [List.nil_append, linesFrom_isNewline_cons, if_pos rfl, hline]
      rfl
    · rename_i hc
      rcases ih h with hnone | ⟨front, rest, rfl, hfront, hrest⟩
      · exact .inl hnone
      · refine .inr ⟨c :: front, rest, rfl, ?_, hrest⟩
        rw [List.cons_append, linesFrom_isNewline_cons, if_neg hc]
        exact hfront

theorem exists_cut {text line : List Char} {before later : List (List Char)}
    (h : linesBy isNewline text = before ++ line :: later) :
    ∃ part rest, text = part ++ rest ∧ EndsLine part ∧ linesBy isNewline part = before ∧
      linesBy isNewline rest = line :: later := by
  induction before generalizing text with
  | nil => exact ⟨[], text, rfl, .inl rfl, rfl, h⟩
  | cons first before ih =>
    rcases of_linesFrom_eq_cons h with hnone | ⟨front, tail, rfl, hfirst, htail⟩
    · simp at hnone
    · obtain ⟨part, rest, rfl, hends, hpart, hrest⟩ := ih htail
      have hfront : EndsLine (front ++ ['\n']) := .inr (by simp)
      refine ⟨(front ++ ['\n']) ++ part, rest, by simp, ?_, ?_, hrest⟩
      · rcases hends with rfl | hlast
        · rwa [List.append_nil]
        · exact .inr (by rw [List.getLast?_append, hlast]; rfl)
      · rw [hfront.linesBy_append, hpart]
        exact congrArg (· ++ before) hfirst

end Text

namespace Session

theorem of_run_evaluateAll_error {exprs : List Value} {session after : Session}
    {failure : Failure} (h : (evaluateAll exprs).run session = (.error failure, after)) :
    ∃ done expr later values mid, exprs = done ++ expr :: later ∧
      (evaluateAll done).run session = (.ok values, mid) ∧
      (evaluateReporting expr).run mid = (.error failure, after) := by
  induction exprs generalizing session with
  | nil => cases h
  | cons expr rest ih =>
    rcases of_run_bind_error h with hfails | ⟨value, next, hfirst, hmore⟩
    · exact ⟨[], expr, rest, [], session, rfl, rfl, hfails⟩
    · rcases of_run_bind_error hmore with hrest | ⟨values, last, -, hreturn⟩
      · obtain ⟨done, failing, later, values, mid, rfl, hdone, hfails⟩ := ih hrest
        refine ⟨expr :: done, failing, later, value :: values, mid, rfl, ?_, hfails⟩
        rw [evaluateAll, run_bind, hfirst]
        dsimp only
        rw [run_bind, hdone]
        rfl
      · cases hreturn

theorem finish_not_tooDeep (fault : Option ReadFault) (session after : Session) :
    (finish fault).run session ≠ (.error .tooDeep, after) := by
  rcases fault with _ | ⟨sentinel, position⟩ | refused <;> intro h <;> cases h

theorem of_run_tooDeep {text : List Char} {session after : Session}
    (h : (run text).run session = (.error .tooDeep, after)) :
    (evaluateAll (Script.ofText text).values).run session = (.error .tooDeep, after) := by
  rcases of_run_bind_error h with hvalues | ⟨values, mid, -, hmore⟩
  · exact hvalues
  · rcases of_run_bind_error hmore with hlast | ⟨last, next, -, hreturn⟩
    · exact absurd hlast (finish_not_tooDeep _ _ _)
    · cases hreturn

theorem of_run_feed_error {line : List Char} {session after : Session} {failure : Failure}
    (h : (feed line).run session = (.error failure, after)) :
    (run (Text.joinLines (session.taking line))).run { session with pending := [] } =
      (.error failure, after) := by
  rw [run_feed_of_depth] at h
  split at h
  · cases h
  · exact h

theorem globals_flush {session after : Session} {result : Except Failure (List Value)}
    (h : flush.run session = (result, after)) :
    ∃ fresh, after.globals = fresh ++ session.globals := by
  rw [run_flush] at h
  split at h
  · cases h
    exact ⟨[], rfl⟩
  · have hrun := (grows_run _).globals h
    exact hrun

end Session

namespace Console

open Text (linesBy isNewline)

/-- The console once it has taken these lines. -/
def hearing (console : Console) (lines : List (List Char)) : Console :=
  lines.foldl (fun console line => (console.feed line).2) console

def answerTo (console : Console) (line : List Char) : String :=
  match ((Session.feed line).run console.session).1 with
  | .ok values => resultText values
  | .error _ => ""

def answers (console : Console) : List (List Char) → List String
  | [] => []
  | line :: rest => console.answerTo line :: answers (console.feed line).2 rest

def prompts (settings : Settings) (console : Console) : List (List Char) → List String
  | [] => [console.prompt settings]
  | line :: rest => console.prompt settings :: prompts settings (console.feed line).2 rest

/-- All that is written for these lines: a prompt before each answer, and one more at the end. -/
def transcript (settings : Settings) (console : Console) (lines : List (List Char)) : String :=
  String.join
    (List.zipWith (· ++ ·) (console.prompts settings lines) (console.answers lines ++ [""]))

/-- Each of these lines is so for the console that has taken the lines before it. -/
def AtEach (holds : Console → List Char → Prop) (console : Console)
    (lines : List (List Char)) : Prop :=
  ∀ before line later, lines = before ++ line :: later → holds (console.hearing before) line

def Stays (settings : Settings) (console : Console) (line : List Char) : Prop :=
  console.isExit settings line = false

def Survives (console : Console) (line : List Char) : Prop :=
  ∀ failure, ((Session.feed line).run console.session).1 = .error failure → failure = .tooDeep

/-- How the console goes on after a line whose evaluation went too deep and left this session: the
line gets no answer, nothing is pending, and nothing is undone, neither what the failing expression
has bound nor what those before it have. -/
structure Recovers (console : Console) (line : List Char) (after : Session) : Prop where
  unanswered : console.answerTo line = ""
  fed : (console.feed line).1 = .ok ""
  pending : (console.feed line).2.session.pending = []
  store : (console.feed line).2.session.store = after.store
  bound : ∃ done expr later values mid fresh,
    (Script.ofText (Text.joinLines (console.session.taking line))).values =
      done ++ expr :: later ∧
    (Session.evaluateAll done).run { console.session with pending := [] } = (.ok values, mid) ∧
    (Session.evaluateReporting expr).run mid = (.error .tooDeep, after) ∧
    after.globals = fresh ++ mid.globals
  kept : ∃ fresh, after.globals = fresh ++ console.session.globals

/-- The part of a text that the console takes: all of it, or the lines before the first one that
quits. -/
structure TakesUpTo (settings : Settings) (console : Console) (text part : List Char) :
    Prop where
  stays : console.AtEach (Stays settings) (linesBy isNewline part)
  stops : part = text ∨ ∃ line rest, text = part ++ rest ∧ Text.EndsLine part ∧
    (linesBy isNewline rest).head? = some line ∧
    (console.hearing (linesBy isNewline part)).isExit settings line = true

theorem atEach_nil (holds : Console → List Char → Prop) (console : Console) :
    console.AtEach holds [] := by
  intro before line later h
  simp at h

theorem atEach_cons {holds : Console → List Char → Prop} {console : Console} {line : List Char}
    {rest : List (List Char)} :
    console.AtEach holds (line :: rest) ↔
      holds console line ∧ (console.feed line).2.AtEach holds rest := by
  constructor
  · intro h
    refine ⟨h [] line rest rfl, fun before other later hrest => ?_⟩
    exact h (line :: before) other later (by rw [hrest]; rfl)
  · rintro ⟨hline, hrest⟩ before other later h
    cases before with
    | nil =>
      cases h
      exact hline
    | cons first before =>
      cases h
      exact hrest before other later rfl

instance (settings : Settings) (console : Console) (line : List Char) :
    Decidable (console.Stays settings line) :=
  inferInstanceAs (Decidable (console.isExit settings line = false))

instance (console : Console) (line : List Char) : Decidable (console.Survives line) :=
  match h : ((Session.feed line).run console.session).1 with
  | .ok _ => isTrue (by simp [Survives, h])
  | .error failure => decidable_of_iff (failure = .tooDeep) (by simp [Survives, h])

instance decidableAtEach (holds : Console → List Char → Prop)
    [∀ console line, Decidable (holds console line)] :
    (console : Console) → (lines : List (List Char)) → Decidable (console.AtEach holds lines)
  | console, [] => isTrue (atEach_nil holds console)
  | console, line :: rest =>
    have := decidableAtEach holds (console.feed line).2 rest
    decidable_of_iff (holds console line ∧ (console.feed line).2.AtEach holds rest)
      atEach_cons.symm

theorem transcript_nil (settings : Settings) (console : Console) :
    console.transcript settings [] = console.prompt settings := by
  simp [transcript, prompts, answers]

theorem transcript_cons (settings : Settings) (console : Console) (line : List Char)
    (rest : List (List Char)) :
    console.transcript settings (line :: rest) =
      console.prompt settings ++ console.answerTo line ++
        (console.feed line).2.transcript settings rest := by
  simp [transcript, prompts, answers]

theorem transcript_of_silent {settings : Settings} (hfirst : settings.prompt = "")
    (hnext : settings.continuationPrompt = "") (console : Console) (lines : List (List Char)) :
    console.transcript settings lines = String.join (console.answers lines) := by
  have hsilent : ∀ console : Console, console.prompt settings = "" := by
    intro console
    rw [prompt, hfirst, hnext, ite_self]
  induction lines generalizing console with
  | nil => rw [transcript_nil, hsilent, answers, String.join_nil]
  | cons line rest ih =>
    rw [transcript_cons, hsilent, String.empty_append, ih, answers, String.join_cons]

theorem answer_of_stays {settings : Settings} {console : Console} {line : List Char}
    (hstays : console.Stays settings line) (hsurvives : console.Survives line) :
    console.answer settings line =
      (.ok (.output (console.answerTo line)), (console.feed line).2) := by
  have hexit : ¬console.isExit settings line = true := by
    rw [hstays]
    decide
  rw [answer, if_neg hexit, answerTo, feed]
  rcases hrun : (Session.feed line).run console.session with ⟨failure | values, after⟩
  · obtain rfl := hsurvives failure (by rw [hrun])
    rfl
  · rfl

theorem transcribe_eq {settings : Settings} {console : Console} {lines rest : List (List Char)}
    (hstays : console.AtEach (Stays settings) lines) (hsurvives : console.AtEach Survives lines)
    (hrest : rest = [] ∨
      ∃ line, rest.head? = some line ∧ (console.hearing lines).isExit settings line = true)
    (written : String) :
    transcribe settings written console (lines ++ rest) =
      (.ok (written ++ console.transcript settings lines), console.hearing lines) := by
  induction lines generalizing console written with
  | nil =>
    rw [transcript_nil, List.nil_append]
    rcases hrest with rfl | ⟨line, hhead, hexit⟩
    · rfl
    · obtain ⟨later, rfl⟩ := List.head?_eq_some_iff.mp hhead
      have hquits : console.answer settings line = (.ok .quit, console) := if_pos hexit
      rw [transcribe, hquits]
      rfl
  | cons line lines ih =>
    obtain ⟨hstay, hstays⟩ := atEach_cons.mp hstays
    obtain ⟨hsurvive, hsurvives⟩ := atEach_cons.mp hsurvives
    rw [List.cons_append, transcribe, answer_of_stays hstay hsurvive]
    dsimp only
    rw [ih hstays hsurvives hrest, transcript_cons]
    simp only [String.append_assoc]
    rfl

theorem exists_exit (settings : Settings) (console : Console) (lines : List (List Char)) :
    console.AtEach (Stays settings) lines ∨
      ∃ before line later, lines = before ++ line :: later ∧
        console.AtEach (Stays settings) before ∧
        (console.hearing before).isExit settings line = true := by
  induction lines generalizing console with
  | nil => exact .inl (atEach_nil _ _)
  | cons line rest ih =>
    by_cases hexit : console.isExit settings line = true
    · exact .inr ⟨[], line, rest, rfl, atEach_nil _ _, hexit⟩
    · have hstay : console.Stays settings line := Bool.eq_false_iff.mpr hexit
      rcases ih (console.feed line).2 with hstays | ⟨before, other, later, rfl, hstays, hquits⟩
      · exact .inl (atEach_cons.mpr ⟨hstay, hstays⟩)
      · exact .inr
          ⟨line :: before, other, later, rfl, atEach_cons.mpr ⟨hstay, hstays⟩, hquits⟩

theorem exists_takesUpTo (settings : Settings) (console : Console) (text : List Char) :
    ∃ part, console.TakesUpTo settings text part := by
  rcases exists_exit settings console (linesBy isNewline text) with
    hstays | ⟨before, line, later, hlines, hstays, hexit⟩
  · exact ⟨text, hstays, .inl rfl⟩
  · obtain ⟨part, rest, htext, hends, rfl, hrest⟩ := Text.exists_cut hlines
    exact ⟨part, hstays, .inr ⟨line, rest, htext, hends, by rw [hrest]; rfl, hexit⟩⟩

theorem TakesUpTo.converse_eq {settings : Settings} {console : Console} {text part : List Char}
    (h : console.TakesUpTo settings text part)
    (hsurvives : console.AtEach Survives (linesBy isNewline part)) :
    console.converse settings text =
      (.ok (console.transcript settings (linesBy isNewline part)),
        console.hearing (linesBy isNewline part)) := by
  have hwritten := String.empty_append (s := console.transcript settings (linesBy isNewline part))
  rcases h.stops with rfl | ⟨line, rest, rfl, hends, hhead, hexit⟩
  · have hall := @transcribe_eq settings console _ [] h.stays hsurvives (.inl rfl) ""
    rwa [List.append_nil, hwritten] at hall
  · have hstop := transcribe_eq h.stays hsurvives (.inr ⟨line, hhead, hexit⟩) ""
    rwa [← hends.linesBy_append, hwritten] at hstop

theorem TakesUpTo.mem {settings : Settings} {console : Console} {text part : List Char}
    (h : console.TakesUpTo settings text part) {c : Char} (hc : c ∈ part) : c ∈ text := by
  rcases h.stops with rfl | ⟨-, rest, rfl, -⟩
  · exact hc
  · exact List.mem_append_left rest hc

theorem resultText_append (a b : List Value) :
    resultText (a ++ b) = resultText a ++ resultText b := by
  rw [resultText, List.map_append, String.join_append]
  rfl

/-- Lines that a session takes without a failure are answered with their results, and the console
has the session that they leave. -/
theorem hearing_of_feedAll {console : Console} {lines : List (List Char)} {values : List Value}
    {after : Session} (h : (Session.feedAll lines).run console.session = (.ok values, after)) :
    console.AtEach Survives lines ∧
    console.hearing lines = { console with session := after } ∧
    String.join (console.answers lines) = resultText values := by
  induction lines generalizing console values with
  | nil =>
    cases h
    exact ⟨atEach_nil _ _, rfl, rfl⟩
  | cons line rest ih =>
    obtain ⟨first, mid, hfirst, hmore⟩ := of_run_bind_ok h
    obtain ⟨second, last, hsecond, hdone⟩ := of_run_bind_ok hmore
    cases hdone
    have hfed : console.feed line = (.ok (resultText first), { console with session := mid }) := by
      rw [feed, hfirst]
    have hanswer : console.answerTo line = resultText first := by
      rw [answerTo, hfirst]
    have hsurvives : console.Survives line := by
      intro failure hfailure
      rw [hfirst] at hfailure
      cases hfailure
    obtain ⟨hrest, hlast, hanswers⟩ := @ih { console with session := mid } second hsecond
    refine ⟨atEach_cons.mpr ⟨hsurvives, ?_⟩, ?_, ?_⟩
    · rw [hfed]
      exact hrest
    · rw [hearing, List.foldl_cons, hfed]
      exact hlast
    · rw [answers, String.join_cons, hfed, hanswer, hanswers, resultText_append]

theorem recovers {console : Console} {line : List Char} {after : Session}
    (h : (Session.feed line).run console.session = (.error .tooDeep, after)) :
    console.Recovers line after := by
  have hrun := Session.of_run_feed_error h
  have hpending : after.pending = [] := Session.pending_of_run hrun
  obtain ⟨done, expr, later, values, mid, hexprs, hdone, hfails⟩ :=
    Session.of_run_evaluateAll_error (Session.of_run_tooDeep hrun)
  obtain ⟨fresh, hfresh⟩ := (Session.grows_evaluateReporting expr).globals hfails
  have hkept := (Session.grows_run _).globals hrun
  have hfed : console.feed line =
      (.ok "", { console with
        session := { after with log := .limitExceeded console.recursionLimit :: after.log } }) := by
    rw [feed, h]
  exact {
    unanswered := by rw [answerTo, h]
    fed := by rw [hfed]
    pending := by rw [hfed]; exact hpending
    store := by rw [hfed]
    bound := ⟨done, expr, later, values, mid, fresh, hexprs, hdone, hfails, hfresh⟩
    kept := hkept }

theorem runFile_whole {text : List Char} (hreturn : '\r' ∉ text) {session after final : Session}
    {values last : List Value}
    (hlines : (Session.feedAll (linesBy isNewline text)).run session = (.ok values, after))
    (hflush : Session.flush.run after = (.ok last, final)) :
    (Session.runFile (.whole text)).run session = (.ok (some (values ++ last)), final) := by
  have hsame : linesBy Text.isFileLineEnd text = linesBy isNewline text :=
    Text.linesFrom_isFileLineEnd hreturn []
  rw [Session.runFile, Session.runText, hsame, run_bind, run_bind, hlines]
  dsimp only
  rw [run_bind, hflush]
  rfl

/-- What the console writes for a text, up to the first line that quits, and which session it
leaves. A line whose evaluation goes too deep is dropped, with its answer but not with what it has
bound. If no line fails, the answers are the results of the lines, and the session is theirs; a
file of these lines has the same results and comes to the same session, but then it also runs what
is still pending, which may give more results and put more bindings in front. -/
theorem converse_like_file (settings : Settings) (console : Console) (text : List Char) :
    (∃ part, console.TakesUpTo settings text part) ∧
    ∀ part, console.TakesUpTo settings text part →
      let lines := linesBy isNewline part
      (console.AtEach Survives lines → console.converse settings text =
        (.ok (console.transcript settings lines), console.hearing lines)) ∧
      console.AtEach (fun console line => ∀ after,
        (Session.feed line).run console.session = (.error .tooDeep, after) →
          console.Recovers line after) lines ∧
      ∀ values after, (Session.feedAll lines).run console.session = (.ok values, after) →
        console.converse settings text =
          (.ok (console.transcript settings lines), { console with session := after }) ∧
        String.join (console.answers lines) = resultText values ∧
        (settings.prompt = "" → settings.continuationPrompt = "" →
          console.transcript settings lines = resultText values) ∧
        ('\r' ∉ text → ∀ last final, Session.flush.run after = (.ok last, final) →
          (Session.runFile (.whole part)).run console.session =
            (.ok (some (values ++ last)), final) ∧
          (∃ fresh, final.globals = fresh ++ after.globals) ∧
          (after.pending = [] → last = [] ∧ final = after)) := by
  refine ⟨exists_takesUpTo settings console text, fun part hpart => ?_⟩
  refine ⟨hpart.converse_eq, fun _ _ _ _ _ => recovers, fun values after hlines => ?_⟩
  obtain ⟨hsurvives, hhearing, hanswers⟩ := hearing_of_feedAll hlines
  refine ⟨?_, hanswers, ?_, ?_⟩
  · rw [hpart.converse_eq hsurvives, hhearing]
  · intro hfirst hnext
    rw [transcript_of_silent hfirst hnext, hanswers]
  · intro hreturn last final hflush
    refine ⟨runFile_whole (fun hmem => hreturn (hpart.mem hmem)) hlines hflush, ?_, ?_⟩
    · exact Session.globals_flush hflush
    · intro hnone
      rw [Session.run_flush, hnone] at hflush
      cases hflush
      exact ⟨rfl, rfl⟩

def silent : Settings := ⟨"", "", "exit", "INFO", .ok none⟩

def prompting : Settings := { silent with prompt := "> ", continuationPrompt := ". " }

def shallow : Console := ⟨Session.start 20, 20⟩

def exitInList : List Char := "'(a\nexit\n b)\n".toList

/-- A function without an end is called after a binding on the same line. -/
def runaway : List Char := "(define f (n)\n(f n))\n(set a 1) (f 1)\na".toList

theorem converse_like_file_runaway :
    (∃ after, shallow.converse silent (exitInList ++ " exit \n5".toList) =
        (.ok "(a exit b)\n", { shallow with session := after }) ∧
      (Session.runFile (.whole exitInList)).run shallow.session =
        (.ok (some [.ofList [.symbol "a", .symbol "exit", .symbol "b"] .nil]), after)) ∧
    (shallow.converse prompting runaway).1 = .ok "> . f\n> > 1\n> " ∧
    ∃ after, (shallow.hearing ["(define f (n)".toList, "(f n))".toList]).Recovers
      "(set a 1) (f 1)".toList after := by
  refine ⟨?_, ?_⟩
  · have hpart : shallow.TakesUpTo silent (exitInList ++ " exit \n5".toList) exitInList :=
      ⟨by decide +kernel, .inr ⟨" exit ".toList, " exit \n5".toList, rfl,
        by decide +kernel, by decide +kernel, by decide +kernel⟩⟩
    have hvalues : ((Session.feedAll (linesBy isNewline exitInList)).run shallow.session).1 =
        .ok [.ofList [.symbol "a", .symbol "exit", .symbol "b"] .nil] := by
      decide +kernel
    have hnone : ((Session.feedAll (linesBy isNewline exitInList)).run
        shallow.session).2.pending = [] := by
      decide +kernel
    have hanswer : resultText [.ofList [.symbol "a", .symbol "exit", .symbol "b"] .nil] =
        "(a exit b)\n" := by
      decide +kernel
    rcases hlines : (Session.feedAll (linesBy isNewline exitInList)).run shallow.session with
      ⟨result, after⟩
    rw [hlines] at hvalues hnone
    obtain rfl : result = _ := hvalues
    obtain ⟨hconverse, -, hsilent, hfile⟩ :=
      ((converse_like_file silent shallow _).2 _ hpart).2.2 _ after hlines
    have hflush := Session.run_flush after
    rw [hnone] at hflush
    rw [hsilent rfl rfl, hanswer] at hconverse
    exact ⟨after, hconverse, (hfile (by decide +kernel) [] after hflush).1⟩
  · have hwhole : shallow.TakesUpTo prompting runaway runaway := ⟨by decide +kernel, .inl rfl⟩
    obtain ⟨hruns, hrecovers, -⟩ := (converse_like_file prompting shallow runaway).2 _ hwhole
    have hwritten : shallow.transcript prompting (linesBy isNewline runaway) =
        "> . f\n> > 1\n> " := by
      decide +kernel
    have hcut : linesBy isNewline runaway =
        ["(define f (n)".toList, "(f n))".toList] ++ "(set a 1) (f 1)".toList ::
          ["a".toList] := by
      decide +kernel
    have hfails : ((Session.feed "(set a 1) (f 1)".toList).run
        (shallow.hearing ["(define f (n)".toList, "(f n))".toList]).session).1 =
        .error .tooDeep := by
      decide +kernel
    rcases hline : (Session.feed "(set a 1) (f 1)".toList).run
      (shallow.hearing ["(define f (n)".toList, "(f n))".toList]).session with ⟨result, after⟩
    rw [hline] at hfails
    obtain rfl : result = _ := hfails
    refine ⟨?_, after, hrecovers _ _ _ hcut after hline⟩
    rw [hruns (by decide +kernel), hwritten]

def openList : List Char := "(set x 1) (".toList

/-- Only the file runs what is pending at the end, so the global frames may differ. -/
theorem flush_binds :
    (usual 10000).TakesUpTo silent openList openList ∧ '\r' ∉ openList ∧
    ((usual 10000).converse silent openList).1 = .ok "" ∧
    ((usual 10000).converse silent openList).2.session.globals = [] ∧
    ((Session.runFile (.whole openList)).run (usual 10000).session).1 =
      .ok (some [.long 1, Sentinel.unterminatedList.value]) ∧
    ((Session.runFile (.whole openList)).run (usual 10000).session).2.globals =
      [("x", .long 1)] := by
  refine ⟨⟨by decide +kernel, .inl rfl⟩, ?_⟩
  decide +kernel

end Console

end Lisplet
