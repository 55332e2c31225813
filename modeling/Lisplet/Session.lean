import Lisplet.CodeScan
import Lisplet.Evaluation
import Lisplet.FileText
import Lisplet.Log
import Lisplet.Script

/-!
Sessions. A session works in one global frame and is fed lines: it keeps them until the
parentheses outside strings balance, and then reads and evaluates what it has kept.
-/

set_option autoImplicit false

namespace Lisplet

structure Session where
  store : Store
  /-- The lines that wait for more, oldest first, without their comments. -/
  pending : List (List Char)
  /-- How deep evaluations may nest. -/
  limit : Nat
  /-- What was reported, newest first. -/
  log : List LogEntry
  deriving DecidableEq

abbrev SessionM := Computation Session

namespace Session

def start (limit : Nat) : Session := ⟨.withGlobal, [], limit, []⟩

def globals (session : Session) : List (String × Value) :=
  session.store.bindings Store.globalFrame

def report (entry : LogEntry) : SessionM Unit :=
  modify fun session => { session with log := entry :: session.log }

def evaluateGlobal (expr : Value) : SessionM Value := fun session =>
  let (result, store) := (evaluate session.limit expr Store.globalFrame).run session.store
  (result, { session with store })

def evaluateReporting (expr : Value) : SessionM Value := do
  report (.evaluating expr)
  let value ← evaluateGlobal expr
  if value.isSentinel then report (.gaveSentinel expr value)
  return value

def evaluateAll : List Value → SessionM (List Value)
  | [] => return []
  | expr :: rest => do
    let value ← evaluateReporting expr
    let values ← evaluateAll rest
    return value :: values

def finish : Option ReadFault → SessionM (List Value)
  | none => return []
  | some (.malformed sentinel position) => do
    report (.readFailed sentinel position)
    return [sentinel.value]
  | some (.numeral fault) => throw (.numeral fault)

def run (text : List Char) : SessionM (List Value) := do
  let script := Script.ofText text
  let values ← evaluateAll script.values
  let last ← finish script.fault
  return values ++ last

def eval (text : List Char) : SessionM Value := do
  let lines := (Text.linesBy Text.isLineEnd text).map stripComment
  let values ← run (Text.joinLines lines)
  return values.getLast?.getD .nil

/-- Takes one line of input, and runs what is pending once its parentheses balance. -/
def feed (line : List Char) : SessionM (List Value) := do
  let session ← get
  let lines := session.pending ++ [stripComment (Text.dropNewlines line)]
  let text := Text.joinLines lines
  if Text.isBlankText text then
    set { session with pending := [] }
    return []
  else if 0 < parenDepth text then
    set { session with pending := lines }
    return []
  else
    set { session with pending := [] }
    run text

/-- Runs what is pending, however its parentheses stand. -/
def flush : SessionM (List Value) := do
  let session ← get
  if session.pending.isEmpty then return []
  else
    set { session with pending := [] }
    run (Text.joinLines session.pending)

def feedAll : List (List Char) → SessionM (List Value)
  | [] => return []
  | line :: rest => do
    let values ← feed line
    let more ← feedAll rest
    return values ++ more

/-- Takes a text line by line, as a file has them, and then what is still pending. -/
def runText (text : List Char) : SessionM (List Value) := do
  let values ← feedAll (Text.linesBy Text.isFileLineEnd text)
  let last ← flush
  return values ++ last

/-- Takes a file line by line. One with a fault gives no results, but its complete lines are
taken first, so a failure in them comes before the fault. -/
def runFile : FileText → SessionM (Option (List Value))
  | .whole text => do return some (← runText text)
  | .faulty lines => do
    let _ ← feedAll (Text.linesBy Text.isFileLineEnd lines)
    return none

end Session

end Lisplet
