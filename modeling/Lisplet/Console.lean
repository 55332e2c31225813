import Lisplet.Session
import Lisplet.Settings

/-!
The console: a session that prompts for lines and writes the results of each. It ends with the
input, or with the exit command on a line of its own while no line is pending.
-/

set_option autoImplicit false

namespace Lisplet

structure Console where
  session : Session
  recursionLimit : Int
  deriving DecidableEq

inductive Reply where
  | quit
  | output (text : String)
  deriving DecidableEq

namespace Console

/-- How deep evaluations nest under a recursion limit, as far as the machine's stack allows. -/
def nesting (recursionLimit : Int) : Nat := min recursionLimit.toNat 100000

def usual (machineLimit : Int) : Console := ⟨Session.start (nesting machineLimit), machineLimit⟩

/-- A fresh session. A limit above that of the machine is reported, and a lower one changes
nothing. -/
def start (machineLimit : Int) (limit : Option Int) : Except SettingsFault Console :=
  match limit with
  | none => .ok (usual machineLimit)
  | some n =>
    if Settings.maxRecursionLimit < n then .error (.limitTooGreat n)
    else if machineLimit < n then
      .ok ⟨{ Session.start (nesting n) with log := [.raisingLimit n] }, n⟩
    else .ok (usual machineLimit)

def prompt (settings : Settings) (console : Console) : String :=
  if console.session.pending.isEmpty then settings.prompt else settings.continuationPrompt

def resultText (values : List Value) : String :=
  String.join (values.map fun v => v.print ++ "\n")

def isExit (settings : Settings) (console : Console) (line : List Char) : Bool :=
  console.session.pending.isEmpty && Text.trim line == settings.exitCommand.toList

/-- Feeds a line to the session. Evaluation that goes too deep is reported and forgotten; any
other failure ends the console. -/
def feed (console : Console) (line : List Char) : Except Failure String × Console :=
  match (Session.feed line).run console.session with
  | (.ok values, session) => (.ok (resultText values), { console with session })
  | (.error .tooDeep, session) =>
    let log := .limitExceeded console.recursionLimit :: session.log
    (.ok "", { console with session := { session with log } })
  | (.error failure, session) => (.error failure, { console with session })

def answer (settings : Settings) (console : Console) (line : List Char) :
    Except Failure Reply × Console :=
  if console.isExit settings line then (.ok .quit, console)
  else
    match console.feed line with
    | (.ok text, next) => (.ok (.output text), next)
    | (.error failure, next) => (.error failure, next)

def transcribe (settings : Settings) (written : String) (console : Console) :
    List (List Char) → Except Failure String × Console
  | [] => (.ok (written ++ console.prompt settings), console)
  | line :: rest =>
    let written := written ++ console.prompt settings
    match console.answer settings line with
    | (.ok .quit, next) => (.ok written, next)
    | (.ok (.output text), next) => transcribe settings (written ++ text) next rest
    | (.error failure, next) => (.error failure, next)

def converse (settings : Settings) (console : Console) (input : List Char) :
    Except Failure String × Console :=
  transcribe settings "" console (Text.linesBy Text.isNewline input)

end Console

end Lisplet
