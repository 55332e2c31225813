import Lisplet.Log
import Lisplet.Text.Blank
import Lisplet.Text.DecimalDigit
import Lisplet.Text.Quoted
import Lisplet.Text.Uppercase

/-!
Settings, from the variables of the environment. A variable that is not set leaves a default.
-/

set_option autoImplicit false

namespace Lisplet

abbrev Environment := String → Option String

inductive SettingsFault where
  | limitNotInteger (text : String)
  | limitTooGreat (limit : Int)
  | unknownLevel (name : String)
  deriving DecidableEq

def promptVariable : String := "TLISP_PROMPT"

def continuationPromptVariable : String := "TLISP_CONTINUATION_PROMPT"

def exitCommandVariable : String := "TLISP_EXIT_COMMAND"

def logLevelVariable : String := "TLISP_LOG_LEVEL"

def limitVariable : String := "TLISP_RECURSION_LIMIT"

def SettingsFault.message : SettingsFault → String
  | .limitNotInteger text =>
    limitVariable ++ " must be an integer, got " ++ Text.quoted text
  | .limitTooGreat limit => limitVariable ++ " is too great: " ++ toString limit
  | .unknownLevel name => "Unknown level: " ++ Text.quoted name

structure Settings where
  prompt : String
  continuationPrompt : String
  exitCommand : String
  logLevel : String
  recursionLimit : Except SettingsFault (Option Int)

namespace Settings

/-- The digits of an integer, where a single underscore may stand between two digits. The flag
tells whether a digit was just seen. -/
def integerDigits? : Bool → List Char → Option (List Nat)
  | afterDigit, [] => if afterDigit then some [] else none
  | afterDigit, c :: rest =>
    match Text.digitValue? c with
    | some d => (integerDigits? true rest).map (d :: ·)
    | none => if c == '_' && afterDigit then integerDigits? false rest else none

abbrev maxIntegerDigits : Nat := 4300

def integer? (text : List Char) : Option Int :=
  let (negative, body) : Bool × List Char :=
    match text with
    | '-' :: rest => (true, rest)
    | '+' :: rest => (false, rest)
    | _ => (false, text)
  match integerDigits? false body with
  | some digits =>
    if digits.length ≤ maxIntegerDigits then
      let magnitude : Int := Text.decimalNumber digits
      some (if negative then -magnitude else magnitude)
    else none
  | none => none

def recursionLimitOf (text : String) : Except SettingsFault (Option Int) :=
  let trimmed := Text.trim text.toList
  if trimmed.isEmpty then .ok none
  else
    match integer? trimmed with
    | some n => .ok (some n)
    | none => .error (.limitNotInteger (String.ofList trimmed))

def variableNames : List String :=
  [promptVariable, continuationPromptVariable, exitCommandVariable, logLevelVariable,
   limitVariable]

def ofEnvironment (environment : Environment) : Settings where
  prompt := (environment promptVariable).getD "> "
  continuationPrompt := (environment continuationPromptVariable).getD "... "
  exitCommand :=
    String.ofList (Text.trim ((environment exitCommandVariable).getD "exit").toList)
  logLevel :=
    String.ofList (Text.toCapitals ((environment logLevelVariable).getD "WARNING").toList)
  recursionLimit := recursionLimitOf ((environment limitVariable).getD "")

def threshold (settings : Settings) : Except SettingsFault LogLevel :=
  match LogLevel.ofName? settings.logLevel with
  | some level => .ok level
  | none => .error (.unknownLevel settings.logLevel)

abbrev maxRecursionLimit : Int := 2147483647

example : integer? "-0_7".toList = some (-7) := by decide +kernel
example : integer? "1__0".toList = none := by decide +kernel

end Settings

end Lisplet
