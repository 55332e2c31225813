import Lisplet.Reader
import Lisplet.Value.Printer

/-!
The log: what a session reports about itself, in levels of urgency. A threshold decides which
entries are shown.
-/

set_option autoImplicit false

namespace Lisplet

inductive LogLevel where
  | notSet
  | debug
  | info
  | warning
  | error
  | critical
  deriving DecidableEq, Repr

def LogLevel.urgency : LogLevel → Nat
  | .notSet => 0
  | .debug => 10
  | .info => 20
  | .warning => 30
  | .error => 40
  | .critical => 50

def LogLevel.name : LogLevel → String
  | .notSet => "NOTSET"
  | .debug => "DEBUG"
  | .info => "INFO"
  | .warning => "WARNING"
  | .error => "ERROR"
  | .critical => "CRITICAL"

def LogLevel.ofName? : String → Option LogLevel
  | "NOTSET" => some .notSet
  | "DEBUG" => some .debug
  | "INFO" => some .info
  | "WARNING" | "WARN" => some .warning
  | "ERROR" => some .error
  | "CRITICAL" | "FATAL" => some .critical
  | _ => none

theorem LogLevel.ofName?_name (level : LogLevel) : ofName? level.name = some level := by
  cases level <;> rfl

inductive LogEntry where
  | evaluating (expr : Value)
  | readFailed (sentinel : Sentinel) (position : Nat)
  | gaveSentinel (expr result : Value)
  | raisingLimit (limit : Int)
  | limitExceeded (limit : Int)
  deriving DecidableEq

namespace LogEntry

def level : LogEntry → LogLevel
  | .evaluating _ | .raisingLimit _ => .debug
  | .readFailed _ _ | .gaveSentinel _ _ => .info
  | .limitExceeded _ => .error

def message : LogEntry → String
  | .evaluating expr => "eval " ++ expr.print
  | .readFailed sentinel position =>
    "read failed: " ++ (ReadFault.malformed sentinel position).message
  | .gaveSentinel expr result => expr.print ++ " evaluated to " ++ result.print
  | .raisingLimit limit => "raising recursion limit to " ++ toString limit
  | .limitExceeded limit =>
    "evaluation exceeded the recursion limit (" ++ toString limit ++ ")"

def line (entry : LogEntry) : String :=
  entry.level.name ++ " tlisp.interpreter: " ++ entry.message ++ "\n"

end LogEntry

def logText (threshold : LogLevel) (entries : List LogEntry) : String :=
  let shown := entries.filter fun entry => threshold.urgency ≤ entry.level.urgency
  String.join (shown.map LogEntry.line)

end Lisplet
