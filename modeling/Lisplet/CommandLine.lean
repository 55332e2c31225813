import Lisplet.CommandLine.Arguments
import Lisplet.Console

/-!
The command: evaluates an expression, runs a file or opens the console, as its arguments ask and
its settings allow.
-/

set_option autoImplicit false

namespace Lisplet

inductive FileFault where
  | missing
  | directory
  | notDirectory
  | forbidden
  | nameTooLong
  | other (reason : String)
  deriving DecidableEq

def FileFault.reason : FileFault → String
  | .missing => "No such file or directory"
  | .directory => "Is a directory"
  | .notDirectory => "Not a directory"
  | .forbidden => "Permission denied"
  | .nameTooLong => "File name too long"
  | .other reason => reason

inductive CommandFault where
  | settings (fault : SettingsFault)
  | program (failure : Failure)
  /-- The expression option came without an expression. -/
  | noExpression
  /-- A null character stands in the file's name. -/
  | nullInName
  /-- The file's bytes are no text. -/
  | notText
  deriving DecidableEq

def CommandFault.message : CommandFault → String
  | .settings fault => fault.message
  | .program failure => failure.message
  | .noExpression => "no expression to evaluate"
  | .nullInName => "a file name holds a null character"
  | .notText => "the file is not encoded as text"

structure Report where
  exitCode : Nat
  output : String
  errors : String
  deriving DecidableEq

structure Job where
  invocation : Invocation
  settings : Settings
  threshold : LogLevel
  console : Console

namespace Job

/-- The log comes first among the settings, then the recursion limit. -/
def ofInvocation (machineLimit : Int) (environment : Environment) (invocation : Invocation) :
    Except SettingsFault Job := do
  let settings := Settings.ofEnvironment environment
  let threshold ← if invocation.verbose then .ok .debug else settings.threshold
  let limit ← settings.recursionLimit
  let console ← Console.start machineLimit limit
  return ⟨invocation, settings, threshold, console⟩

def logText (job : Job) (session : Session) : String :=
  Lisplet.logText job.threshold session.log.reverse

def greeting (job : Job) : String :=
  "Type s-expressions to evaluate, '" ++ job.settings.exitCommand ++ "' to quit.\n"

def evaluate (job : Job) (expr : String) : Except CommandFault Report :=
  match (Session.eval expr.toList).run job.console.session with
  | (.ok value, session) => .ok ⟨0, value.print ++ "\n", job.logText session⟩
  | (.error failure, _) => .error (.program failure)

def runFile (job : Job) (file : String) (content : Except FileFault FileText) :
    Except CommandFault Report :=
  match content with
  | .error fault =>
    .ok ⟨1, "", job.logText job.console.session ++
      "tlisp: cannot read " ++ file ++ ": " ++ fault.reason ++ "\n"⟩
  | .ok text =>
    match (Session.runFile text).run job.console.session with
    | (.ok (some values), session) => .ok ⟨0, Console.resultText values, job.logText session⟩
    | (.ok none, _) => .error .notText
    | (.error failure, _) => .error (.program failure)

def converse (job : Job) (input : List Char) : Except CommandFault Report :=
  match job.console.converse job.settings input with
  | (.ok text, console) => .ok ⟨0, job.greeting ++ text, job.logText console.session⟩
  | (.error failure, _) => .error (.program failure)

def perform (job : Job) (read : String → Except FileFault FileText) (input : List Char) :
    Except CommandFault Report :=
  match job.invocation.task with
  | .evaluate (.text expr) => job.evaluate expr
  | .evaluate .missing => .error .noExpression
  | .runFile name =>
    if name.toList.contains '\x00' then .error .nullInName else job.runFile name (read name)
  | .converse => job.converse input

end Job

namespace CommandLine

def versionText : String := "tlisp 0.1.0\n"

def usageText : String := "usage: tlisp [-h] [-e EXPR] [-v] [--version] [file]\n"

def helpText : String :=
  usageText ++ String.join
  ["\n",
   "A small Lisp: reader, printer and tree-walking evaluator\n",
   "\n",
   "positional arguments:\n",
   "  file                  source file to run\n",
   "\n",
   "options:\n",
   "  -h, --help            show this help message and exit\n",
   "  -e EXPR, --eval EXPR  evaluate EXPR and print the result\n",
   "  -v, --verbose         debug logging\n",
   "  --version             show program's version number and exit\n",
   "\n",
   "Examples:\n",
   "  tlisp                           # Interactive mode, 'exit' to quit\n",
   "  tlisp program.lisp              # Run a source file\n",
   "  tlisp -e \"(add 2 3)\"            # Evaluate one expression\n",
   "        \n"]

inductive Outcome where
  | usageError
  | help
  | version
  | ended (report : Report)
  | stopped (fault : CommandFault)
  deriving DecidableEq

def run (machineLimit : Int) (environment : Environment)
    (read : String → Except FileFault FileText) (input : List Char) (arguments : List String) :
    Outcome :=
  match Request.ofArguments arguments with
  | .usageError => .usageError
  | .help => .help
  | .version => .version
  | .run invocation =>
    match Job.ofInvocation machineLimit environment invocation with
    | .error fault => .stopped (.settings fault)
    | .ok job =>
      match job.perform read input with
      | .ok report => .ended report
      | .error fault => .stopped fault

end CommandLine

end Lisplet
