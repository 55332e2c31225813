import Lisplet.CommandLine

/-!
The program: gives the command its arguments, the environment, files and the console.
-/

set_option autoImplicit false

namespace Lisplet.Program

/-- How deep the machine lets evaluations nest where the settings ask for nothing. -/
def recursionLimit : Int := 10000

def environment : IO Environment := do
  let settings ← Settings.variableNames.mapM fun name => return (name, ← IO.getEnv name)
  return fun name => (settings.lookup name).join

def faultOf : IO.Error → FileFault
  | .noFileOrDirectory _ _ _ => .missing
  | .permissionDenied _ _ _ => .forbidden
  | .inappropriateType _ _ "Is a directory" => .directory
  | .inappropriateType _ _ _ => .notDirectory
  | .invalidArgument _ _ "name too long" => .nameTooLong
  | error => .other (toString error)

def read (file : String) : IO (Except FileFault FileText) := do
  try
    let bytes ← IO.FS.readBinFile file
    return .ok (.ofBytes bytes.toList)
  catch error => return .error (faultOf error)

def stop (fault : CommandFault) : IO UInt32 := do
  IO.eprintln ("tlisp: " ++ fault.message)
  return 1

def finish (report : Except CommandFault Report) : IO UInt32 := do
  match report with
  | .error fault => stop fault
  | .ok report =>
    IO.print report.output
    IO.eprint report.errors
    return report.exitCode.toUInt32

def writeLog (job : Job) (before after : Session) : IO Unit :=
  let entries := after.log.take (after.log.length - before.log.length)
  IO.eprint (logText job.threshold entries.reverse)

partial def converse (job : Job) (console : Console) : IO UInt32 := do
  let output ← IO.getStdout
  output.putStr (console.prompt job.settings)
  output.flush
  let line ← (← IO.getStdin).getLine
  if line.isEmpty then return 0
  let (answer, next) := console.answer job.settings line.toList
  writeLog job console.session next.session
  match answer with
  | .ok .quit => return 0
  | .ok (.output text) =>
    output.putStr text
    converse job next
  | .error failure => stop (.program failure)

def perform (job : Job) : IO UInt32 := do
  match job.invocation.task with
  | .evaluate _ => finish (job.perform (fun _ => .error .missing) [])
  | .runFile name =>
    let content ← read name
    finish (job.perform (fun _ => content) [])
  | .converse =>
    IO.eprint (job.logText job.console.session)
    IO.print job.greeting
    converse job job.console

def run (arguments : List String) : IO UInt32 := do
  match Request.ofArguments arguments with
  | .usageError =>
    IO.eprint CommandLine.usageText
    return 2
  | .help =>
    IO.print CommandLine.helpText
    return 0
  | .version =>
    IO.print CommandLine.versionText
    return 0
  | .run invocation =>
    match Job.ofInvocation recursionLimit (← environment) invocation with
    | .error fault => stop (.settings fault)
    | .ok job => perform job

end Lisplet.Program

def main (arguments : List String) : IO UInt32 := Lisplet.Program.run arguments
