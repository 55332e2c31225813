import Lisplet.Text.DecimalDigit

/-!
Arguments of the command. Options may stand before or after the file, long ones may be cut short
as long as one option is meant, short ones may share a dash, and an operand may be attached. A
separator makes plain arguments of all that follow it. Attached as an operand it stands for none.
-/

set_option autoImplicit false

namespace Lisplet

def separatorText : String := "--"

inductive Switch where
  | help
  | verbose
  | version
  deriving DecidableEq, Repr

inductive Operand where
  /-- No option of the group takes one. -/
  | none
  /-- The last option takes the argument that follows. -/
  | next
  | attached (text : String)
  deriving DecidableEq

inductive Argument where
  | plain (text : String)
  | separator
  /-- Switches, and then the expression option if there is an operand for it. -/
  | options (switches : List Switch) (operand : Operand)
  /-- No option at all, though it looks like one. -/
  | unknown
  /-- A switch with an operand attached, or with letters that are no options. -/
  | overfull
  /-- More than one option may be meant. -/
  | ambiguous
  deriving DecidableEq

inductive Expression where
  | text (text : String)
  /-- The option was given, but only a separator for its operand. -/
  | missing
  deriving DecidableEq

structure Invocation where
  expr : Option Expression
  file : Option String
  verbose : Bool
  deriving DecidableEq

inductive Task where
  | evaluate (expr : Expression)
  | runFile (name : String)
  | converse
  deriving DecidableEq

/-- An expression goes before a file, and a file before the console. -/
def Invocation.task (invocation : Invocation) : Task :=
  match invocation.expr, invocation.file with
  | some expr, _ => .evaluate expr
  | none, some name => .runFile name
  | none, none => .converse

inductive Request where
  | usageError
  | help
  | version
  | run (invocation : Invocation)
  deriving DecidableEq

namespace Argument

inductive Named where
  | switch (switch : Switch)
  | expression
  deriving DecidableEq

def longNames : List (List Char × Named) :=
  [("--help".toList, .switch .help), ("--eval".toList, .expression),
   ("--verbose".toList, .switch .verbose), ("--version".toList, .switch .version)]

def Named.ofLetter? : Char → Option Named
  | 'h' => some (.switch .help)
  | 'e' => some .expression
  | 'v' => some (.switch .verbose)
  | _ => none

def withOperand (operand : List Char) : Named → Argument
  | .expression => .options [] (.attached (String.ofList operand))
  | .switch _ => .overfull

def alone : Named → Argument
  | .expression => .options [] .next
  | .switch switch => .options [switch] .none

def expression (switches : List Switch) (rest operand : List Char) : Argument :=
  if rest.isEmpty then .options switches .next
  else .options switches (.attached (String.ofList operand))

/-- The letters that follow switches behind one dash. All that follows the letter of the
expression option is its operand. -/
def group (switches : List Switch) : List Char → Argument
  | [] => .options switches .none
  | c :: rest =>
    match Named.ofLetter? c with
    | some (.switch switch) => group (switches ++ [switch]) rest
    | some .expression => expression switches rest rest
    | none => .overfull

def withoutEquals : List Char → List Char
  | '=' :: rest => rest
  | rest => rest

/-- An argument of one dash and at least one letter, unless its letter names no option. An equals
sign right behind this letter is left out, but a switch needs letters behind the sign. -/
def short? (letter : Char) (rest : List Char) : Option Argument :=
  match Named.ofLetter? letter with
  | some (.switch switch) =>
    if rest == ['='] then some .overfull else some (group [switch] (withoutEquals rest))
  | some .expression => some (expression [] rest (withoutEquals rest))
  | none => none

def meant (name : List Char) : List Named :=
  match longNames.lookup name with
  | some named => [named]
  | none => (longNames.filter fun entry => name.isPrefixOf entry.1).map Prod.snd

/-- An argument of two dashes, unless its name is the beginning of no option. -/
def long? (text : List Char) : Option Argument :=
  let name := text.takeWhile (· != '=')
  match meant name with
  | [] => none
  | [named] =>
    match text.dropWhile (· != '=') with
    | _ :: operand => some (withOperand operand named)
    | [] => some (alone named)
  | _ => some .ambiguous

/-- Digits with at most one point before the last of them. A newline may follow. -/
def isDecimal (body : List Char) : Bool :=
  let body := if body.getLast? == some '\n' then body.dropLast else body
  let whole := body.takeWhile Text.isDecimalDigit
  match body.dropWhile Text.isDecimalDigit with
  | [] => !whole.isEmpty
  | '.' :: fraction => !fraction.isEmpty && fraction.all Text.isDecimalDigit
  | _ => false

/-- What starts with a dash and is no option is still plain when it is a dash alone, a number or
a text with a space. -/
def ofText (text : String) : Argument :=
  match text.toList with
  | '-' :: letter :: rest =>
    match if letter == '-' then long? text.toList else short? letter rest with
    | some argument => argument
    | none =>
      if isDecimal (letter :: rest) || text.toList.contains ' ' then .plain text else .unknown
  | _ => .plain text

def ofTexts : List String → List Argument
  | [] => []
  | text :: rest =>
    if text == separatorText then .separator :: rest.map .plain else ofText text :: ofTexts rest

end Argument

namespace Invocation

structure Progress where
  invocation : Invocation
  awaitsFile : Bool
  surplus : Bool

def Progress.start : Progress := ⟨⟨none, none, false⟩, true, false⟩

def Progress.withFile (p : Progress) (file : String) : Progress :=
  { p with invocation := { p.invocation with file := some file }, awaitsFile := false }

def Progress.withExpr (p : Progress) (operand : String) : Progress :=
  let expr := if operand == separatorText then .missing else .text operand
  { p with invocation := { p.invocation with expr := some expr } }

def Progress.switch (p : Progress) : List Switch → Except Request Progress
  | [] => .ok p
  | .help :: _ => .error .help
  | .version :: _ => .error .version
  | .verbose :: rest =>
    switch { p with invocation := { p.invocation with verbose := true } } rest

/-- Takes the arguments in order. The file takes along a separator right before or after it. -/
def Progress.take (p : Progress) : List Argument → Request
  | [] => if p.surplus then .usageError else .run p.invocation
  | .plain text :: .separator :: rest =>
    if p.awaitsFile then (p.withFile text).take rest
    else Progress.take { p with surplus := true } rest
  | .plain text :: rest =>
    if p.awaitsFile then (p.withFile text).take rest
    else Progress.take { p with surplus := true } rest
  | .separator :: rest =>
    if p.awaitsFile then p.take rest else Progress.take { p with surplus := true } rest
  | .unknown :: rest => Progress.take { p with surplus := true } rest
  | .overfull :: _ | .ambiguous :: _ => .usageError
  | .options switches .next :: .plain text :: rest =>
    match p.switch switches with
    | .ok p => (p.withExpr text).take rest
    | .error request => request
  | .options _ .next :: _ => .usageError
  | .options switches operand :: rest =>
    match p.switch switches with
    | .ok p =>
      match operand with
      | .attached text => (p.withExpr text).take rest
      | _ => p.take rest
    | .error request => request

end Invocation

/-- What a list of arguments asks for. An argument that may mean several options is refused
before any is taken. -/
def Request.ofArguments (texts : List String) : Request :=
  let arguments := Argument.ofTexts texts
  if arguments.contains .ambiguous then .usageError
  else Invocation.Progress.start.take arguments

end Lisplet
