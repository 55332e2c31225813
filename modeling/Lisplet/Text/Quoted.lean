import Lisplet.Text.Printable

/-!
Quoted texts, as messages and descriptions show them: between quote marks, with a backslash
escape for whatever does not show as itself.
-/

set_option autoImplicit false

namespace Lisplet.Text

def hexText (width n : Nat) : List Char :=
  let digits := Nat.toDigits 16 n
  List.replicate (width - digits.length) '0' ++ digits

def escapeCode (n : Nat) : List Char :=
  if n < 0x100 then '\\' :: 'x' :: hexText 2 n
  else if n < 0x10000 then '\\' :: 'u' :: hexText 4 n
  else '\\' :: 'U' :: hexText 8 n

def quoteChar (mark c : Char) : List Char :=
  if c == mark || c == '\\' then ['\\', c]
  else if c == '\n' then ['\\', 'n']
  else if c == '\t' then ['\\', 't']
  else if c == '\r' then ['\\', 'r']
  else if isPrintable c then [c]
  else escapeCode c.toNat

/-- Single marks enclose a text, unless it holds one and no double mark. -/
def quoteMark (text : List Char) : Char :=
  if text.contains '\'' && !text.contains '"' then '"' else '\''

def quoteText (text : List Char) : List Char :=
  let mark := quoteMark text
  mark :: (text.flatMap (quoteChar mark) ++ [mark])

def quoted (text : String) : String := String.ofList (quoteText text.toList)

example : quoted "it's" = "\"it's\"" := by decide +kernel
example : quoted "a\\b\n\x7f" = "'a\\\\b\\n\\x7f'" := by decide +kernel

end Lisplet.Text
