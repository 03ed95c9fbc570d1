import Workflow.Text.Span
import Workflow.Text.PrintableTable
import Workflow.Text.Digit

/-!
# Quoted text

How a text is shown inside a list or record: between single quotes, or between double quotes
when that saves escaping, with the backslash, the quote and every invisible character
escaped.
-/

namespace Workflow.Text

/-- Whether a character is shown as itself inside quotes. -/
def isVisible (c : Char) : Bool := !inSpans invisibleSpans c

/-- An invisible character by its code, in the shortest of the three escape forms. -/
def escapeCode (c : Char) : List Char :=
  if c.toNat < 0x100 then '\\' :: 'x' :: hexDigits 2 c.toNat
  else if c.toNat < 0x10000 then '\\' :: 'u' :: hexDigits 4 c.toNat
  else '\\' :: 'U' :: hexDigits 8 c.toNat

def quoteChar (quote c : Char) : List Char :=
  if c = quote || c = '\\' then ['\\', c]
  else if c = '\n' then ['\\', 'n']
  else if c = '\r' then ['\\', 'r']
  else if c = '\t' then ['\\', 't']
  else if isVisible c then [c]
  else escapeCode c

/-- The quote to use: double quotes for a text that holds a single quote and no double
one. -/
def quoteFor (cs : List Char) : Char :=
  if cs.contains '\'' && !cs.contains '"' then '"' else '\''

def quoted (s : String) : String :=
  let cs := s.toList
  let q := quoteFor cs
  String.ofList (q :: cs.flatMap (quoteChar q) ++ [q])

end Workflow.Text
