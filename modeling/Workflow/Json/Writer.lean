import Workflow.Number.Text
import Workflow.Value.Basic

/-!
# Writing JSON

A value is written on one line or indented by two places for each level. Only the quote, the
backslash and control characters are escaped.
-/

namespace Workflow.Json

open Text

/-- How floating-point numbers are written in documents. -/
def documentFloats : FloatFormat :=
  { Number.shown with nanText := "NaN", infinityText := "Infinity" }

/-- The two ways to lay out a document. -/
inductive Layout
  | oneLine
  | indented
  deriving DecidableEq, Repr

/-- What stands behind an opening and before a closing bracket at a depth. -/
def Layout.edge : Layout → Nat → List Char
  | .oneLine, _ => []
  | .indented, depth => '\n' :: List.replicate (2 * depth) ' '

def Layout.between : Layout → Nat → List Char
  | .oneLine, _ => [',', ' ']
  | .indented, depth => ',' :: Layout.indented.edge depth

def escape (c : Char) : List Char :=
  if c = '"' then ['\\', '"']
  else if c = '\\' then ['\\', '\\']
  else if c = '\n' then ['\\', 'n']
  else if c = '\r' then ['\\', 'r']
  else if c = '\t' then ['\\', 't']
  else if c = '\x08' then ['\\', 'b']
  else if c = '\x0c' then ['\\', 'f']
  else if c.toNat < 32 then '\\' :: 'u' :: hexDigits 4 c.toNat
  else [c]

def writeText (s : String) : List Char := '"' :: s.toList.flatMap escape ++ ['"']

def writeNumber (n : Number) : Except Fault (List Char) := do
  return (← n.textIn documentFloats).toList

mutual

def writeValue (layout : Layout) (depth : Nat) : Value → Except Fault (List Char)
  | .null => .ok ['n', 'u', 'l', 'l']
  | .bool true => .ok ['t', 'r', 'u', 'e']
  | .bool false => .ok ['f', 'a', 'l', 's', 'e']
  | .number n => writeNumber n
  | .text s => .ok (writeText s)
  | .list [] => .ok ['[', ']']
  | .list (v :: vs) => do
    let first ← writeValue layout (depth + 1) v
    let rest ← writeItems layout (depth + 1) vs
    return '[' :: layout.edge (depth + 1) ++ first ++ rest ++ layout.edge depth ++ [']']
  | .record [] => .ok ['\x7b', '\x7d']
  | .record ((name, v) :: fields) => do
    let first ← writeValue layout (depth + 1) v
    let rest ← writeFields layout (depth + 1) fields
    return '\x7b' :: layout.edge (depth + 1) ++ writeText name ++ ':' :: ' ' :: first ++ rest ++
      layout.edge depth ++ ['\x7d']

def writeItems (layout : Layout) (depth : Nat) : List Value → Except Fault (List Char)
  | [] => .ok []
  | v :: vs => do
    let first ← writeValue layout depth v
    let rest ← writeItems layout depth vs
    return layout.between depth ++ first ++ rest

def writeFields (layout : Layout) (depth : Nat) :
    List (String × Value) → Except Fault (List Char)
  | [] => .ok []
  | (name, v) :: fields => do
    let first ← writeValue layout depth v
    let rest ← writeFields layout depth fields
    return layout.between depth ++ writeText name ++ ':' :: ' ' :: first ++ rest

end

def write (layout : Layout) (v : Value) : Except Fault String := do
  return String.ofList (← writeValue layout 0 v)

end Workflow.Json
