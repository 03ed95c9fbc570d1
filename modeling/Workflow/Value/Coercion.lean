import Workflow.Number.Literal
import Workflow.Value.Text

/-!
# Operands

A value of any shape can stand where a number, a text or a truth value is wanted. As a number
a text is read when it is a whole literal and undefined otherwise; as a text a number with an
integer value has no point; as a truth value only null, false, zero, the undefined number and
the empty text are false.
-/

namespace Workflow

open Text

/-- The base a literal's letter after the zero announces. -/
def radixOf? : Char → Option Nat
  | 'x' | 'X' => some 16
  | 'o' | 'O' => some 8
  | 'b' | 'B' => some 2
  | _ => none

/-- Reads a literal in base sixteen, eight or two: a zero, the letter and at least one
digit. -/
def readRadixLiteral : List Char → Option Nat
  | '0' :: letter :: digit :: digits => do
    let base ← radixOf? letter
    let values ← (digit :: digits).mapM (radixDigit? base)
    return ofDigits base values
  | _ => none

def readInfinity (cs : List Char) : Option Binary64 :=
  if cs = "Infinity".toList || cs = "+Infinity".toList then some (.infinite false)
  else if cs = "-Infinity".toList then some (.infinite true)
  else none

/-- The number a text stands for: zero when it is blank, undefined when it is no literal. -/
def numberOfText (s : String) : Except Fault Number :=
  let cs := trimChars s.toList
  match readInfinity cs, readRadixLiteral cs, Number.readLiteral cs with
  | some x, _, _ => .ok (.float x)
  | none, some n, _ => .ok (.int n)
  | none, none, some (literal, true) => .ok (.float literal.toBinary64)
  | none, none, some (literal, false) =>
    return .int (← Number.ofDigits literal.negative literal.whole)
  | none, none, none => .ok (if cs.isEmpty then .int 0 else .undefined)

namespace Value

def asOperandNumber : Value → Except Fault Number
  | .null => .ok (.int 0)
  | .bool b => .ok (.int (if b then 1 else 0))
  | .number n => .ok n
  | .text s => numberOfText s
  | .list _ => .ok .undefined
  | .record _ => .ok .undefined

def asOperandText : Value → Except Fault String
  | .null => .ok ""
  | .bool b => .ok (if b then "true" else "false")
  | .number (.float x) =>
    match x.toInt? with
    | some n => Number.intText n
    | none => (Number.float x).text
  | v => v.toText

/-- The truth value a value stands for. An integer too large for the float format is a
fault. -/
def isTruthy : Value → Except Fault Bool
  | .null => .ok false
  | .bool b => .ok b
  | .text s => .ok (s != "")
  | .number n => if n.isZero then .ok false else do return !(← n.isNaN)
  | .list _ => .ok true
  | .record _ => .ok true

/-- The number an operand contributes, with a fallback for zero and the undefined number. -/
def operandOr (v : Value) (fallback : Int) : Except Fault Number := do
  let n ← v.asOperandNumber
  if ← n.isNaN then return .int fallback
  return if n.isZero then .int fallback else n

end Value
end Workflow
