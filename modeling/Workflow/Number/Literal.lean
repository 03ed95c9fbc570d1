import Workflow.Binary64.Decimal
import Workflow.Number.Basic
import Workflow.Text.Blank

/-!
# Number literals

A literal is an optional sign, a run of digits with an optional fraction, and an optional
exponent. Here are its parts, the numbers they stand for, and the readers of free-standing
numerals, which allow blanks around the literal, digits of any script, and single underscores
between digits.
-/

namespace Workflow

open Text

/-- The parts of a decimal literal as they are written. -/
structure Literal where
  negative : Bool
  whole : List Char
  fraction : List Char
  exponent : Int
  deriving DecidableEq, Repr

def Literal.toDecimal (l : Literal) : Decimal where
  negative := l.negative
  coefficient := ofDecimalDigits (l.whole ++ l.fraction)
  exponent := l.exponent - l.fraction.length

def Literal.toBinary64 (l : Literal) : Binary64 := l.toDecimal.toBinary64

namespace Number

/-- The integer of a sign and decimal digits, if there are not too many of them. -/
def ofDigits (negative : Bool) (digits : List Char) : Except Fault Int :=
  if digits.length ≤ digitLimit then .ok (Binary64.signed negative (ofDecimalDigits digits))
  else .error (.tooManyDigits (some digits.length))

def splitSign : List Char → Bool × List Char
  | '-' :: cs => (true, cs)
  | '+' :: cs => (false, cs)
  | cs => (false, cs)

/-- Reads an exponent: the letter `e`, an optional sign and at least one digit, to the
end. -/
def readExponent : List Char → Option Int
  | [] => some 0
  | e :: cs =>
    if e = 'e' || e = 'E' then
      let (negative, digits) := splitSign cs
      if !digits.isEmpty && digits.all Char.isDigit then
        some (Binary64.signed negative (ofDecimalDigits digits))
      else none
    else none

/-- Reads a whole decimal literal: digits with an optional point among or around them and an
optional exponent. The flag tells whether there is a point or an exponent. -/
def readLiteral (cs : List Char) : Option (Literal × Bool) :=
  let (negative, cs) := splitSign cs
  let whole := cs.takeWhile Char.isDigit
  match cs.dropWhile Char.isDigit with
  | '.' :: cs =>
    let fraction := cs.takeWhile Char.isDigit
    if whole.isEmpty && fraction.isEmpty then none
    else do
      let exponent ← readExponent (cs.dropWhile Char.isDigit)
      return (⟨negative, whole, fraction, exponent⟩, true)
  | cs =>
    if whole.isEmpty then none
    else do
      let exponent ← readExponent cs
      return (⟨negative, whole, [], exponent⟩, !cs.isEmpty)

/-- The blanks allowed around a free-standing numeral: all but the separator controls. -/
def isNumeralBlank (c : Char) : Bool := isBlank c && !(28 ≤ c.toNat && c.toNat ≤ 31)

/-- The characters of a free-standing numeral, without the blanks around it and with every
digit in ASCII. -/
def numeralChars (text : String) : List Char :=
  let cs := (text.toList.dropWhile isNumeralBlank).reverse.dropWhile isNumeralBlank
  cs.reverse.map fun c =>
    match digitValue? c with
    | some d => Char.ofNat (48 + d)
    | none => c

/-- Removes the underscores if each of them stands between two digits; `last` is the
character before. -/
def dropUnderscores : Char → List Char → Option (List Char)
  | _, [] => some []
  | last, '_' :: c :: cs =>
    if last.isDigit && c.isDigit then (dropUnderscores c cs).map (c :: ·) else none
  | _, ['_'] => none
  | _, c :: cs => (dropUnderscores c cs).map (c :: ·)

def readInt (text : String) : Except Fault Int :=
  let (negative, body) := splitSign (numeralChars text)
  let run := body.takeWhile fun c => c.isDigit || c = '_'
  match dropUnderscores ' ' run with
  | none => .error (.notAnInteger text)
  | some digits =>
    if digits.length > digitLimit then .error (.tooManyDigits (some digits.length))
    else if digits.isEmpty || run.length < body.length then .error (.notAnInteger text)
    else .ok (Binary64.signed negative (ofDecimalDigits digits))

/-- The words for the numbers without digits, in lower case. -/
def readFloatWord (negative : Bool) (word : String) : Option Binary64 :=
  if word = "inf" || word = "infinity" then some (.infinite negative)
  else if word = "nan" then some (.nan false)
  else none

def readFloat (text : String) : Except Fault Binary64 :=
  let cs := numeralChars text
  let (negative, body) := splitSign cs
  match readFloatWord negative (String.ofList (body.map Char.toLower)) with
  | some x => .ok x
  | none =>
    match (dropUnderscores ' ' cs).bind readLiteral with
    | some (literal, _) => .ok literal.toBinary64
    | none => .error (.notANumber text)

end Number
end Workflow
