import Workflow.Binary64.Basic
import Workflow.Text.Digit

/-!
# Decimals and floating-point numbers

A decimal is a signed whole number times a power of ten. Reading one gives the nearest number
of the format. Writing goes back: the decimal with the fewest digits that reads as the
number, and of those the nearest to it.
-/

namespace Workflow

open Text

/-- `± coefficient · 10 ^ exponent`. -/
structure Decimal where
  negative : Bool
  coefficient : Nat
  exponent : Int
  deriving DecidableEq, Repr

namespace Decimal

/-- The exponent of the leading digit, for a coefficient that is not zero. -/
def leadingExponent (d : Decimal) : Int := d.exponent + decimalWidth d.coefficient - 1

/-- Beyond this exponent of the leading digit every decimal reads as infinity, and below its
negative every decimal reads as zero. -/
def exponentBound : Int := 400

def toBinary64 (d : Decimal) : Binary64 :=
  if d.coefficient = 0 || d.leadingExponent < -exponentBound then Binary64.zero d.negative
  else if exponentBound < d.leadingExponent then .infinite d.negative
  else if 0 ≤ d.exponent then
    Binary64.ofRatio d.negative (d.coefficient * Nat.pow 10 d.exponent.toNat * quantaPerUnit) 1
  else
    Binary64.ofRatio d.negative (d.coefficient * quantaPerUnit) (Nat.pow 10 (-d.exponent).toNat)

/-- The same decimal without zeros at the end of its coefficient; `fuel` bounds their
number. -/
def dropZeros : Nat → Decimal → Decimal
  | 0, d => d
  | fuel + 1, d =>
    if d.coefficient ≠ 0 ∧ d.coefficient % 10 = 0 then
      dropZeros fuel ⟨d.negative, d.coefficient / 10, d.exponent + 1⟩
    else d

end Decimal

namespace Binary64

/-- The exponent of the leading decimal digit of a number of quanta that is not zero. -/
def leadingExponent (quanta : Nat) : Int :=
  if quantaPerUnit ≤ quanta then (decimalWidth (quanta / quantaPerUnit) : Int) - 1
  else
    let width := decimalWidth (quantaPerUnit / quanta)
    if quantaPerUnit ≤ quanta * Nat.pow 10 (width - 1) then -((width : Int) - 1) else -(width : Int)

/-- `quanta` in units of `10 ^ exponent`, as a quotient of whole numbers. -/
def inTens (quanta : Nat) (exponent : Int) : Nat × Nat :=
  if 0 ≤ exponent then (quanta, quantaPerUnit * Nat.pow 10 exponent.toNat)
  else (quanta * Nat.pow 10 (-exponent).toNat, quantaPerUnit)

/-- The decimals of `digits` digits next to the number, below and above, the nearer one
first; of two equally near the one with the even last digit comes first. -/
def neighbours (negative : Bool) (quanta : Nat) (lead : Int) (digits : Nat) : List Decimal :=
  let exponent := lead + 1 - digits
  let (num, den) := inTens quanta exponent
  let q := num / den
  let below : Decimal := ⟨negative, q, exponent⟩
  let above : Decimal := ⟨negative, q + 1, exponent⟩
  if roundQuotient num den = q then [below, above] else [above, below]

def exactDecimal (negative : Bool) (quanta : Nat) : Decimal :=
  ⟨negative, quanta * Nat.pow 5 1074, -1074⟩

/-- The first decimal that reads as the number, by increasing number of digits up to `fuel`
more than `digits`; all digits if there is none. -/
def shortestFrom (negative : Bool) (quanta : Nat) (lead : Int) : Nat → Nat → Decimal
  | 0, _ => exactDecimal negative quanta
  | fuel + 1, digits =>
    match (neighbours negative quanta lead digits).find? fun d =>
        d.toBinary64 = ofQuanta negative quanta with
    | some d => d
    | none => shortestFrom negative quanta lead fuel (digits + 1)

/-- The shortest decimal that reads as the finite number. -/
def shortest (negative : Bool) (quanta : Nat) : Decimal :=
  if quanta = 0 then ⟨negative, 0, 0⟩
  else
    let d := shortestFrom negative quanta (leadingExponent quanta) 17 1
    d.dropZeros (decimalWidth d.coefficient)

end Binary64

/-- How a floating-point number is written: positionally while the exponent of its leading
digit lies in a range, else with a power of ten. -/
structure FloatFormat where
  /-- The least exponent of a leading digit that is written positionally. -/
  leastPositional : Int
  /-- The first exponent of a leading digit too large to be written positionally. -/
  positionalEnd : Int
  /-- The least number of digits of a written exponent. -/
  exponentWidth : Nat
  nanText : String
  infinityText : String

namespace FloatFormat

def signText (negative : Bool) : List Char := if negative then ['-'] else []

/-- Digits with the point after the first `intDigits` of them; each side has at least one. -/
def positional (digits : List Char) (intDigits : Int) : List Char :=
  if intDigits ≤ 0 then
    '0' :: '.' :: (List.replicate (-intDigits).toNat '0' ++ digits)
  else
    let n := intDigits.toNat
    let whole := digits.take n ++ List.replicate (n - digits.length) '0'
    match digits.drop n with
    | [] => whole ++ ['.', '0']
    | fraction => whole ++ '.' :: fraction

/-- Digits with the point after the first one and a power of ten. -/
def scientific (width : Nat) (digits : List Char) (lead : Int) : List Char :=
  let mantissa :=
    match digits with
    | [] => []
    | [d] => [d]
    | d :: rest => d :: '.' :: rest
  mantissa ++ 'e' :: (if lead < 0 then '-' else '+') ::
    padLeft width '0' (decimalDigits lead.natAbs)

def text (format : FloatFormat) : Binary64 → String
  | .nan _ => format.nanText
  | .infinite negative => String.ofList (signText negative) ++ format.infinityText
  | .finite negative quanta _ =>
    let d := Binary64.shortest negative quanta
    let digits := decimalDigits d.coefficient
    let lead := d.leadingExponent
    String.ofList <| signText negative ++
      if format.leastPositional ≤ lead ∧ lead < format.positionalEnd then
        positional digits (lead + 1)
      else scientific format.exponentWidth digits lead

end FloatFormat
end Workflow
