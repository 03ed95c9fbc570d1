import Workflow.Binary64.Decimal
import Workflow.Number.Basic

/-!
# Numbers as text

Integers are written with all their digits, up to the digit limit. Floating-point numbers are
written with the fewest digits that read back, positionally from `0.0001` up to sixteen
digits before the point.
-/

namespace Workflow.Number

def shown : FloatFormat where
  leastPositional := -4
  positionalEnd := 16
  exponentWidth := 2
  nanText := "nan"
  infinityText := "inf"

def intChars (n : Int) : List Char :=
  FloatFormat.signText (n < 0) ++ Text.decimalDigits n.natAbs

/-- The text of an integer, if it has not too many digits. -/
def intText (n : Int) : Except Fault String :=
  if Text.decimalWidth n.natAbs ≤ digitLimit then .ok (String.ofList (intChars n))
  else .error (.tooManyDigits none)

def textIn (format : FloatFormat) : Number → Except Fault String
  | .int n => intText n
  | .float x => .ok (format.text x)

def text : Number → Except Fault String := textIn shown

end Workflow.Number
