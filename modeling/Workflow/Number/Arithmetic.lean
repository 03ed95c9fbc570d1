import Workflow.Number.Basic

/-!
# Arithmetic

Two integers give an exact integer. As soon as one operand is a floating-point number both
are taken as such, and an integer too large for the format is a fault.
-/

namespace Workflow.Number

/-- The exact result for two integers and the floating-point one for all other operands. -/
def combine (exact : Int → Int → Int) (rounded : Binary64 → Binary64 → Binary64) :
    Number → Number → Except Fault Number
  | .int m, .int n => .ok (.int (exact m n))
  | a, b => do
    let x ← a.toBinary64
    let y ← b.toBinary64
    return .float (rounded x y)

def add : Number → Number → Except Fault Number := combine (· + ·) Binary64.add

def mul : Number → Number → Except Fault Number := combine (· * ·) Binary64.mul

/-- Whether a number is a whole multiple of a divisor that is not zero. -/
def isMultipleOf : Number → Number → Except Fault Bool
  | .int m, .int n => .ok (m % n == 0)
  | a, b => do
    let x ← a.toBinary64
    let y ← b.toBinary64
    return x.isMultipleOf y

end Workflow.Number
