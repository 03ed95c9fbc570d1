import Workflow.Execution.Transform
import Workflow.Value.Equality

/-!
# Conditions

A condition tests one field of a packet against an operand. An absent field counts as null,
except that it has no place in the order of numbers.
-/

namespace Workflow

/-- Whether the second list of characters occurs in the first. -/
def occursIn (part : List Char) : List Char → Bool
  | [] => part.isEmpty
  | c :: cs => part.isPrefixOf (c :: cs) || occursIn part cs

namespace Operator

/-- Compares the numbers of a field and an operand. An absent field is the undefined
number. -/
def compare (test : Number → Number → Bool) (field : Option Value) (operand : Value) :
    Except Fault Bool := do
  let left ← match field with
    | some v => v.asOperandNumber
    | none => pure .undefined
  let right ← operand.asOperandNumber
  return test left right

/-- Whether a value is a number that is a whole multiple of the divisor. -/
def divides (divisor : Number) : Value → Except Fault Bool
  | .number n => n.isMultipleOf divisor
  | _ => .ok false

def holds (operator : Operator) (field : Option Value) (operand : Value) :
    Except Fault Bool :=
  let value := Value.ofOption field
  match operator with
  | .equals => .ok (value.strictEquals operand)
  | .notEquals => .ok (!value.strictEquals operand)
  | .contains => do
    let part ← operand.asOperandText
    let whole ← value.asOperandText
    return occursIn part.toList whole.toList
  | .isEmpty => do return !(← value.isTruthy)
  | .isNotEmpty => value.isTruthy
  | .isEven => divides (.int 2) value
  | .isOdd => do return value.isNumber && !(← divides (.int 2) value)
  | .isDivisibleBy => do
    let divisor ← operand.asOperandNumber
    if !value.isNumber || divisor.isZero then return false
    if ← divisor.isNaN then return false
    divides divisor value
  | .greaterThan => compare (fun a b => b.lt a) field operand
  | .lessThan => compare Number.lt field operand
  | .greaterThanOrEqual => compare (fun a b => b.le a) field operand
  | .lessThanOrEqual => compare Number.le field operand

end Operator

/-- Whether a packet passes a condition with the given settings. -/
def evaluateCondition (field operator operand : Value) (input : Packet) :
    Except Fault Bool := do
  let key ← Key.ofValue field
  match Operator.ofValue? operator with
  | some known => known.holds (input.get? key) operand
  | none => do
    operator.checkHashable
    .error (.unknownOperator (← operator.toText))

end Workflow
