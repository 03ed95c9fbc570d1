import Workflow.Execution.Packet
import Workflow.Node.Config
import Workflow.Number.Arithmetic
import Workflow.Text.Case
import Workflow.Value.Coercion

/-!
# Transforms

A transform changes one field of the packet that passes through it. Text operations act on a
text alone and arithmetic on a number alone; any other field is left as it is. Replacement
writes the operand whatever the field held.
-/

namespace Workflow

namespace Operation

/-- The new value of a field, or nothing when the operation leaves it. -/
def newValue? (operation : Operation) (current : Option Value) (operand : Value) :
    Except Fault (Option Value) :=
  match operation, current with
  | .replace, _ => .ok (some operand)
  | .uppercase, some (.text s) => .ok (some (.text (Text.upper s)))
  | .lowercase, some (.text s) => .ok (some (.text (Text.lower s)))
  | .append, some (.text s) => do return some (.text (s ++ (← operand.asOperandText)))
  | .prepend, some (.text s) => do return some (.text ((← operand.asOperandText) ++ s))
  | .multiply, some (.number n) => do return some (.number (← n.mul (← operand.operandOr 1)))
  | .add, some (.number n) => do return some (.number (← n.add (← operand.operandOr 0)))
  | _, _ => .ok none

end Operation

/-- The packet after a transform with the given settings. -/
def applyTransform (operation field operand : Value) (input : Packet) :
    Except Fault Packet := do
  let key ← Key.ofValue field
  match Operation.ofValue? operation with
  | none => .error (.unknownOperation (← operation.toText))
  | some known =>
    match ← known.newValue? (input.get? key) operand with
    | none => return input
    | some v => return input.set key v

end Workflow
