import Workflow.Execution.Condition
import Workflow.Node.Basic

/-!
# Executing one node

Every node answers every packet with an outcome. A fault is not passed on: it becomes an
error outcome that carries its wording.
-/

namespace Workflow

/-- How a step of a run ended. -/
inductive LogStatus
  | success
  | error
  | skipped
  deriving DecidableEq, Repr

def LogStatus.name : LogStatus → String
  | .success => "success"
  | .error => "error"
  | .skipped => "skipped"

/-- The key under which a condition leaves its result. -/
def conditionKey : Key := .text "_condition_met"

/-- What executing a node gives. -/
structure Outcome where
  output : Packet
  status : LogStatus
  message : String
  deriving DecidableEq, Repr

namespace Outcome

/-- Whether the packet says that the last condition held. -/
def conditionMet (o : Outcome) : Bool :=
  (Value.ofOption (o.output.get? conditionKey)).isFilled

/-- The outcome of a step that may fail, where `output` is kept on failure. -/
def ofResult (output : Packet) : Except Fault Outcome → Outcome
  | .ok outcome => outcome
  | .error fault => ⟨output, .error, fault.message⟩

/-- The text of the operand in the message of a condition. -/
def operandText (operand : Value) : Except Fault String := do
  if ← operand.isTruthy then operand.asOperandText else return ""

def conditionMessage (field operator operand : Value) (met : Bool) :
    Except Fault String := do
  let operandText ← operandText operand
  let field ← field.toText
  let operator ← operator.toText
  return s!"Condition {field} {operator} {operandText}: " ++ if met then "true" else "false"

end Outcome

def executeNode (n : Node) (input : Packet) : Outcome :=
  match n.config with
  | none => Outcome.ofResult input (.error (.missingConfig n.id))
  | some (.start payload) =>
    ⟨.ofRecord (payload.asRecord?.getD []), .success, "Started workflow execution"⟩
  | some (.transform operation field operand) =>
    Outcome.ofResult input do
      let output ← applyTransform operation field operand input
      let operation ← operation.toText
      let field ← field.toText
      return ⟨output, .success, s!"Applied {operation} to {field}"⟩
  | some (.condition field operator operand) =>
    match evaluateCondition field operator operand input with
    | .error fault => Outcome.ofResult input (.error fault)
    | .ok met =>
      let output := input.set conditionKey (.bool met)
      Outcome.ofResult output do
        let message ← Outcome.conditionMessage field operator operand met
        return ⟨output, .success, message⟩
  | some (.finish _) => ⟨input, .success, "Workflow execution completed"⟩

end Workflow
