/-!
# Kinds of nodes

The four kinds of nodes a workflow is made of, and what is shown of each.
-/

namespace Workflow

/-- What a node does in a workflow. -/
inductive NodeKind
  | start
  | transform
  | condition
  | finish
  deriving DecidableEq, Repr

namespace NodeKind

/-- Every kind, in the order in which they are offered. -/
def all : List NodeKind := [.start, .transform, .condition, .finish]

def name : NodeKind → String
  | .start => "start"
  | .transform => "transform"
  | .condition => "condition"
  | .finish => "end"

def ofName? (name : String) : Option NodeKind := all.find? (·.name = name)

/-- The label a node of the kind has until it is renamed. -/
def label : NodeKind → String
  | .start => "Start"
  | .transform => "Transform"
  | .condition => "If-Else"
  | .finish => "End"

def description : NodeKind → String
  | .start => "Begin workflow with payload"
  | .transform => "Modify data fields"
  | .condition => "Conditional branching"
  | .finish => "Terminate workflow"

def configName : NodeKind → String
  | .start => "StartConfig"
  | .transform => "TransformConfig"
  | .condition => "ConditionConfig"
  | .finish => "EndConfig"

theorem ofName?_name (kind : NodeKind) : ofName? kind.name = some kind := by
  cases kind <;> decide

end NodeKind
end Workflow
