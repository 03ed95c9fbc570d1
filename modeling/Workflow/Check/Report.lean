import Workflow.Graph.Cycle

/-!
# Checking a workflow

A workflow can run when it is not empty, has a start node, and no cycle can be reached from
its nodes. Everything else that looks wrong is worth a warning only.
-/

namespace Workflow

/-- Why a workflow cannot run. -/
inductive Defect
  | empty
  | noStart
  /-- A cycle, by the labels of its nodes. -/
  | loop (labels : List String)
  deriving DecidableEq, Repr

def Defect.message : Defect → String
  | .empty => "Workflow is empty. Add at least a Start and End node."
  | .noStart => "Workflow must have at least one Start node"
  | .loop labels => "Infinite loop detected: " ++ " → ".intercalate labels

/-- What looks wrong in a workflow that may run, mostly by the label of the node
concerned. -/
inductive Warning
  | noFinish
  | startLeadsNowhere (label : String)
  | finishUnreached (label : String)
  | isolated (label : String)
  | noIncoming (label : String)
  | noOutgoing (label : String)
  | badPayload (label : String)
  deriving DecidableEq, Repr

def Warning.message : Warning → String
  | .noFinish => "Workflow has no End node. Execution will stop after the last connected node."
  | .startLeadsNowhere label => s!"Start node \"{label}\" has no outgoing connections"
  | .finishUnreached label => s!"End node \"{label}\" has no incoming connections"
  | .isolated label => s!"Node \"{label}\" is not connected to the workflow"
  | .noIncoming label => s!"Node \"{label}\" has no incoming connections"
  | .noOutgoing label => s!"Node \"{label}\" has no outgoing connections"
  | .badPayload label => s!"Start node \"{label}\" has invalid payload configuration"

/-- What a check of a workflow finds. -/
structure Report where
  defects : List Defect
  warnings : List Warning
  deriving DecidableEq, Repr

def Report.valid (r : Report) : Bool := r.defects.isEmpty

/-- The label shown for an identity: that of the last node that has it, unless it is
empty. -/
def shownLabel (nodes : List Node) (id : String) : String :=
  match nodes.reverse.find? (·.id = id) with
  | some n => if n.label = "" then id else n.label
  | none => id

def hasOutgoing (edges : List Edge) (n : Node) : Bool := edges.any (·.source = n.id)

def hasIncoming (edges : List Edge) (n : Node) : Bool := edges.any (·.target = n.id)

/-- The warning about the edges at a node that is neither a start nor an end. -/
def innerWarning? (edges : List Edge) (n : Node) : Option Warning :=
  match hasIncoming edges n, hasOutgoing edges n with
  | false, false => some (.isolated n.label)
  | false, true => some (.noIncoming n.label)
  | true, false => some (.noOutgoing n.label)
  | true, true => none

def hasPayload (n : Node) : Bool :=
  match n.config with
  | some (.start (.record _)) => true
  | _ => false

def nodesOf (kind : NodeKind) (nodes : List Node) : List Node := nodes.filter (·.kind = kind)

def innerNodes (nodes : List Node) : List Node :=
  nodes.filter fun n => n.kind ≠ .start ∧ n.kind ≠ .finish

/-- Everything that keeps a workflow with nodes from running. -/
def findDefects (nodes : List Node) (edges : List Edge) : List Defect :=
  (if nodesOf .start nodes = [] then [.noStart] else []) ++
  match findCycle (nodes.map (·.id)) edges with
  | some cycle => [.loop (cycle.map (shownLabel nodes))]
  | none => []

/-- Everything that looks wrong in a workflow with nodes. -/
def findWarnings (nodes : List Node) (edges : List Edge) : List Warning :=
  (if nodesOf .finish nodes = [] then [.noFinish] else []) ++
  ((nodesOf .start nodes).filter (!hasOutgoing edges ·)).map (.startLeadsNowhere ·.label) ++
  ((nodesOf .finish nodes).filter (!hasIncoming edges ·)).map (.finishUnreached ·.label) ++
  (innerNodes nodes).filterMap (innerWarning? edges) ++
  ((nodesOf .start nodes).filter (!hasPayload ·)).map (.badPayload ·.label)

def checkWorkflow (nodes : List Node) (edges : List Edge) : Report :=
  if nodes = [] then ⟨[.empty], []⟩ else ⟨findDefects nodes edges, findWarnings nodes edges⟩

end Workflow
