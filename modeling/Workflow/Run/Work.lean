import Workflow.Check.Report
import Workflow.Graph.Basic
import Workflow.Run.Executor

/-!
# What a run has to do

A run follows the edges of its workflow from every start node. A piece of work is a node with
the packet that reaches it and the nodes already passed on the way there.
-/

namespace Workflow

/-- A node that has to be executed on a packet. -/
structure Work where
  node : Node
  input : Packet
  visited : List String
  deriving DecidableEq, Repr

/-- Whether the node was passed before on the way to it. -/
def Work.revisits (w : Work) : Bool := w.node.id ∈ w.visited

namespace Graph

/-- The node of an identity, the last one if several have it. -/
def node? (g : Graph) (id : String) : Option Node := g.nodes.reverse.find? (·.id = id)

def starts (g : Graph) : List Node := nodesOf .start g.nodes

def report (g : Graph) : Report := checkWorkflow g.nodes g.edges

def handle (g : Graph) (source target : String) : Value :=
  match g.edges.find? fun e => e.source = source ∧ e.target = target with
  | some e => e.sourceHandle
  | none => .null

/-- Whether a branch with the handle is taken after a condition with the result. Only the
handles for true and false restrict it. -/
def admits (handle : Value) (met : Bool) : Bool :=
  if handle = .text "true" then met
  else if handle = .text "false" then !met
  else true

def goesOn (g : Graph) (n : Node) (target : String) (met : Bool) : Bool :=
  n.kind ≠ .condition || admits (g.handle n.id target) met

def next? (g : Graph) (w : Work) (o : Outcome) (target : String) : Option Work :=
  match g.node? target with
  | some n =>
    if g.goesOn w.node target o.conditionMet then some ⟨n, o.output, w.node.id :: w.visited⟩
    else none
  | none => none

/-- The work that follows a node: none after an error or for a node passed before, else that
of its successors in order. -/
def followers (g : Graph) (w : Work) (o : Outcome) : List Work :=
  if o.status = .error ∨ w.revisits then []
  else (successors g.edges w.node.id).filterMap (g.next? w o)

def seed (n : Node) : Work where
  node := n
  input := match n.config with
    | some (.start (.record r)) => .ofRecord r
    | _ => []
  visited := []

end Graph
end Workflow
