import Workflow.Edge
import Workflow.Node.Basic

/-!
# Graphs

The nodes and edges of a workflow, each in order.
-/

namespace Workflow

/-- The nodes and edges of a workflow. -/
structure Graph where
  nodes : List Node
  edges : List Edge
  deriving DecidableEq, Repr

namespace Graph

def empty : Graph := ⟨[], []⟩

def findNode? (g : Graph) (id : String) : Option Node := g.nodes.find? (·.id = id)

def findEdge? (g : Graph) (id : String) : Option Edge := g.edges.find? (·.id = id)

def modifyFirst {α : Type} (test : α → Bool) (f : α → α) : List α → List α
  | [] => []
  | x :: xs => if test x then f x :: xs else x :: modifyFirst test f xs

def updateNode (g : Graph) (id : String) (f : Node → Node) : Graph :=
  { g with nodes := modifyFirst (·.id = id) f g.nodes }

/-- The graph without the nodes of these identities and the edges at them. -/
def removeNodes (g : Graph) (ids : List String) : Graph where
  nodes := g.nodes.filter (·.id ∉ ids)
  edges := g.edges.filter fun e => e.source ∉ ids ∧ e.target ∉ ids

def addNode (g : Graph) (n : Node) : Graph := { g with nodes := g.nodes ++ [n] }

def addEdge (g : Graph) (e : Edge) : Graph := { g with edges := g.edges ++ [e] }

def removeEdge (g : Graph) (id : String) : Graph :=
  { g with edges := g.edges.filter (·.id ≠ id) }

end Graph
end Workflow
