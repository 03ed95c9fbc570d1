import Workflow.Graph.Search

/-!
# Connecting two nodes

The rules a new edge must obey, in the order in which they are checked.
-/

namespace Workflow

/-- Why two nodes cannot be connected. -/
inductive Objection
  | selfLoop
  | duplicate
  | fromFinish
  | intoStart
  | cycle
  deriving DecidableEq, Repr

def Objection.message : Objection → String
  | .selfLoop => "Cannot connect a node to itself"
  | .duplicate => "Connection already exists"
  | .fromFinish => "End nodes cannot have outgoing connections"
  | .intoStart => "Start nodes cannot have incoming connections"
  | .cycle => "This connection would create an infinite loop"

/-- The first rule that an edge between the nodes breaks by its ends alone. -/
def endsObjection? (source target : Node) (edges : List Edge) : Option Objection :=
  if source.id = target.id then some .selfLoop
  else if edges.any fun e => e.source = source.id ∧ e.target = target.id then some .duplicate
  else if source.kind = .finish then some .fromFinish
  else if target.kind = .start then some .intoStart
  else none

/-- The first rule that an edge between the nodes breaks. -/
def objection? (source target : Node) (edges : List Edge) : Option Objection :=
  match endsObjection? source target edges with
  | some objection => some objection
  | none => if wouldCreateCycle source.id target.id edges then some .cycle else none

end Workflow
