import Workflow.Graph.Adjacency

/-!
# Finding a cycle

A depth-first search from every node in turn. A node is active while the search is below it;
an edge to an active node closes a cycle, which is read off the record of the node from which
each node was entered.
-/

namespace Workflow
namespace Cycle

/-- A node below which the search is, with the successors it has still to try. -/
abbrev Frame := String × List String

/-- From which node each node was entered; a later entry hides an earlier one. -/
abbrev Parents := List (String × String)

structure Knowledge where
  visited : List String
  active : List String
  parents : Parents
  deriving DecidableEq, Repr

def Knowledge.empty : Knowledge := ⟨[], [], []⟩

def Knowledge.enter (k : Knowledge) (parent id : String) : Knowledge :=
  ⟨id :: k.visited, id :: k.active, (id, parent) :: k.parents⟩

def Knowledge.enterRoot (k : Knowledge) (id : String) : Knowledge :=
  ⟨id :: k.visited, id :: k.active, k.parents⟩

def Knowledge.leave (k : Knowledge) (id : String) : Knowledge :=
  { k with active := k.active.filter (· ≠ id) }

/-- The work left on the stack: each frame and twice each successor to try. -/
def stackWork : List Frame → Nat
  | [] => 0
  | (_, rest) :: stack => 2 * rest.length + 1 + stackWork stack

/-- Searches on with a stack of frames, innermost first. The result is the node at which a
cycle closes, if one does, and what is known then. -/
def search (edges : List Edge) (k : Knowledge) : List Frame → Option String × Knowledge
  | [] => (none, k)
  | (id, []) :: stack => search edges (k.leave id) stack
  | (id, next :: rest) :: stack =>
    if next ∈ k.active then (some next, { k with parents := (next, id) :: k.parents })
    else if next ∈ k.visited then search edges k ((id, rest) :: stack)
    else search edges (k.enter id next) ((next, successors edges next) :: (id, rest) :: stack)
termination_by stack => ((openEdges edges k.visited).length, stackWork stack)
decreasing_by
  · exact Prod.Lex.right _ (by simp [stackWork])
  · exact Prod.Lex.right _ (by simp [stackWork])
  · rename_i hv
    by_cases h : successors edges next = []
    · rw [Prod.lex_def]
      have := openEdges_cons_le edges k.visited next
      simp only [Knowledge.enter, h, stackWork, List.length_cons, List.length_nil]
      omega
    · exact Prod.Lex.left _ _ (openEdges_cons_lt hv h)

def visit (edges : List Edge) (k : Knowledge) (root : String) : Option String × Knowledge :=
  search edges (k.enterRoot root) [(root, successors edges root)]

/-- Searches below each of the nodes in turn until a cycle closes. -/
def visitAll (edges : List Edge) (k : Knowledge) : List String → Option String × Knowledge
  | [] => (none, k)
  | id :: ids =>
    if id ∈ k.visited then visitAll edges k ids
    else
      match visit edges k id with
      | (some start, k) => (some start, k)
      | (none, k) => visitAll edges k ids

/-- The nodes from a node upwards to the start of the cycle, which ends the list; `fuel`
bounds its length. -/
def chase (parents : Parents) (start : String) : Nat → String → List String
  | 0, _ => []
  | fuel + 1, id =>
    if id = start then []
    else
      match parents.lookup id with
      | some parent => id :: chase parents start fuel parent
      | none => [id]

/-- The cycle through its start, which stands at both ends, in the direction of the edges. -/
def pathOf (parents : Parents) (start : String) : List String :=
  let inner := match parents.lookup start with
    | some parent => chase parents start (parents.length + 1) parent
    | none => []
  (start :: inner ++ [start]).reverse

end Cycle

/-- A cycle that can be reached from the nodes, if there is one. It starts and ends with the
same node. -/
def findCycle (ids : List String) (edges : List Edge) : Option (List String) :=
  match Cycle.visitAll edges .empty ids with
  | (some start, k) => some (Cycle.pathOf k.parents start)
  | (none, _) => none

end Workflow
