import Workflow.Graph.Adjacency

/-!
# Search for a path

Before an edge is drawn, a search from its target looks for its source: if it is found, the
edge would close a cycle. The search keeps a stack of nodes still to look at and skips those
it has seen.
-/

namespace Workflow

/-- Whether the search meets the goal, given the nodes seen and the nodes still to look
at. -/
def searchFrom (edges : List Edge) (goal : String) (visited : List String) :
    List String → Bool
  | [] => false
  | id :: stack =>
    if id = goal then true
    else if id ∈ visited then searchFrom edges goal visited stack
    else
      let next := (successors edges id).filter (· ∉ id :: visited)
      searchFrom edges goal (id :: visited) (next.reverse ++ stack)
termination_by stack => ((openEdges edges visited).length, stack.length)
decreasing_by
  · exact Prod.Lex.right _ (by simp)
  · rename_i hv
    by_cases h : successors edges id = []
    · rw [Prod.lex_def]
      have := openEdges_cons_le edges visited id
      simp only [h, List.filter_nil, List.reverse_nil, List.nil_append, List.length_cons]
      omega
    · exact Prod.Lex.left _ _ (openEdges_cons_lt hv h)

/-- Whether an edge from the source to the target would close a cycle with the given
edges. -/
def wouldCreateCycle (source target : String) (edges : List Edge) : Bool :=
  searchFrom edges source [] [target]

end Workflow
