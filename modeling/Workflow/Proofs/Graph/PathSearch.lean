import Workflow.Proofs.Graph.Walk

/-!
# How long the search for a path takes

The search may put a node on its stack several times, once for each edge to it, and strikes
it off only when it takes it. So neither the stack nor the set of visited nodes alone says
how far it has come. What does is the number of edges still open and of nodes on the stack
together: a node that is visited moves its edges at most from the one to the other, and every
turn takes a node off (`openEdges_cons_add`). Hence the search takes at most one turn more
than there are edges (`searchWithin_eq`).

The headline is `wouldCreateCycle_iff_reaches`: the search ends whatever the edges, and what
it answers is whether there is a path.
-/

namespace Workflow

/-- The search broken off after a number of turns, each of which takes one node off the
stack. It gives nothing when it is not over by then. -/
def searchWithin (edges : List Edge) (goal : String) :
    Nat → List String → List String → Option Bool
  | _, _, [] => some false
  | 0, _, _ :: _ => none
  | turns + 1, visited, id :: stack =>
    if id = goal then some true
    else if id ∈ visited then searchWithin edges goal turns visited stack
    else
      let next := (successors edges id).filter (· ∉ id :: visited)
      searchWithin edges goal turns (id :: visited) (next.reverse ++ stack)

theorem openEdges_edge_cons (e : Edge) (edges : List Edge) (visited : List String) :
    openEdges (e :: edges) visited
      = if e.source ∈ visited then openEdges edges visited else e :: openEdges edges visited := by
  by_cases hseen : e.source ∈ visited <;> simp [openEdges, hseen]

theorem successors_edge_cons (e : Edge) (edges : List Edge) (id : String) :
    successors (e :: edges) id
      = if e.source = id then e.target :: successors edges id else successors edges id := by
  by_cases hsource : e.source = id <;> simp [successors, hsource]

theorem openEdges_cons_add {visited : List String} {id : String} (hfresh : id ∉ visited)
    (edges : List Edge) :
    (openEdges edges (id :: visited)).length + (successors edges id).length
      = (openEdges edges visited).length := by
  induction edges with
  | nil => rfl
  | cons e edges ih =>
      rw [openEdges_edge_cons, openEdges_edge_cons, successors_edge_cons]
      by_cases hsource : e.source = id
      · subst hsource
        simp [hfresh]
        omega
      · by_cases hseen : e.source ∈ visited
        · simpa [hsource, hseen] using ih
        · simp [hsource, hseen]
          omega

/-- Broken off no earlier than after its open edges and its stack, the search is over. -/
theorem searchWithin_eq {edges : List Edge} {goal : String} {turns : Nat}
    {visited stack : List String}
    (henough : (openEdges edges visited).length + stack.length ≤ turns) :
    searchWithin edges goal turns visited stack = some (searchFrom edges goal visited stack) := by
  induction turns generalizing visited stack with
  | zero =>
      cases stack with
      | nil => simp [searchWithin, searchFrom]
      | cons id stack => simp at henough
  | succ turns ih =>
      cases stack with
      | nil => simp [searchWithin, searchFrom]
      | cons id stack =>
          rw [searchWithin, searchFrom]
          simp only [List.length_cons] at henough
          by_cases hgoal : id = goal
          · rw [if_pos hgoal, if_pos hgoal]
          · rw [if_neg hgoal, if_neg hgoal]
            by_cases hseen : id ∈ visited
            · rw [if_pos hseen, if_pos hseen]
              exact ih (by omega)
            · rw [if_neg hseen, if_neg hseen]
              refine ih ?_
              have hclosed := openEdges_cons_add hseen edges
              have hpushed := List.length_filter_le (· ∉ id :: visited) (successors edges id)
              simp only [List.length_append, List.length_reverse]
              omega

/-- **The search for a path ends and is exact.** Whatever the edges, cycles, loops and
repetitions included, it is over after at most one turn more than there are edges, and it
finds that an edge would close a cycle if and only if zero or more edges lead back from its
target to its source. -/
theorem wouldCreateCycle_iff_reaches (source target : String) (edges : List Edge) :
    (∀ turns, edges.length < turns →
        searchWithin edges source turns [] [target] = some (wouldCreateCycle source target edges))
      ∧ (wouldCreateCycle source target edges = true ↔ Reaches edges target source) := by
  refine ⟨?_, searchFrom_singleton⟩
  intro turns hturns
  refine searchWithin_eq ?_
  have hopen : (openEdges edges []).length ≤ edges.length := List.length_filter_le _ _
  simp only [List.length_singleton]
  omega

/-- The last turn can be needed: an edge that is there three times is followed three
times. -/
example :
    let edge : Edge := ⟨"e", "a", "b", .null, .null, .null, true⟩
    searchWithin [edge, edge, edge] "z" 3 [] ["a"] = none
      ∧ searchWithin [edge, edge, edge] "z" 4 [] ["a"] = some false := by
  decide

end Workflow
