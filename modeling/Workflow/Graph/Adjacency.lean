import Workflow.Document

/-!
# Adjacency

Which nodes follow a node: the targets of its edges, in the order of the edges and once for
each of them.
-/

namespace Workflow

def successors (edges : List Edge) (id : String) : List String :=
  (edges.filter (·.source = id)).map (·.target)

/-- The members of a list without repetitions, each at its first place. -/
def distinct (ids : List String) : List String :=
  ids.foldl (fun seen id => if id ∈ seen then seen else seen ++ [id]) []

/-- The successors of every node: the given nodes first, then further sources of edges. -/
def adjacency (edges : List Edge) (ids : List String) : List (String × List String) :=
  (distinct (ids ++ edges.map (·.source))).map fun id => (id, successors edges id)

/-- The edges whose source is still open under a set of visited nodes. -/
def openEdges (edges : List Edge) (visited : List String) : List Edge :=
  edges.filter fun e => e.source ∉ visited

theorem openEdges_cons_le (edges : List Edge) (visited : List String) (id : String) :
    (openEdges edges (id :: visited)).length ≤ (openEdges edges visited).length := by
  unfold openEdges
  refine (List.Sublist.length_le ?_)
  have : edges.filter (fun e => decide (e.source ∉ id :: visited)) =
      (edges.filter fun e => decide (e.source ∉ visited)).filter
        fun e => decide (e.source ≠ id) := by
    rw [List.filter_filter]
    congr 1
    funext e
    simp [List.mem_cons, not_or]
  rw [this]
  exact List.filter_sublist

theorem openEdges_cons_lt {edges : List Edge} {visited : List String} {id : String}
    (fresh : id ∉ visited) (leads : successors edges id ≠ []) :
    (openEdges edges (id :: visited)).length < (openEdges edges visited).length := by
  obtain ⟨e, he, rfl⟩ : ∃ e ∈ edges, e.source = id := by
    unfold successors at leads
    cases h : edges.filter (·.source = id) with
    | nil => simp [h] at leads
    | cons e es =>
      have : e ∈ edges.filter (·.source = id) := by rw [h]; exact List.mem_cons_self
      simp only [List.mem_filter, decide_eq_true_eq] at this
      exact ⟨e, this.1, this.2⟩
  unfold openEdges
  have split : edges.filter (fun x => decide (x.source ∉ e.source :: visited)) =
      (edges.filter fun x => decide (x.source ∉ visited)).filter
        fun x => decide (x.source ≠ e.source) := by
    rw [List.filter_filter]
    congr 1
    funext x
    simp [List.mem_cons, not_or]
  rw [split]
  have mem : e ∈ edges.filter fun x => decide (x.source ∉ visited) := by simp [he, fresh]
  exact List.length_filter_lt_length_iff_exists.mpr ⟨e, mem, by simp⟩

end Workflow
