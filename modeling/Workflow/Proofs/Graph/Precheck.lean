import Workflow.Graph.Connection
import Workflow.Proofs.Graph.Cycle

/-!
# Looking before an edge is drawn

Two searches decide on cycles. One looks for a path back before an edge is drawn, the other
for a closed walk among the edges that there are. They agree wherever they can be compared:
where the edges lead from nodes of a graph and close no walk so far, the first finds a path
exactly when the second, given the edge as well, finds a cycle.

A closed walk over the new edge can be cut there, and what is left leads from its target to
its source (`Acyclic.append`). Conversely such a path and the edge make a closed walk, and
the search for cycles begins at every node.
-/

namespace Workflow

/-- With a path back from its target to its source, an edge lies on a closed walk. -/
theorem onCycle_append {edges : List Edge} {e : Edge}
    (hback : Reaches edges e.target e.source) :
    OnCycle (edges ++ [e]) e.source := by
  have hedge : Leads (edges ++ [e]) e.source e.target := leads_append.mpr (Or.inr ⟨rfl, rfl⟩)
  have hold : ∀ a b, Leads edges a b → Leads (edges ++ [e]) a b :=
    fun _ _ => Leads.mono fun _ => List.mem_append_left _
  exact .head' hedge (Relation.ReflTransGen.mono hold _ _ hback)

/-- **The two searches agree.** Where all edges lead from nodes and close no walk, the search
for a path back decides whether a cycle is found once an edge from a node is drawn, also when
it leads back to this node at once. -/
theorem wouldCreateCycle_iff_findCycle {nodes : List Node} {edges : List Edge} {e : Edge}
    (hsources : ∀ f ∈ edges, f.source ∈ nodes.map (·.id))
    (hnone : findCycle (nodes.map (·.id)) edges = none)
    (hsource : e.source ∈ nodes.map (·.id)) :
    wouldCreateCycle e.source e.target edges = true
      ↔ (findCycle (nodes.map (·.id)) (edges ++ [e])).isSome = true := by
  have hacyclic : Acyclic edges := (findCycle_eq_none_iff_acyclic hsources).mp hnone
  have hall : ∀ f ∈ edges ++ [e], f.source ∈ nodes.map (·.id) := by
    intro f hf
    rcases List.mem_append.mp hf with hf | hf
    · exact hsources f hf
    · obtain rfl := List.mem_singleton.mp hf
      exact hsource
  rw [wouldCreateCycle, searchFrom_singleton, ← Option.ne_none_iff_isSome, Ne,
    findCycle_eq_none_iff_acyclic hall]
  constructor
  · exact fun hback hfree => hfree e.source (onCycle_append hback)
  · exact fun hclosed => Classical.byContradiction fun hback => hclosed (hacyclic.append hback)

/-- After an edge from one node to another, an edge back closes a cycle; a second one in the
same direction does not. -/
theorem wouldCreateCycle_iff_findCycle_of_two_nodes :
    let node (id : String) : Node := ⟨id, .transform, .origin, id, some (Config.initial .transform)⟩
    let edge (a b : String) : Edge := ⟨Edge.idBetween a b, a, b, .null, .null, .null, true⟩
    let nodes := [node "first", node "last"]
    let edges := [edge "first" "last"]
    (findCycle (nodes.map (·.id)) (edges ++ [edge "last" "first"])).isSome = true
      ∧ wouldCreateCycle "first" "last" edges = false := by
  intro node edge nodes edges
  have hsources : ∀ f ∈ edges, f.source ∈ nodes.map (·.id) := by decide
  have hacyclic : ∀ {edges : List Edge}, (∀ e ∈ edges, e.source = "first" ∧ e.target = "last") →
      Acyclic edges := fun h => acyclic_of_rank (["first", "last"].idxOf ·) fun e he => by
        rw [(h e he).1, (h e he).2]
        decide
  have hnone : findCycle (nodes.map (·.id)) edges = none :=
    (findCycle_eq_none_iff_acyclic hsources).mpr (hacyclic (by decide))
  have hback : wouldCreateCycle "last" "first" edges = true :=
    searchFrom_singleton.mpr (.single ⟨_, List.mem_singleton_self _, rfl, rfl⟩)
  refine ⟨(wouldCreateCycle_iff_findCycle (e := edge "last" "first") hsources hnone
    (by decide)).mp hback, Bool.eq_false_iff.mpr fun hagain => ?_⟩
  have hfound := (wouldCreateCycle_iff_findCycle (e := edge "first" "last") hsources hnone
    (by decide)).mp hagain
  rw [(findCycle_eq_none_iff_acyclic (by decide)).mpr (hacyclic (by decide))] at hfound
  cases hfound

end Workflow
