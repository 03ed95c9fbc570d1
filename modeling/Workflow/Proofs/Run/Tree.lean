import Workflow.Run.Bound

/-!
# Execution trees

What a run does from a node is a tree: its root is the visit of the node, and its branches
are the trees of the nodes to which the run goes on. A path ends at a node that fails, at one
whose targets are all dropped or unknown, and at one that was passed before on the same path,
which is noted but not executed.

`Graph.tree` is defined from the edges and the condition of the node, without the queue of a
run, and `branches_tree` relates the two: the branches are the trees of the work that a run
queues. `levelOrder_cons` is what a queue does to the level order of a row of trees: the
first root goes, and its branches come last.
-/

namespace Workflow

/-- What a run notes of a node that it reached, but for the time. -/
structure Visit where
  node : Node
  input : Packet
  outcome : Outcome
  /-- Whether the node was executed; else it was passed before on the way to it. -/
  executed : Bool

/-- A tree of visits. -/
inductive Tree
  | node (root : Visit) (branches : List Tree)

namespace Tree

def root : Tree → Visit
  | node v _ => v

def branches : Tree → List Tree
  | node _ ts => ts

def size : Tree → Nat
  | node _ ts => sizes ts + 1
where
  /-- The number of visits of trees. -/
  sizes : List Tree → Nat
    | [] => 0
    | t :: ts => size t + sizes ts

theorem sizes_branches : ∀ ts : List Tree,
    size.sizes (ts.flatMap branches) + ts.length = size.sizes ts
  | [] => rfl
  | node _ us :: ts => by
      have happend : ∀ us vs : List Tree,
          size.sizes (us ++ vs) = size.sizes us + size.sizes vs := by
        intro us vs
        induction us with
        | nil => simp only [List.nil_append, size.sizes, Nat.zero_add]
        | cons u us ih => simp only [List.cons_append, size.sizes, ih, Nat.add_assoc]
      have hrest := sizes_branches ts
      simp only [List.flatMap_cons, branches, happend, size.sizes, size, List.length_cons]
      omega

/-! ## Level order -/

/-- The visits of a row of trees level by level, each level from left to right. -/
def levelOrder : List Tree → List Visit
  | [] => []
  | t :: ts => (t :: ts).map root ++ levelOrder ((t :: ts).flatMap branches)
termination_by ts => size.sizes ts
decreasing_by
  have := sizes_branches (t :: ts)
  simp only [List.length_cons] at this
  omega

/-- The level order starts with the roots and goes on with the branches. -/
theorem levelOrder_eq : ∀ ts : List Tree,
    levelOrder ts = ts.map root ++ levelOrder (ts.flatMap branches)
  | [] => by simp only [List.flatMap_nil, List.map_nil, List.nil_append]
  | t :: ts => by rw [levelOrder]

/-- Trees at the front of a row can be taken down one level ahead of the others. -/
theorem levelOrder_append (ts us : List Tree) :
    levelOrder (ts ++ us) = ts.map root ++ levelOrder (us ++ ts.flatMap branches) := by
  by_cases hnil : ts ++ us = []
  · obtain ⟨rfl, rfl⟩ := List.append_eq_nil_iff.mp hnil
    rfl
  · have hdown := levelOrder_append (ts.flatMap branches) (us.flatMap branches)
    calc levelOrder (ts ++ us)
        = ts.map root ++ (us.map root
            ++ levelOrder (ts.flatMap branches ++ us.flatMap branches)) := by
          rw [levelOrder_eq, List.map_append, List.flatMap_append, List.append_assoc]
      _ = ts.map root ++ ((us ++ ts.flatMap branches).map root
            ++ levelOrder ((us ++ ts.flatMap branches).flatMap branches)) := by
          rw [hdown, List.map_append, List.flatMap_append, List.append_assoc]
      _ = ts.map root ++ levelOrder (us ++ ts.flatMap branches) := by rw [← levelOrder_eq]
termination_by size.sizes (ts ++ us)
decreasing_by
  have hsizes := sizes_branches (ts ++ us)
  have hpos := List.length_pos_iff.mpr hnil
  rw [List.flatMap_append] at hsizes
  omega

theorem levelOrder_cons (t : Tree) (ts : List Tree) :
    levelOrder (t :: ts) = t.root :: levelOrder (ts ++ t.branches) := by
  have h := levelOrder_append [t] ts
  simpa only [List.singleton_append, List.map_cons, List.map_nil, List.flatMap_cons,
    List.flatMap_nil, List.append_nil] using h

end Tree

/-! ## The tree of a node -/

/-- Whether the condition of a node holds. A node without the configuration of a condition is
judged by the packet that it hands on. -/
def Node.verdict (n : Node) (input : Packet) : Bool :=
  match n.config with
  | some (.condition field operator operand) =>
    match evaluateCondition field operator operand input with
    | .ok met => met
    | .error _ => false
  | _ => (executeNode n input).conditionMet

namespace Graph

/-- Whether a target of a node is dropped: the first edge to it is for the other result of
the condition. -/
def Drops (g : Graph) (n : Node) (input : Packet) (target : String) : Prop :=
  n.kind = .condition ∧
    (g.handle n.id target = .text "true" ∧ n.verdict input = false ∨
      g.handle n.id target = .text "false" ∧ n.verdict input = true)

instance (g : Graph) (n : Node) (input : Packet) (target : String) :
    Decidable (g.Drops n input target) :=
  inferInstanceAs (Decidable (_ ∧ _))

/-- The nodes to which a run goes on from a node, in the order of the edges. -/
def targets (g : Graph) (n : Node) (input : Packet) : List Node :=
  ((successors g.edges n.id).filter fun target => ¬ g.Drops n input target).filterMap g.node?

/-- The execution tree of a node that is reached with a packet after others were passed. -/
def tree (g : Graph) (w : Work) : Tree :=
  if w.revisits then .node ⟨w.node, w.input, ⟨[], .error, cycleMessage⟩, false⟩ []
  else
    let o := executeNode w.node w.input
    .node ⟨w.node, w.input, o, true⟩ <|
      if o.status = .error then []
      else (g.targets w.node w.input).attach.map fun n =>
        g.tree ⟨n.1, o.output, w.node.id :: w.visited⟩
termination_by g.depth w
decreasing_by
  rename_i hfresh _
  obtain ⟨target, -, hfound⟩ := List.mem_filterMap.mp n.2
  exact depth_lt hfresh hfound _

theorem tree_of_revisits {g : Graph} {w : Work} (h : w.revisits) :
    g.tree w = .node ⟨w.node, w.input, ⟨[], .error, cycleMessage⟩, false⟩ [] := by
  rw [tree, if_pos h]

/-- A node that was not passed before is executed, and the run goes on from it unless it
failed. -/
theorem tree_of_fresh {g : Graph} {w : Work} (h : ¬ w.revisits) :
    g.tree w = .node ⟨w.node, w.input, executeNode w.node w.input, true⟩
      (if (executeNode w.node w.input).status = .error then []
       else (g.targets w.node w.input).map fun n =>
         g.tree ⟨n, (executeNode w.node w.input).output, w.node.id :: w.visited⟩) := by
  have hmap := List.attach_map_val (l := g.targets w.node w.input) (f := fun n =>
    g.tree ⟨n, (executeNode w.node w.input).output, w.node.id :: w.visited⟩)
  rw [tree, if_neg h]
  dsimp only
  rw [hmap]

theorem root_tree_of_fresh {g : Graph} {w : Work} (h : ¬ w.revisits) :
    (g.tree w).root = ⟨w.node, w.input, executeNode w.node w.input, true⟩ := by
  rw [tree_of_fresh h]
  rfl

/-! ## What a run queues -/

theorem conditionMet_set (input : Packet) (met : Bool) (status : LogStatus)
    (message : String) :
    (Outcome.mk (input.set conditionKey (.bool met)) status message).conditionMet = met := by
  have hsame : conditionKey.same conditionKey = true := by
    rw [conditionKey, Key.same_text]
    exact decide_eq_true rfl
  unfold Outcome.conditionMet
  rw [Packet.get?_set, if_pos hsame]
  cases met <;> rfl

/-- What a condition that was decided hands on tells whether it holds. -/
theorem conditionMet_executeNode {n : Node} {input : Packet}
    (h : (executeNode n input).status ≠ .error) :
    (executeNode n input).conditionMet = n.verdict input := by
  unfold Node.verdict
  split
  · rename_i field operator operand hconfig
    unfold executeNode at h ⊢
    rw [hconfig] at h ⊢
    dsimp only at h ⊢
    cases hmet : evaluateCondition field operator operand input with
    | error fault =>
        rw [hmet] at h
        exact absurd rfl h
    | ok met =>
        rw [hmet] at h
        dsimp only at h ⊢
        cases hmessage : Outcome.conditionMessage field operator operand met with
        | error fault =>
            rw [hmessage] at h
            exact absurd rfl h
        | ok message => exact conditionMet_set input met _ message
  · rfl

theorem goesOn_iff (g : Graph) (n : Node) (input : Packet) (target : String) :
    g.goesOn n target (n.verdict input) = true ↔ ¬ g.Drops n input target := by
  unfold goesOn admits Drops
  by_cases hkind : n.kind = .condition
  · by_cases htrue : g.handle n.id target = .text "true"
    · have hother : (Value.text "true" = Value.text "false") = False := by decide
      simp only [hkind, htrue, hother, ne_eq, not_true_eq_false, decide_false, Bool.false_or,
        if_true, true_and, false_and, or_false, Bool.not_eq_false]
    · by_cases hfalse : g.handle n.id target = .text "false"
      · simp [hkind, hfalse]
      · simp [hkind, htrue, hfalse]
  · simp [hkind]

theorem filterMap_next? {g : Graph} {w : Work}
    (h : (executeNode w.node w.input).status ≠ .error) :
    (successors g.edges w.node.id).filterMap (g.next? w (executeNode w.node w.input))
      = (g.targets w.node w.input).map fun n =>
          ⟨n, (executeNode w.node w.input).output, w.node.id :: w.visited⟩ := by
  rw [targets, List.filterMap_filter, List.map_filterMap]
  congr 1
  funext target
  have hgoes := goesOn_iff g w.node w.input target
  rw [← conditionMet_executeNode h] at hgoes
  unfold next?
  by_cases hdrops : g.Drops w.node w.input target
  · have hnot : ¬ g.goesOn w.node target (executeNode w.node w.input).conditionMet = true :=
      fun hon => hgoes.mp hon hdrops
    simp only [hnot, hdrops, not_true_eq_false, decide_false, Bool.false_eq_true, if_false,
      Option.map_none]
    split <;> rfl
  · simp only [hgoes.mpr hdrops, hdrops, not_false_eq_true, decide_true, if_true]
    cases g.node? target <;> rfl

/-- **The branches of a tree are the trees of the work that follows.** -/
theorem branches_tree (g : Graph) (w : Work) :
    (g.tree w).branches = (g.followers w (executeNode w.node w.input)).map g.tree := by
  unfold followers
  by_cases hpassed : w.revisits
  · rw [tree_of_revisits hpassed, if_pos (Or.inr hpassed)]
    rfl
  · rw [tree_of_fresh hpassed]
    by_cases herror : (executeNode w.node w.input).status = .error
    · rw [if_pos herror, if_pos (Or.inl herror)]
      rfl
    · rw [if_neg herror, if_neg (not_or.mpr ⟨herror, hpassed⟩), filterMap_next? herror,
        List.map_map]
      rfl

end Graph
end Workflow
