import Workflow.Proofs.Run.Course

/-!
# Branches after a condition

A run decides for each target of a condition, and not for each edge, whether it goes on: by
the handle of the first edge that joins the two nodes. The targets are still queued once for
each edge, in the order of the edges. So the edges are followed as their own handles say
exactly if each of them agrees with the first one that joins the same nodes
(`Graph.routed_eq_iff`), which is so as long as edges that join the same nodes have the same
handle (`Graph.agrees_of_handles`).

A run stands at such a decision whenever a condition was decided and announced. What is known
of it there comes from the course of the run (`Course.exists_of_reaches`).

The headline is `Graph.routes_condition`.
-/

namespace Workflow
namespace Graph

/-! ## Edges that are followed -/

/-- The work to which an edge from a node leads, if its target is known. -/
def arrival? (g : Graph) (w : Work) (o : Outcome) (edge : Edge) : Option Work :=
  (g.node? edge.target).map fun n => ⟨n, o.output, w.node.id :: w.visited⟩

/-- The handle of the first edge that joins the same nodes. -/
def leadingHandle (g : Graph) (edge : Edge) : Value := g.handle edge.source edge.target

/-- The work behind a node whose edges are followed as a handle of each of them admits the
result of a condition: once for each edge to a known target, in the order of the edges. -/
def routed (g : Graph) (handleOf : Edge → Value) (w : Work) (o : Outcome) (met : Bool) :
    List Work :=
  (g.edges.filter fun edge => edge.source = w.node.id ∧ admits (handleOf edge) met).filterMap
    (g.arrival? w o)

/-- The edges of a node to known targets admit a result as the first edges do that join the
same nodes. -/
def Agrees (g : Graph) (id : String) (met : Bool) : Prop :=
  ∀ edge ∈ g.edges, edge.source = id → (g.node? edge.target).isSome →
    admits edge.sourceHandle met = admits (g.leadingHandle edge) met

/-- A condition is followed along its edges as the first edges admit that join the same
nodes. -/
theorem followers_of_condition {g : Graph} {w : Work} {o : Outcome}
    (hkind : w.node.kind = .condition) (hok : o.status ≠ .error)
    (hfresh : ¬ w.revisits = true) :
    g.followers w o = g.routed g.leadingHandle w o o.conditionMet := by
  have hnext : ∀ edge : Edge, edge.source = w.node.id →
      g.next? w o edge.target
        = if admits (g.leadingHandle edge) o.conditionMet then g.arrival? w o edge else none := by
    intro edge hsource
    have hgoes : g.goesOn w.node edge.target o.conditionMet
        = admits (g.leadingHandle edge) o.conditionMet := by
      unfold goesOn leadingHandle
      rw [hkind, hsource]
      rfl
    unfold next? arrival?
    rw [hgoes]
    cases g.node? edge.target with
    | none => exact (ite_self none).symm
    | some n => rfl
  unfold followers routed successors
  rw [if_neg (not_or.mpr ⟨hok, hfresh⟩), List.filterMap_map, List.filterMap_filter,
    List.filterMap_filter]
  congr 1
  funext edge
  by_cases hsource : edge.source = w.node.id
  · simp only [Function.comp_apply, hsource, hnext edge hsource, decide_true, if_true, true_and,
      decide_eq_true_eq]
  · simp only [hsource, decide_false, false_and, Bool.false_eq_true, if_false]

/-! ## Edges that join the same nodes -/

/-- How often a known target is queued: once for each edge to it that is followed. -/
theorem countP_routed {g : Graph} {w : Work} {target : String}
    (hknown : (g.node? target).isSome) (handleOf : Edge → Value) (o : Outcome) (met : Bool) :
    (g.routed handleOf w o met).countP (·.node.id = target)
      = (g.edges.filter fun edge => edge.source = w.node.id ∧ edge.target = target).countP
          fun edge => admits (handleOf edge) met := by
  have harrives : ∀ edge : Edge,
      ((g.arrival? w o edge).map fun v => decide (v.node.id = target)).getD false
        = decide (edge.target = target) := by
    intro edge
    unfold arrival?
    cases hnode : g.node? edge.target with
    | none =>
        refine (decide_eq_false fun hsame => ?_).symm
        rw [← hsame, hnode] at hknown
        cases hknown
    | some n => exact congrArg (fun id => decide (id = target)) (node?_mem hnode).2
  unfold routed
  rw [List.countP_filterMap, List.countP_filter, List.countP_filter]
  congr 1
  funext edge
  rw [harrives]
  simp only [Bool.decide_and, Bool.decide_eq_true]
  cases decide (edge.source = w.node.id) <;> simp [Bool.and_comm]

/-- The edges between two nodes agree with the first of them if as many are followed. -/
theorem agrees_of_countP_eq {g : Graph} {id target : String} {met : Bool}
    (h : (g.edges.filter fun edge => edge.source = id ∧ edge.target = target).countP
          (fun edge => admits edge.sourceHandle met)
        = (g.edges.filter fun edge => edge.source = id ∧ edge.target = target).countP
          fun edge => admits (g.leadingHandle edge) met) :
    ∀ edge ∈ g.edges.filter fun edge => edge.source = id ∧ edge.target = target,
      admits edge.sourceHandle met = admits (g.leadingHandle edge) met := by
  generalize hjoining : (g.edges.filter fun edge => edge.source = id ∧ edge.target = target)
    = joining at h ⊢
  have hleading : ∀ edge ∈ joining, admits (g.leadingHandle edge) met
      = admits (g.handle id target) met := by
    intro edge hedge
    rw [← hjoining, List.mem_filter, decide_eq_true_iff] at hedge
    rw [leadingHandle, hedge.2.1, hedge.2.2]
  have hconst : joining.countP (fun edge => admits (g.leadingHandle edge) met)
      = joining.countP fun _ => admits (g.handle id target) met :=
    List.countP_congr fun edge hedge => by rw [hleading edge hedge]
  rw [hconst] at h
  intro edge hedge
  rw [hleading edge hedge]
  cases hfirst : admits (g.handle id target) met with
  | true =>
      rw [hfirst, List.countP_true] at h
      exact List.countP_eq_length.mp h edge hedge
  | false =>
      rw [hfirst, List.countP_false] at h
      exact eq_false_of_ne_true (List.countP_eq_zero.mp h edge hedge)

/-- Whether each edge is followed as its own handle says is a matter of the edges to known
targets alone. -/
theorem routed_eq_iff (g : Graph) (w : Work) (o : Outcome) (met : Bool) :
    g.routed Edge.sourceHandle w o met = g.routed g.leadingHandle w o met
      ↔ g.Agrees w.node.id met := by
  constructor
  · intro hsame edge hedge hsource hknown
    have hjoins : edge ∈ g.edges.filter fun e => e.source = w.node.id ∧ e.target = edge.target :=
      List.mem_filter.mpr ⟨hedge, decide_eq_true ⟨hsource, rfl⟩⟩
    refine agrees_of_countP_eq ?_ edge hjoins
    rw [← countP_routed hknown Edge.sourceHandle o met, hsame, countP_routed hknown]
  · intro hagrees
    unfold routed
    rw [List.filterMap_filter, List.filterMap_filter]
    refine List.filterMap_congr fun edge hedge => ?_
    by_cases hsource : edge.source = w.node.id
    · cases hnode : g.node? edge.target with
      | none =>
          have hnone : g.arrival? w o edge = none := by rw [arrival?, hnode, Option.map_none]
          rw [hnone, ite_self, ite_self]
      | some n => rw [hagrees edge hedge hsource (by rw [hnode, Option.isSome_some])]
    · simp only [hsource, false_and, decide_false, Bool.false_eq_true, if_false]

/-- Edges that have the same handle whenever they join the same nodes agree. -/
theorem agrees_of_handles {g : Graph} {id : String}
    (h : ∀ a ∈ g.edges, ∀ b ∈ g.edges, a.source = id → b.source = id → a.target = b.target →
      a.sourceHandle = b.sourceHandle) (met : Bool) : g.Agrees id met := by
  intro edge hedge hsource _
  unfold leadingHandle handle
  cases hfirst : g.edges.find? fun e => e.source = edge.source ∧ e.target = edge.target with
  | none =>
      have hnone := List.find?_eq_none.mp hfirst edge hedge
      exact absurd (decide_eq_true ⟨rfl, rfl⟩) hnone
  | some first =>
      obtain ⟨hsource', htarget⟩ : first.source = edge.source ∧ first.target = edge.target := by
        simpa using List.find?_some hfirst
      rw [h edge hedge first (List.mem_of_find?_eq_some hfirst) hsource (hsource'.trans hsource)
        htarget.symm]

end Graph

/-! ## Where a run decides -/

theorem not_busy_of_reaches {g : Graph} {e : Executor} {signal : Signal} {r : Run}
    (hreach : Relation.ReflTransGen Turn.Follows (Run.start g e).2 (.waits signal r)) :
    e.executing = false := by
  cases hbusy : e.executing with
  | false => rfl
  | true =>
      rw [Run.start_of_busy g hbusy] at hreach
      rcases hreach.cases_head with hends | ⟨t, hstep, -⟩
      · cases hends
      · cases hstep

/-- Wherever a run stands, whatever its surroundings did, it has taken one of its courses. -/
theorem Course.exists_of_reaches {g : Graph} {e : Executor} (hidle : e.executing = false)
    {t : Turn} (hreach : Relation.ReflTransGen Turn.Follows (Run.start g e).2 t) :
    ∃ history, Course g ⟨e.clock + 1⟩ history t := by
  induction hreach with
  | refl =>
      have hstarts := Recites.start (g := g) hidle
      rw [Run.start_of_idle g hidle] at hstarts ⊢
      exact ⟨[], .runs nofun ⟨fun _ => rfl, fun _ => rfl⟩ hstarts⟩
  | tail _ hstep ih =>
      obtain ⟨history, hcourse⟩ := ih
      cases hstep with
      | reply signal r e' reply => exact ⟨_, hcourse.step e' reply⟩

theorem Course.of_left {g : Graph} {started : Instant} {history : List Moment}
    {signal : Signal} {r : Run} (h : Course g started history (.waits signal r)) {w : Work}
    {o : Outcome} {queue : List Work} {starts : List Node}
    (hstage : r.stage = .left w o queue starts) :
    r.plan = g ∧ o = executeNode w.node w.input ∧ ¬ w.revisits = true := by
  cases h with
  | closing hcalm hannounced hleaves hclosing =>
      rw [hclosing] at hstage
      cases hstage
  | runs hcalm hopened hrecites =>
      cases hrecites with
      | left ho hcovers hfresh htold =>
          cases hstage
          exact ⟨rfl, ho, hfresh⟩
      | closing hclosing htraverses htold =>
          rw [hclosing] at hstage
          cases hstage
      | _ => cases hstage

namespace Graph

/-! ### Two edges that join the same nodes -/

def fork : Node :=
  ⟨"fork", .condition, .origin, "Fork", some (.condition (.text "flag") (.text "isNotEmpty") .null)⟩

/-- A start, the condition, and an end to which two edges with these handles lead from it. -/
def forking (first second : Value) : Graph where
  nodes := [⟨"first", .start, .origin, "Start", some (.start (.record []))⟩, fork,
    ⟨"last", .finish, .origin, "End", some (.finish (.text "End"))⟩]
  edges := [⟨"in", "first", "fork", .null, .null, .null, true⟩,
    ⟨"left", "fork", "last", first, .null, .null, true⟩,
    ⟨"right", "fork", "last", second, .null, .null, true⟩]

def forkWork : Work := ⟨fork, [], ["first"]⟩

theorem valid_forking (first second : Value) : (forking first second).report.valid = true :=
  report_valid_of_rank (["first", "fork", "last"].idxOf ·) ⟨_, List.mem_cons_self, rfl⟩
    (by simp [forking, fork]) (by simp [forking])

theorem forking_reaches (first second : Value) :
    ∃ signal r, Relation.ReflTransGen Turn.Follows
        (Run.start (forking first second) (.idle none 0)).2 (.waits signal r)
      ∧ r.stage = .left forkWork (executeNode fork []) [] [] := by
  let g := forking first second
  let start : Work := seed ⟨"first", .start, .origin, "Start", some (.start (.record []))⟩
  let opened : Run := .announced g (.idle none 0)
  let passed : Run := { opened with visited := ["first"] }
  let decided : Run := { opened with visited := ["first", "fork"] }
  have hgo : ∀ {signal : Signal} {r : Run} {s t : Turn}, (r.resume (.idle none 0)).2 = s →
      Relation.ReflTransGen Turn.Follows s t →
        Relation.ReflTransGen Turn.Follows (.waits signal r) t :=
    fun hnext h => .head (.reply _ _ (.idle none 0) .resume) (hnext.symm ▸ h)
  have hopens : (opened.resume (.idle none 0)).2
      = .waits .pause (opened.goTo (.paused start [] [])) :=
    congrArg Prod.snd (resume_announced (valid_forking first second) rfl rfl _ rfl)
  refine ⟨.event (forkWork.completion (executeNode fork [])),
    decided.goTo (.left forkWork (executeNode fork []) [] []), ?_, rfl⟩
  rw [Run.start_of_idle _ rfl]
  refine hgo hopens ?_
  refine hgo (s := .waits _ (opened.goTo (.entered start [] []))) rfl ?_
  refine hgo (s := .waits _ (passed.goTo (.noted start _ [] []))) rfl ?_
  refine hgo (s := .waits _ (passed.goTo (.left start _ [] []))) rfl ?_
  refine hgo (s := .waits .pause (passed.goTo (.paused forkWork [] []))) rfl ?_
  refine hgo (s := .waits _ (passed.goTo (.entered forkWork [] []))) rfl ?_
  refine hgo (s := .waits _ (decided.goTo (.noted forkWork _ [] []))) rfl ?_
  exact hgo rfl .refl

/-! ### The decision -/

/-- **Where a run goes on after a condition**, in any surroundings: it queues, behind all
other work, the known targets of the edges that it follows, once for each edge and in the
order of the edges. Whether it follows an edge is decided by the handle of the first edge
that joins the same nodes. These are the edges that it would follow by their own handles
exactly if all those to known targets agree with the first ones, and they do if edges that
join the same nodes have the same handle. -/
theorem routes_condition {g : Graph} {e : Executor} {signal : Signal} {r : Run}
    (hreach : Relation.ReflTransGen Turn.Follows (Run.start g e).2 (.waits signal r))
    {w : Work} {o : Outcome} {queue : List Work} {starts : List Node}
    (hstage : r.stage = .left w o queue starts) (hkind : w.node.kind = .condition)
    (hok : o.status ≠ .error) :
    o = executeNode w.node w.input
      ∧ (∀ e', r.resume e'
          = r.walk e' (queue ++ g.routed g.leadingHandle w o (w.node.verdict w.input)) starts)
      ∧ (g.routed Edge.sourceHandle w o (w.node.verdict w.input)
            = g.routed g.leadingHandle w o (w.node.verdict w.input)
          ↔ g.Agrees w.node.id (w.node.verdict w.input))
      ∧ ((∀ a ∈ g.edges, ∀ b ∈ g.edges, a.source = w.node.id → b.source = w.node.id →
            a.target = b.target → a.sourceHandle = b.sourceHandle) →
          g.Agrees w.node.id (w.node.verdict w.input)) := by
  obtain ⟨history, hcourse⟩ := Course.exists_of_reaches (not_busy_of_reaches hreach) hreach
  obtain ⟨hplan, rfl, hfresh⟩ := hcourse.of_left hstage
  refine ⟨rfl, fun e' => ?_, g.routed_eq_iff w _ _, fun halike => agrees_of_handles halike _⟩
  have hfollowers := followers_of_condition (g := g) hkind hok hfresh
  rw [conditionMet_executeNode hok] at hfollowers
  unfold Run.resume
  rw [hstage]
  show (if _ then _ else r.walk e' (queue ++ r.plan.followers w _) starts) = _
  rw [if_neg hok, hplan, hfollowers]

/-- An edge for the other result comes first, so the run ends at the condition. By its own
handle the second edge would be followed. -/
theorem routes_condition_not_by_own_handles :
    let g := forking (.text "true") (.text "false")
    g.report.valid = true ∧ fork.verdict [] = false
      ∧ (g.routed Edge.sourceHandle forkWork (executeNode fork []) false).map (·.node.id) = ["last"]
      ∧ ∃ signal r,
        Relation.ReflTransGen Turn.Follows (Run.start g (.idle none 0)).2 (.waits signal r)
        ∧ r.stage = .left forkWork (executeNode fork []) [] []
        ∧ (∀ e', r.resume e' = r.conclude e')
        ∧ ¬ ∀ e', r.resume e' = r.walk e'
            ([] ++ g.routed Edge.sourceHandle forkWork (executeNode fork [])
              (fork.verdict [])) [] := by
  intro g
  obtain ⟨signal, r, hreach, hstage⟩ := forking_reaches (.text "true") (.text "false")
  obtain ⟨history, hcourse⟩ := Course.exists_of_reaches rfl hreach
  have hresume : ∀ e', r.resume e' = r.conclude e' := by
    intro e'
    unfold Run.resume
    rw [hstage]
    show r.walk e' ([] ++ r.plan.followers forkWork (executeNode fork [])) [] = _
    rw [(hcourse.of_left hstage).1]
    rfl
  refine ⟨valid_forking _ _, rfl, rfl, signal, r, hreach, hstage, hresume, fun hown => ?_⟩
  have hends := congrArg Prod.snd ((hresume (.idle none 0)).symm.trans (hown (.idle none 0)))
  cases hends

/-- Two edges that agree: both are followed when the condition does not hold. -/
theorem routes_condition_twice :
    let g := forking (.text "false") .null
    ∃ signal r, Relation.ReflTransGen Turn.Follows (Run.start g (.idle none 0)).2 (.waits signal r)
      ∧ r.stage = .left forkWork (executeNode fork []) [] []
      ∧ (executeNode fork []).status ≠ .error
      ∧ (∀ e', r.resume e' = r.walk e'
          ([] ++ g.routed g.leadingHandle forkWork (executeNode fork []) false) [])
      ∧ (g.routed g.leadingHandle forkWork (executeNode fork []) false).map (·.node.id)
          = ["last", "last"]
      ∧ g.Agrees "fork" false := by
  intro g
  obtain ⟨signal, r, hreach, hstage⟩ := forking_reaches (.text "false") .null
  have hok : (executeNode fork []).status ≠ .error := by decide
  obtain ⟨-, hresume, hagrees, -⟩ := routes_condition hreach hstage rfl hok
  exact ⟨signal, r, hreach, hstage, hok, hresume, rfl, hagrees.mp rfl⟩

end Graph
end Workflow
