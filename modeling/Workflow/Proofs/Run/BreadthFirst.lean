import Workflow.Proofs.Graph.Cycle
import Workflow.Proofs.Run.Tree
import Workflow.Run.Drive

/-!
# Runs go level by level

A run that nobody interferes with notes the level order of the execution trees of its start
nodes, one after another. A queue holds the rest of one level and the beginning of the next,
and what is still to be noted is the level order of the trees of its work: taking a piece of
work notes the first root, and its followers go to the end (`runOut_take`), just as in the
level order the branches of the first tree do (`Tree.levelOrder_cons`). Work gets less with
every piece that is taken, so this carries to whole runs (`runOut_walk`).

The headline is `run_notes_levelOrder`.
-/

namespace Workflow

/-! ## Lines of a log -/

abbrev Line := Instant → LogEntry

def Visit.line (v : Visit) : Line := fun time =>
  ⟨v.node.id, v.node.label, v.node.kind, v.input, v.outcome.output, time, v.outcome.status,
    v.outcome.message⟩

def Warning.line (w : Warning) : Line := fun time =>
  ⟨systemId, "System", .start, [], [], time, .skipped, "Warning: " ++ w.message⟩

/-- Lines with the times that a clock gives them. -/
def stamped : Nat → List Line → List LogEntry
  | _, [] => []
  | clock, line :: rest => line ⟨clock + 1⟩ :: stamped (clock + 1) rest

def executedIds (visits : List Visit) : List String :=
  (visits.filter (·.executed)).map (·.node.id)

namespace Executor

def write (e : Executor) (line : Line) : Executor :=
  e.readClock.2.append (line e.readClock.1)

def writeAll (e : Executor) (lines : List Line) : Executor := lines.foldl write e

theorem writeAll_append (e : Executor) (lines rest : List Line) :
    e.writeAll (lines ++ rest) = (e.writeAll lines).writeAll rest := List.foldl_append

/-- Whether so many entries more do not exceed the capacity. -/
def HasRoom (e : Executor) (count : Nat) : Prop :=
  ∀ bound, e.capacity = some bound → e.logs.length + count ≤ bound

theorem hasRoom_of_unbounded {e : Executor} (h : e.capacity = none) (count : Nat) :
    e.HasRoom count := by
  intro bound hbound
  rw [h] at hbound
  cases hbound

theorem logs_write {e : Executor} (h : e.HasRoom 1) (line : Line) :
    (e.write line).logs = e.logs ++ [line ⟨e.clock + 1⟩] := by
  show e.keep (e.logs ++ [line ⟨e.clock + 1⟩]) = _
  unfold keep
  cases hcapacity : e.capacity with
  | none => rfl
  | some bound =>
      have hfits := h bound hcapacity
      have hnone : (e.logs ++ [line ⟨e.clock + 1⟩]).length - bound = 0 := by
        rw [List.length_append, List.length_singleton]
        omega
      show keepLast bound _ = _
      rw [keepLast, hnone, List.drop_zero]

theorem logs_writeAll : ∀ {lines : List Line} {e : Executor}, e.HasRoom lines.length →
    (e.writeAll lines).logs = e.logs ++ stamped e.clock lines
  | [], e, _ => (List.append_nil _).symm
  | line :: rest, e, h => by
      have hone : e.HasRoom 1 := by
        intro bound hbound
        have hfits := h bound hbound
        rw [List.length_cons] at hfits
        omega
      have hlogs := logs_write hone line
      have hrest : (e.write line).HasRoom rest.length := by
        intro bound hbound
        have hfits := h bound hbound
        rw [hlogs, List.length_append, List.length_singleton]
        rw [List.length_cons] at hfits
        omega
      have hwritten := logs_writeAll hrest
      rw [hlogs, List.append_assoc] at hwritten
      exact hwritten

theorem cancelRequested_writeAll (e : Executor) (lines : List Line) :
    (e.writeAll lines).cancelRequested = e.cancelRequested := by
  induction lines generalizing e with
  | nil => rfl
  | cons line rest ih => exact ih (e.write line)

end Executor

/-! ## Running alone -/

/-- How a run that nobody interferes with ends, and the executor it leaves. -/
def runOut (stage : Executor × Turn) : Ending × Executor :=
  ((Environment.inert.drive stage.1 () stage.2).1, (Environment.inert.drive stage.1 () stage.2).2.1)

theorem runOut_waits (e : Executor) (signal : Signal) (r : Run) :
    runOut (e, .waits signal r) = runOut (r.resume e) := by
  unfold runOut
  rw [Environment.drive]
  rfl

theorem runOut_ends (e : Executor) (ending : Ending) :
    runOut (e, .ends ending) = (ending, e) := by
  unfold runOut
  rw [Environment.drive]

namespace Graph

/-- What is still to be visited by a run with a queue and start nodes. -/
def visits (g : Graph) (queue : List Work) (starts : List Node) : List Visit :=
  Tree.levelOrder (queue.map g.tree) ++ starts.flatMap fun n => Tree.levelOrder [g.tree (seed n)]

theorem visits_nil_nil (g : Graph) : g.visits [] [] = [] := by
  rw [visits, List.map_nil, Tree.levelOrder, List.flatMap_nil, List.append_nil]

theorem visits_nil_cons (g : Graph) (n : Node) (starts : List Node) :
    g.visits [] (n :: starts) = g.visits [seed n] starts := by
  rw [visits, visits, List.map_nil, Tree.levelOrder, List.nil_append, List.flatMap_cons]
  rfl

/-- The queue holds the rest of one level and the beginning of the next. -/
theorem visits_cons (g : Graph) (w : Work) (queue : List Work) (starts : List Node) :
    g.visits (w :: queue) starts =
      (g.tree w).root :: g.visits (queue ++ g.followers w (executeNode w.node w.input)) starts := by
  rw [visits, visits, List.map_cons, Tree.levelOrder_cons, branches_tree, ← List.map_append,
    List.cons_append]

end Graph

namespace Run

/-- An idle executor announces the run, with an empty log and nobody asking to stop. -/
theorem start_of_idle (g : Graph) {e : Executor} (hidle : e.executing = false) :
    start g e = (e.begin.readClock.2,
      .waits (.event (.beforeRun g.nodes.length g.edges.length))
        ⟨g, ⟨e.clock + 1⟩, [], .completed, .opened⟩) :=
  if_neg (ne_true_of_eq_false hidle)

/-- The run after the nodes of visits were executed. -/
def passing (r : Run) (visits : List Visit) : Run :=
  { r with visited := r.visited ++ executedIds visits }

/-- What a run does next does not depend on the stage at which it was. -/
theorem walk_goTo (r : Run) (stage : Stage) (e : Executor) (queue : List Work)
    (starts : List Node) : (r.goTo stage).walk e queue starts = r.walk e queue starts := by
  cases queue with
  | cons w queue => rfl
  | nil => cases starts <;> rfl

theorem runOut_conclude (r : Run) (e : Executor) :
    runOut (r.conclude e) =
      (.returned ⟨r.status, r.visited, e.logs, some r.started, some ⟨e.clock + 1⟩⟩,
        e.readClock.2.release) := by
  unfold conclude close
  rw [runOut_waits]
  exact runOut_ends _ _

/-- Taking a piece of work notes the root of its tree and queues the work of its branches. -/
theorem runOut_take (r : Run) {e : Executor} (hgo : e.cancelRequested = false) (w : Work)
    (queue : List Work) (starts : List Node) :
    runOut (r.take e w queue starts) =
      runOut ((r.passing [(r.plan.tree w).root]).walk (e.write (r.plan.tree w).root.line)
        (queue ++ r.plan.followers w (executeNode w.node w.input)) starts) := by
  have hgo' : ¬ e.cancelRequested = true := ne_true_of_eq_false hgo
  unfold take
  rw [if_neg hgo']
  by_cases hpassed : w.revisits
  · have hnone : r.plan.followers w (executeNode w.node w.input) = [] := if_pos (Or.inr hpassed)
    have hvisited : r.passing [(r.plan.tree w).root] = r := by
      rw [Graph.tree_of_revisits hpassed]
      unfold passing executedIds
      simp only [Tree.root, List.filter_cons, Bool.false_eq_true, if_false, List.filter_nil,
        List.map_nil, List.append_nil]
    rw [if_pos hpassed, runOut_waits, hnone, List.append_nil, hvisited,
      Graph.tree_of_revisits hpassed]
    exact congrArg runOut (r.walk_goTo _ _ queue starts)
  · rw [if_neg hpassed, runOut_waits, Graph.root_tree_of_fresh hpassed]
    show runOut (if e.cancelRequested = true then _ else _) = _
    rw [if_neg hgo', runOut_waits]
    show runOut (_, .waits _ _) = _
    rw [runOut_waits]
    show runOut (_, .waits _ _) = _
    rw [runOut_waits]
    show runOut (if _ then _ else _) = _
    by_cases herror : (executeNode w.node w.input).status = .error
    · have hnone : r.plan.followers w (executeNode w.node w.input) = [] := if_pos (Or.inl herror)
      rw [if_pos herror, runOut_waits, hnone, List.append_nil]
      exact congrArg runOut (walk_goTo _ _ _ queue starts)
    · rw [if_neg herror]
      exact congrArg runOut (walk_goTo _ _ _ _ starts)

theorem passing_passing (r : Run) (visits rest : List Visit) :
    (r.passing visits).passing rest = r.passing (visits ++ rest) := by
  unfold passing executedIds
  simp only [List.filter_append, List.map_append, List.append_assoc]

/-- **A walk notes everything that is to be visited** and concludes. -/
theorem runOut_walk (r : Run) {e : Executor} (hgo : e.cancelRequested = false) :
    ∀ (queue : List Work) (starts : List Node),
      runOut (r.walk e queue starts) =
        runOut ((r.passing (r.plan.visits queue starts)).conclude
          (e.writeAll ((r.plan.visits queue starts).map Visit.line)))
  | [], [] => by
      have hnone : r.passing [] = r := by
        unfold passing executedIds
        rw [List.filter_nil, List.map_nil, List.append_nil]
      rw [Graph.visits_nil_nil, hnone]
      rfl
  | w :: queue, starts => by
      rw [Graph.visits_cons]
      generalize hv : (r.plan.tree w).root = v
      have hrest := runOut_walk (r.passing [v]) (e := e.write v.line) hgo
        (queue ++ r.plan.followers w (executeNode w.node w.input)) starts
      rw [passing_passing] at hrest
      rw [walk, runOut_take r hgo, hv]
      exact hrest
  | [], n :: starts => by
      rw [Graph.visits_nil_cons]
      exact runOut_walk r hgo [Graph.seed n] starts
termination_by queue starts => (r.plan.walkCost queue starts, starts.length)
decreasing_by
  · refine Prod.Lex.left _ _ ?_
    have hless := Graph.cost_followers r.plan w (executeNode w.node w.input)
    simp only [Graph.walkCost, Graph.queueCost_append, Graph.queueCost, passing]
    omega
  · have hsame : r.plan.walkCost [Graph.seed n] starts = r.plan.walkCost [] (n :: starts) := by
      simp only [Graph.walkCost, Graph.queueCost, List.map_cons, Nat.add_zero, Nat.zero_add]
    rw [hsame]
    exact Prod.Lex.right _ (Nat.lt_succ_self _)

theorem refuse_goTo (r : Run) (stage : Stage) (e : Executor) (defects : List Defect) :
    (r.goTo stage).refuse e defects = r.refuse e defects := by
  cases defects <;> rfl

theorem runOut_warn : ∀ (r : Run) (e : Executor) (warnings : List Warning),
    runOut (r.warn e warnings) = runOut (r.warn (e.writeAll (warnings.map Warning.line)) [])
  | r, e, [] => rfl
  | r, e, w :: rest => by
      have hrest := runOut_warn (r.goTo (.warning rest)) (e.write w.line) rest
      have hstage : ∀ e, (r.goTo (.warning rest)).warn e [] = r.warn e [] := by
        intro e
        unfold warn
        rw [walk_goTo, refuse_goTo]
        rfl
      rw [hstage] at hrest
      show runOut (_, .waits _ _) = _
      rw [runOut_waits]
      exact hrest

end Run

namespace Graph

/-- The result of a walk from one piece of work, with whatever log its lines leave. -/
theorem walk_result (g : Graph) (w : Work) {e : Executor} (hgo : e.cancelRequested = false) :
    ∃ finished, (g.walk w e).1 = .returned
      ⟨.completed, executedIds (g.visits [w] []),
        (e.writeAll ((g.visits [w] []).map Visit.line)).logs, some ⟨0⟩, some finished⟩ := by
  have hrun : g.walk w e = runOut (e, .waits .pause (.walkFrom g w)) := rfl
  have hwalk := (Run.walkFrom g w).runOut_walk hgo [w] []
  rw [Run.runOut_conclude] at hwalk
  rw [hrun, runOut_waits]
  exact ⟨_, congrArg Prod.fst hwalk⟩

/-- A run that an idle executor announced notes the warnings first. -/
theorem run_of_idle (g : Graph) {e : Executor} (hidle : e.executing = false) :
    g.run e = runOut ((⟨g, ⟨e.clock + 1⟩, [], .completed, .opened⟩ : Run).warn
      (e.begin.readClock.2.writeAll (g.report.warnings.map Warning.line)) []) := by
  have hstart : g.run e = runOut (Run.start g e) := rfl
  rw [hstart, Run.start_of_idle g hidle, runOut_waits, ← Run.runOut_warn]
  rfl

/-- The result of a run of a valid workflow, with whatever log its lines leave. -/
theorem run_result {g : Graph} {e : Executor} (hvalid : g.report.valid = true)
    (hidle : e.executing = false) :
    ∃ finished, (g.run e).1 = .returned
      ⟨.completed, executedIds (g.visits [] g.starts),
        (e.begin.readClock.2.writeAll
          (g.report.warnings.map Warning.line ++ (g.visits [] g.starts).map Visit.line)).logs,
        some ⟨e.clock + 1⟩, some finished⟩ := by
  let r : Run := ⟨g, ⟨e.clock + 1⟩, [], .completed, .opened⟩
  let e₁ := e.begin.readClock.2.writeAll (g.report.warnings.map Warning.line)
  have hwalks : r.warn e₁ [] = r.walk e₁ [] g.starts := if_pos hvalid
  have hwalk := r.runOut_walk (e := e₁) (Executor.cancelRequested_writeAll _ _) [] g.starts
  rw [Run.runOut_conclude] at hwalk
  rw [g.run_of_idle hidle, hwalks, Executor.writeAll_append]
  exact ⟨_, congrArg Prod.fst hwalk⟩

end Graph

/-- **A run notes the level order of its execution trees.** From one node, it notes the tree
of this node and the packet with which it begins; a run of a whole workflow that passed the
check notes the warnings, and then the trees of its start nodes one after another. -/
theorem run_notes_levelOrder (g : Graph) (e : Executor) :
    (∀ start input, e.cancelRequested = false →
      let visits := Tree.levelOrder [g.tree ⟨start, input, []⟩]
      e.HasRoom visits.length →
        ∃ result, (g.walk ⟨start, input, []⟩ e).1 = .returned result
          ∧ result.status = .completed ∧ result.visited = executedIds visits
          ∧ result.logs = e.logs ++ stamped e.clock (visits.map Visit.line))
    ∧ (g.report.valid = true → e.executing = false →
      let visits := g.starts.flatMap fun n => Tree.levelOrder [g.tree (Graph.seed n)]
      let lines := g.report.warnings.map Warning.line ++ visits.map Visit.line
      e.clearLogs.HasRoom lines.length →
        ∃ result, (g.run e).1 = .returned result
          ∧ result.status = .completed ∧ result.visited = executedIds visits
          ∧ result.logs = stamped (e.clock + 1) lines) := by
  refine ⟨?_, ?_⟩
  · intro start input hgo visits hroom
    have hvisits : g.visits [⟨start, input, []⟩] [] = visits := by
      rw [Graph.visits, List.flatMap_nil, List.append_nil]
      rfl
    obtain ⟨finished, hresult⟩ := g.walk_result ⟨start, input, []⟩ hgo
    rw [hvisits] at hresult
    refine ⟨_, hresult, rfl, rfl, Executor.logs_writeAll ?_⟩
    rw [List.length_map]
    exact hroom
  · intro hvalid hidle visits lines hroom
    have hvisits : g.visits [] g.starts = visits := by
      rw [Graph.visits, List.map_nil, Tree.levelOrder, List.nil_append]
    obtain ⟨finished, hresult⟩ := Graph.run_result hvalid hidle
    rw [hvisits] at hresult
    exact ⟨_, hresult, rfl, rfl, Executor.logs_writeAll hroom⟩

/-- A node that leads to itself is noted a second time, and a workflow of two nodes is run
from the one to the other. -/
theorem run_notes_levelOrder_of_two_nodes :
    let first : Node := ⟨"first", .start, .origin, "Start", some (.start (.record []))⟩
    let last : Node := ⟨"last", .finish, .origin, "End", some (.finish (.text "End"))⟩
    let loop : Graph := ⟨[first], [⟨"edge", "first", "first", .null, .null, .null, true⟩]⟩
    let line : Graph := ⟨[first, last], [⟨"edge", "first", "last", .null, .null, .null, true⟩]⟩
    (∃ result, (loop.walk ⟨first, [], []⟩ (.idle none 0)).1 = .returned result
        ∧ result.visited = ["first"] ∧ result.logs.map (·.status) = [.success, .error])
      ∧ ∃ result, (line.run (.idle none 0)).1 = .returned result
        ∧ result.status = .completed ∧ result.visited = ["first", "last"] := by
  intro first last loop line
  have hlevels : ∀ v v' : Visit, Tree.levelOrder [.node v [.node v' []]] = [v, v'] := by
    intro v v'
    rw [Tree.levelOrder_cons, List.nil_append, Tree.branches, Tree.levelOrder_cons,
      List.nil_append, Tree.branches, Tree.levelOrder, Tree.root, Tree.root]
  have hloop : loop.tree ⟨first, [], []⟩ =
      .node ⟨first, [], executeNode first [], true⟩
        [.node ⟨first, [], ⟨[], .error, cycleMessage⟩, false⟩ []] := by
    have htargets : loop.targets first [] = [first] := by decide
    rw [Graph.tree_of_fresh (by decide), if_neg (by decide), htargets, List.map_singleton,
      Graph.tree_of_revisits (by decide)]
    rfl
  have hline : line.tree (Graph.seed first) =
      .node ⟨first, [], executeNode first [], true⟩
        [.node ⟨last, [], executeNode last [], true⟩ []] := by
    have htargets : line.targets first [] = [last] := by decide
    have hseed : Graph.seed first = ⟨first, [], []⟩ := rfl
    rw [hseed, Graph.tree_of_fresh (by decide), if_neg (by decide), htargets, List.map_singleton,
      Graph.tree_of_fresh (by decide), if_neg (by decide)]
    rfl
  have hvalid : line.report.valid = true := by
    have hacyclic : Acyclic line.edges := by
      refine acyclic_nil.append ?_
      rw [reaches_nil]
      decide
    have hnone : findCycle (line.nodes.map (·.id)) line.edges = none :=
      findCycle_eq_none_iff.mpr fun _ _ id _ => hacyclic id
    show (findDefects line.nodes line.edges).isEmpty = true
    rw [findDefects, hnone]
    rfl
  obtain ⟨walked, hwalked, -, hpassed, hnoted⟩ :=
    (run_notes_levelOrder loop (.idle none 0)).1 first [] rfl (Executor.hasRoom_of_unbounded rfl _)
  obtain ⟨ran, hran, hstatus, hvisited, -⟩ :=
    (run_notes_levelOrder line (.idle none 0)).2 hvalid rfl (Executor.hasRoom_of_unbounded rfl _)
  rw [hloop, hlevels] at hpassed hnoted
  have hstarts : line.starts = [first] := rfl
  rw [hstarts, List.flatMap_cons, hline, hlevels] at hvisited
  exact ⟨⟨walked, hwalked, hpassed, by rw [hnoted]; rfl⟩, ran, hran, hstatus, hvisited⟩

end Workflow
