import Workflow.Run.Work
import Workflow.Run.Signal

/-!
# The stages of a run

Between two signals a run does a fixed piece of work at once. A stage says what it does when
it is resumed; resuming it gives the next signal with the next stage, or the end. However a
run ends after it was opened, it releases the executor and announces its end.
-/

namespace Workflow

/-- What a run does when it is resumed. -/
inductive Stage
  /-- The run was announced; the workflow is to be checked. -/
  | opened
  /-- Warnings are still to be noted. -/
  | warning (rest : List Warning)
  /-- Defects are still to be noted. -/
  | refusing (rest : List Defect)
  /-- The next piece of work is to be taken. -/
  | walking (queue : List Work) (starts : List Node)
  /-- The pause before a piece of work is over. -/
  | paused (work : Work) (queue : List Work) (starts : List Node)
  /-- A node was announced and is to be executed. -/
  | entered (work : Work) (queue : List Work) (starts : List Node)
  /-- A node was executed and noted; this is to be announced. -/
  | noted (work : Work) (outcome : Outcome) (queue : List Work) (starts : List Node)
  /-- A node is done; its followers are to be queued. -/
  | left (work : Work) (outcome : Outcome) (queue : List Work) (starts : List Node)
  /-- The result is to be drawn up. -/
  | concluding
  /-- The end was announced. -/
  | closing (ending : Ending)
  deriving DecidableEq, Repr

structure Run where
  plan : Graph
  started : Instant
  visited : List String
  status : RunStatus
  stage : Stage
  deriving DecidableEq, Repr

/-- What resuming a run gives. -/
inductive Turn
  | waits (signal : Signal) (run : Run)
  | ends (ending : Ending)
  deriving DecidableEq, Repr

/-- What is noted when a node is reached again on its own path. -/
def cycleMessage : String := "Cycle detected - node already visited"

def cancelMessage : String := "Execution cancelled"

namespace Run

def goTo (r : Run) (stage : Stage) : Run := { r with stage }

def close (r : Run) (e : Executor) (ending : Ending) : Executor × Turn :=
  (e.release,
    .waits (.event (.afterRun r.status r.visited e.logs.length)) (r.goTo (.closing ending)))

def conclude (r : Run) (e : Executor) : Executor × Turn :=
  let (finished, e') := e.readClock
  r.close e' (.returned ⟨r.status, r.visited, e.logs, some r.started, some finished⟩)

def noteSystem (r : Run) (e : Executor) (status : LogStatus) (message : String)
    (stage : Stage) :
    Executor × Turn :=
  let (entry, e) := e.noteSystem status message
  (e, .waits (.event (.log entry)) (r.goTo stage))

def stop (r : Run) (e : Executor) : Executor × Turn :=
  { r with status := .cancelled }.noteSystem e .skipped cancelMessage .concluding

/-- Takes a piece of work: a node reached again is noted as an error, any other is paused
for. -/
def take (r : Run) (e : Executor) (w : Work) (queue : List Work) (starts : List Node) :
    Executor × Turn :=
  if e.cancelRequested then r.stop e
  else if w.revisits then
    let (entry, e) := e.noteNode w.node w.input [] .error cycleMessage
    (e, .waits (.event (.log entry)) (r.goTo (.walking queue starts)))
  else (e, .waits .pause (r.goTo (.paused w queue starts)))

/-- Goes on with the queue, with the next start node, or to the end. -/
def walk (r : Run) (e : Executor) : List Work → List Node → Executor × Turn
  | w :: queue, starts => r.take e w queue starts
  | [], n :: starts => r.take e (Graph.seed n) [] starts
  | [], [] => r.conclude e

/-- Notes the defects, and after the last one gives up. -/
def refuse (r : Run) (e : Executor) : List Defect → Executor × Turn
  | d :: rest => r.noteSystem e .error d.message (.refusing rest)
  | [] => { r with status := .invalid }.conclude e

/-- Notes the warnings, and after the last one starts to walk or refuses. -/
def warn (r : Run) (e : Executor) : List Warning → Executor × Turn
  | w :: rest => r.noteSystem e .skipped ("Warning: " ++ w.message) (.warning rest)
  | [] => if r.plan.report.valid then r.walk e [] r.plan.starts
      else r.refuse e r.plan.report.defects

def execute (r : Run) (e : Executor) (w : Work) (queue : List Work) (starts : List Node) :
    Executor × Turn :=
  let o := executeNode w.node w.input
  let (entry, e) := e.noteNode w.node w.input o.output o.status o.message
  (e, .waits (.event (.log entry))
    { r with visited := r.visited ++ [w.node.id], stage := .noted w o queue starts })

def announce (r : Run) (e : Executor) (w : Work) (o : Outcome) (queue : List Work)
    (starts : List Node) : Executor × Turn :=
  (e, .waits (.event (.afterNode w.node.id w.node.kind o.status o.output))
    (r.goTo (.left w o queue starts)))

/-- Leaves a node: an error is announced, any other outcome queues the followers. -/
def leave (r : Run) (e : Executor) (w : Work) (o : Outcome) (queue : List Work)
    (starts : List Node) : Executor × Turn :=
  if o.status = .error then
    (e, .waits (.event (.onError w.node.id o.message)) (r.goTo (.walking queue starts)))
  else r.walk e (queue ++ r.plan.followers w o) starts

def resume (r : Run) (e : Executor) : Executor × Turn :=
  match r.stage with
  | .opened => r.warn e r.plan.report.warnings
  | .warning rest => r.warn e rest
  | .refusing rest => r.refuse e rest
  | .walking queue starts => r.walk e queue starts
  | .paused w queue starts =>
    if e.cancelRequested then r.stop e
    else (e, .waits (.event (.beforeNode w.node.id w.node.kind w.input))
      (r.goTo (.entered w queue starts)))
  | .entered w queue starts => r.execute e w queue starts
  | .noted w o queue starts => r.announce e w o queue starts
  | .left w o queue starts => r.leave e w o queue starts
  | .concluding => r.conclude e
  | .closing ending => (e, .ends ending)

/-- Breaks off at a signal: a run that is only announced or already closed just ends, any
other is closed first. -/
def breakOff (r : Run) (e : Executor) (i : Interrupt) : Executor × Turn :=
  match r.stage with
  | .opened => (e, .ends (.broken i))
  | .closing _ => (e, .ends (.broken i))
  | _ => r.close e (.broken i)

def proceed (r : Run) (e : Executor) : Reply → Executor × Turn
  | .resume => r.resume e
  | .interrupt i => r.breakOff e i

/-- Asks an executor for a run. A busy one refuses; an idle one announces the run. -/
def start (plan : Graph) (e : Executor) : Executor × Turn :=
  if e.executing then (e, .ends (.returned ⟨.busy, [], e.logs, none, none⟩))
  else
    let (started, e) := e.begin.readClock
    (e, .waits (.event (.beforeRun plan.nodes.length plan.edges.length))
      ⟨plan, started, [], .completed, .opened⟩)

/-- A run that walks from one piece of work, without checks. -/
def walkFrom (plan : Graph) (w : Work) : Run := ⟨plan, ⟨0⟩, [], .completed, .walking [w] []⟩

end Run
end Workflow
