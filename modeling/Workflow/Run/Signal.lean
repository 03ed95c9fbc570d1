import Workflow.Run.Executor

/-!
# Signals of a run

A run stands still at certain points and lets its surroundings act: at each event that it
announces and during the pause before each node. Afterwards it goes on, unless it is
interrupted.
-/

namespace Workflow

/-- How a run ended. -/
inductive RunStatus
  | completed
  | invalid
  | cancelled
  | busy
  deriving DecidableEq, Repr

def RunStatus.name : RunStatus → String
  | .completed => "completed"
  | .invalid => "invalid"
  | .cancelled => "cancelled"
  | .busy => "busy"

/-- What a run announces. -/
inductive Event
  | beforeRun (nodes edges : Nat)
  | log (entry : LogEntry)
  | beforeNode (id : String) (kind : NodeKind) (input : Packet)
  | afterNode (id : String) (kind : NodeKind) (status : LogStatus) (output : Packet)
  | onError (id message : String)
  | afterRun (status : RunStatus) (visited : List String) (logs : Nat)
  deriving DecidableEq, Repr

/-- The name under which listeners register for an event. -/
def Event.name : Event → String
  | .beforeRun .. => "before_run"
  | .log _ => "log"
  | .beforeNode .. => "before_node"
  | .afterNode .. => "after_node"
  | .onError .. => "on_error"
  | .afterRun .. => "after_run"

/-- Where a run stands still. -/
inductive Signal
  | event (e : Event)
  | pause
  deriving DecidableEq, Repr

/-- What breaks off a run from outside. -/
inductive Interrupt
  | cancelled
  | keyboard
  deriving DecidableEq, Repr

/-- The answer of the surroundings to a signal. -/
inductive Reply
  | resume
  | interrupt (i : Interrupt)
  deriving DecidableEq, Repr

/-- What a run gives when it is not broken off. Times are absent when the run was refused. -/
structure RunResult where
  status : RunStatus
  visited : List String
  logs : List LogEntry
  started : Option Instant
  finished : Option Instant
  deriving DecidableEq, Repr

def RunResult.errorCount (r : RunResult) : Nat := r.logs.countP (·.status = .error)

/-- How a run comes to its end. -/
inductive Ending
  | returned (result : RunResult)
  | broken (reason : Interrupt)
  deriving DecidableEq, Repr

end Workflow
