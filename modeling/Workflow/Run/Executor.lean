import Workflow.Execution.Outcome
import Workflow.Run.Instant
import Workflow.Value.Quantity

/-!
# Executors

An executor runs one workflow at a time. It keeps the latest entries of its log up to its
capacity, the flag that a run is in progress, the wish to cancel it, and the readings of its
clock.
-/

namespace Workflow

/-- What a run notes about one of its steps. -/
structure LogEntry where
  nodeId : String
  nodeName : String
  kind : NodeKind
  input : Packet
  output : Packet
  time : Instant
  status : LogStatus
  message : String
  deriving DecidableEq, Repr

/-- The identity under which a run notes what concerns no node. -/
def systemId : String := "system"

/-- The last items of a list, at most as many as the bound. -/
def keepLast {α : Type} (bound : Nat) (items : List α) : List α :=
  items.drop (items.length - bound)

/-- The state of an executor. Without a capacity every entry is kept. -/
structure Executor where
  capacity : Option Nat
  logs : List LogEntry
  executing : Bool
  cancelRequested : Bool
  clock : Nat
  deriving DecidableEq, Repr

namespace Executor

def idle (capacity : Option Nat) (clock : Nat) : Executor :=
  ⟨capacity, [], false, false, clock⟩

def maxCapacity : Nat := Nat.pow 2 63 - 1

/-- An idle executor with the capacity a user asks for, which is at least one. -/
def ofCapacity (asked : Int) (clock : Nat) : Except Fault Executor :=
  let capacity := (max 1 asked).toNat
  if capacity ≤ maxCapacity then .ok (idle (some capacity) clock) else .error .boundTooLarge

def defaultCapacity : Int := 100

/-- An idle executor with the pause before each node and the capacity given as values. The
pause only has to be a duration: how long it is shows nowhere. -/
def ofSettings (pause capacity : Value) (clock : Nat) : Except Fault Executor := do
  let _ ← pause.toBinary64
  ofCapacity (← capacity.toInteger) clock

def readClock (e : Executor) : Instant × Executor :=
  (⟨e.clock + 1⟩, { e with clock := e.clock + 1 })

def keep (e : Executor) (entries : List LogEntry) : List LogEntry :=
  match e.capacity with
  | some bound => keepLast bound entries
  | none => entries

/-- Appends an entry to the log; the oldest one goes when the log is full. -/
def append (e : Executor) (entry : LogEntry) : Executor :=
  { e with logs := e.keep (e.logs ++ [entry]) }

def clearLogs (e : Executor) : Executor := { e with logs := [] }

def cancel (e : Executor) : Executor :=
  if e.executing then { e with cancelRequested := true } else e

def begin (e : Executor) : Executor :=
  { e with logs := [], executing := true, cancelRequested := false }

def release (e : Executor) : Executor :=
  { e with executing := false, cancelRequested := false }

def noteNode (e : Executor) (n : Node) (input output : Packet) (status : LogStatus)
    (message : String) : LogEntry × Executor :=
  let (time, e) := e.readClock
  let entry : LogEntry := ⟨n.id, n.label, n.kind, input, output, time, status, message⟩
  (entry, e.append entry)

def noteSystem (e : Executor) (status : LogStatus) (message : String) :
    LogEntry × Executor :=
  let (time, e) := e.readClock
  let entry : LogEntry := ⟨systemId, "System", .start, [], [], time, status, message⟩
  (entry, e.append entry)

end Executor
end Workflow
