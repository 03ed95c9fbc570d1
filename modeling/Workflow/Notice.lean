import Workflow.Value.Equality

/-!
# Notices

Messages to the user wait in a queue until they are fetched or dismissed. Each has a number
of its own, counted from zero and never given twice.
-/

namespace Workflow

/-- How a notice is meant. -/
inductive Level
  | success
  | error
  | warning
  | info
  | other (name : String)
  deriving DecidableEq, Repr

namespace Level

def name : Level → String
  | .success => "success"
  | .error => "error"
  | .warning => "warning"
  | .info => "info"
  | .other name => name

def ofName (name : String) : Level :=
  ([success, error, warning, info].find? (·.name = name)).getD (.other name)

end Level

/-- A message to the user. -/
structure Notice where
  id : Nat
  level : Level
  message : String
  duration : Value
  deriving DecidableEq, Repr

/-- The notices that wait, and how many there have been. -/
structure NoticeQueue where
  pending : List Notice
  issued : Nat
  deriving DecidableEq, Repr

namespace NoticeQueue

def empty : NoticeQueue := ⟨[], 0⟩

/-- For how many seconds a notice is shown when nothing else is said. -/
def defaultDuration : Value := .float (Binary64.ofRatio false (3 * quantaPerUnit) 1)

def post (q : NoticeQueue) (level : Level) (message : String) (duration : Value) :
    Nat × NoticeQueue :=
  (q.issued, ⟨q.pending ++ [⟨q.issued, level, message, duration⟩], q.issued + 1⟩)

def notify (q : NoticeQueue) (level : Level) (message : String) : NoticeQueue :=
  (q.post level message defaultDuration).2

def isNumberOf (v : Value) (n : Notice) : Bool := v.equals (.int n.id)

/-- Removes the notice of a number, and tells whether there was one. -/
def dismiss (q : NoticeQueue) (id : Value) : Bool × NoticeQueue :=
  (q.pending.any (isNumberOf id), { q with pending := q.pending.eraseP (isNumberOf id) })

def drain (q : NoticeQueue) : List Notice × NoticeQueue :=
  (q.pending, { q with pending := [] })

end NoticeQueue
end Workflow
