import Workflow.Failure
import Workflow.Number.Basic
import Workflow.Text.Digit

/-!
# Tables

What is kept between sessions: a slot for a document under each key, and the runs recorded
under each key. Every access fails while the tables are absent or what lies in their place is
no database. No two runs have one name.
-/

namespace Workflow

/-- A recorded run. Its log is kept as text. -/
structure RunRow where
  id : String
  key : String
  status : String
  log : String
  entries : Nat
  errors : Nat
  started : String
  finished : Option String
  deriving DecidableEq, Repr

/-- What an access to tables finds. -/
inductive TableState
  | usable
  /-- There are no tables. -/
  | absent
  /-- What lies in the place of the tables is no database. -/
  | damaged
  deriving DecidableEq, Repr

/-- The slots and the runs in the order in which they were recorded, and how many runs were
given a name. -/
structure Tables where
  slots : List (String × String)
  runs : List RunRow
  named : Nat
  state : TableState
  deriving DecidableEq, Repr

namespace Tables

def empty : Tables := ⟨[], [], 0, .usable⟩

/-- The tables when all rows were lost. The names given to runs stay used. -/
def lost (t : Tables) (state : TableState) : Tables :=
  { t with slots := [], runs := [], state }

def slotTable : String := "workflow_autosave"

def runTable : String := "workflow_runs"

def runColumn : String := runTable ++ ".run_id"

/-- What an access to a table gives, which fails unless the tables can be used. -/
def access {α : Type} (t : Tables) (table : String) (result : Except Failure α) :
    Except Failure α :=
  match t.state with
  | .usable => result
  | .absent => .error (.missingTable table)
  | .damaged => .error .notADatabase

def create (t : Tables) : Except Failure Tables :=
  match t.state with
  | .usable => .ok t
  | .absent => .ok (t.lost .usable)
  | .damaged => .error .notADatabase

def drop (t : Tables) : Except Failure Tables :=
  match t.state with
  | .damaged => .error .notADatabase
  | _ => .ok (t.lost .absent)

/-! ## Slots -/

def slot? (t : Tables) (key : String) : Except Failure (Option String) :=
  t.access slotTable (.ok (t.slots.lookup key))

def putSlot (t : Tables) (key text : String) : Except Failure Tables :=
  t.access slotTable (.ok { t with slots := (key, text) :: t.slots.filter (·.1 ≠ key) })

def clearSlot (t : Tables) (key : String) : Except Failure Tables :=
  t.access slotTable (.ok { t with slots := t.slots.filter (·.1 ≠ key) })

/-! ## Runs -/

def runName (n : Nat) : String :=
  "run-00000000-0000-0000-0000-" ++ String.ofList (Text.hexDigits 12 n)

def nextName (t : Tables) : String × Tables :=
  (runName (t.named + 1), { t with named := t.named + 1 })

def addRun (t : Tables) (row : RunRow) : Except Failure Tables :=
  t.access runTable <|
    if t.runs.any (·.id = row.id) then .error (.duplicateKey runColumn)
    else .ok { t with runs := t.runs ++ [row] }

def run? (t : Tables) (id : String) : Except Failure (Option RunRow) :=
  t.access runTable (.ok (t.runs.find? (·.id = id)))

/-- Whether the first run is listed no later than the second: the later start goes first. -/
def precedes (a b : RunRow) : Bool := !(a.started < b.started : Bool)

/-- The first number that is too large for the database. -/
def countEnd : Int := Int.ofNat (Nat.pow 2 63)

/-- The number of rows a limit asks for, which is at least one. -/
def rowCount : Number → Except Failure Nat
  | .int n => if n < countEnd then .ok (max 1 n).toNat else .error .numberTooLarge
  | .float x =>
    if (Number.int 1).lt (.float x) then
      match x.toInt? with
      | some n => if n < countEnd then .ok n.toNat else .error .mistypedLimit
      | none => .error .mistypedLimit
    else .ok 1

/-- The runs under a key, latest start first, at most as many as the limit. -/
def listRuns (t : Tables) (key : String) (limit : Number) : Except Failure (List RunRow) :=
  t.access runTable do
    let count ← rowCount limit
    return ((t.runs.filter (·.key = key)).mergeSort precedes).take count

end Tables
end Workflow
