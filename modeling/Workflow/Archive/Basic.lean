import Workflow.Archive.Tables
import Workflow.Document.Exchange
import Workflow.Failure
import Workflow.Run.Entry

/-!
# The archive

An archive keeps the latest document of a workflow in the slot of its key, and the runs made
under this key with their logs. Saving and clearing never fail: a save that does not succeed
says so. Recording and reading runs fails when the tables cannot be used.
-/

namespace Workflow

/-- The tables seen under one key, and whether a document was saved there since the key was
last cleared. -/
structure Archive where
  tables : Tables
  key : String
  saved : Bool
  deriving DecidableEq, Repr

/-- What a list of runs shows of each. -/
structure RunSummary where
  id : String
  status : String
  entries : Nat
  errors : Nat
  started : String
  finished : Option String
  deriving DecidableEq, Repr

def RunRow.summary (r : RunRow) : RunSummary :=
  ⟨r.id, r.status, r.entries, r.errors, r.started, r.finished⟩

namespace Archive

def defaultKey : String := "workflow-autosave"

def ofTables (tables : Tables) (key : String) : Archive := ⟨tables, key, false⟩

/-! ## The slot -/

/-- Saves a document in the slot, and tells whether that succeeded. -/
def save (a : Archive) (d : Document) : Bool × Archive :=
  match d.write .oneLine with
  | .error _ => (false, a)
  | .ok text =>
    match a.tables.putSlot a.key text with
    | .error _ => (false, a)
    | .ok tables => (true, { a with tables, saved := true })

/-- The document in the slot, if there is one that passes the gate. -/
def load (a : Archive) : Except Fault (Option Document) :=
  match a.tables.slot? a.key with
  | .ok (some text) => do
    match ← Document.importText text with
    | .document d => return some d
    | .refused _ => return none
  | _ => .ok none

def clear (a : Archive) : Archive :=
  match a.tables.clearSlot a.key with
  | .error _ => a
  | .ok tables => { a with tables, saved := false }

/-! ## Runs -/

def writeLog (entries : List StoredEntry) : Except Fault String := do
  Json.write .oneLine (.list (← entries.mapM StoredEntry.toValue))

def recordRunAs (a : Archive) (id : String) (entries : List StoredEntry)
    (status started : String) (finished : Option String) : Except Failure String × Archive :=
  match writeLog entries with
  | .error f => (.error (.fault f), a)
  | .ok log =>
    let row : RunRow :=
      ⟨id, a.key, status, log, entries.length, entries.countP (·.isError), started, finished⟩
    match a.tables.addRun row with
    | .error f => (.error f, a)
    | .ok tables => (.ok id, { a with tables })

/-- Records a run under the next name. A name is used up even when the recording fails. -/
def recordRun (a : Archive) (entries : List StoredEntry) (status started : String)
    (finished : Option String) : Except Failure String × Archive :=
  let (id, tables) := a.tables.nextName
  recordRunAs { a with tables } id entries status started finished

/-- The number of runs listed when no limit is asked for. -/
def defaultLimit : Number := .int 20

/-- The latest runs under the key, at least one if there is any. -/
def listRuns (a : Archive) (limit : Number) : Except Failure (List RunSummary) := do
  return (← a.tables.listRuns a.key limit).map (·.summary)

/-- The entries in the text of a log; what is no record is passed over. -/
def readLog (text : String) : Except Failure (List StoredEntry) :=
  match Json.read text with
  | .error (.malformed problem left) => .error (.malformed (Json.describe text problem left))
  | .error (.fault f) => .error (.fault f)
  | .ok v => orFailure do
    let items ← Document.itemsOf v
    (items.filter (·.asRecord?.isSome)).mapM StoredEntry.ofValue

def loadRun (a : Archive) (id : String) : Except Failure (Option (List StoredEntry)) := do
  match ← a.tables.run? id with
  | none => return none
  | some row => return some (← readLog row.log)

end Archive
end Workflow
