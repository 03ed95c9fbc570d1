import Workflow.Files.Tree
import Workflow.Number.Literal
import Workflow.Text.Case
import Workflow.Text.Quoted

/-!
# Settings

The settings are read from variables. One that is missing, empty or not understood leaves its
setting at the default, and numbers are kept above their lower bounds. Only a path at a home
directory that is not known is refused.
-/

namespace Workflow

open Text

abbrev Variables := List (String × String)

namespace Variables

def filled? (vars : Variables) (name : String) : Option String :=
  (vars.lookup name).filter (· ≠ "")

def int (vars : Variables) (name : String) (default : Int) : Int :=
  match (vars.filled? name).map Number.readInt with
  | some (.ok n) => n
  | _ => default

def float (vars : Variables) (name : String) (default : Binary64) : Binary64 :=
  match (vars.filled? name).map Number.readFloat with
  | some (.ok x) => x
  | _ => default

def yesWords : List String := ["1", "true", "yes", "on"]

def noWords : List String := ["0", "false", "no", "off"]

def flag (vars : Variables) (name : String) (default : Bool) : Bool :=
  match vars.filled? name with
  | none => default
  | some s =>
    let word := lower (trim s)
    if word ∈ yesWords then true else if word ∈ noWords then false else default

end Variables

/-- What can be set. -/
structure Settings where
  /-- How many seconds a run pauses before each node. -/
  delay : Binary64
  maxLogEntries : Int
  maxHistorySize : Int
  databasePath : Files.Path
  storageKey : String
  autosave : Bool
  /-- The home directory of the user, if it is known. -/
  home : Option String
  deriving DecidableEq, Repr

namespace Settings

def default : Settings where
  delay := .ofRatio false quantaPerUnit 2
  maxLogEntries := 100
  maxHistorySize := 50
  databasePath := .ofText "data/workflow.db"
  storageKey := "workflow-autosave"
  autosave := true
  home := none

/-- A number of seconds that is not negative; the undefined number counts as zero. -/
def atLeastZero (x : Binary64) : Binary64 :=
  if (Number.int 0).lt (.float x) then x else .zero false

def ofVariables (vars : Variables) : Except Files.FileFault Settings := do
  let home := vars.lookup "HOME"
  let databasePath ← match vars.lookup "WORKFLOW_SQLITE_PATH" with
    | some s => (Files.Path.ofText s).expandHome home
    | none => pure default.databasePath
  if databasePath.hasNull then throw .nullCharacter
  let key := trim ((vars.lookup "WORKFLOW_STORAGE_KEY").getD "")
  return {
    delay := atLeastZero (vars.float "WORKFLOW_EXECUTION_DELAY_SECONDS" default.delay)
    maxLogEntries := max 1 (vars.int "WORKFLOW_MAX_LOG_ENTRIES" default.maxLogEntries)
    maxHistorySize := max 2 (vars.int "WORKFLOW_MAX_HISTORY_SIZE" default.maxHistorySize)
    databasePath
    storageKey := if key = "" then default.storageKey else key
    autosave := vars.flag "WORKFLOW_AUTOSAVE" default.autosave
    home }

/-- Makes the directory in which the database is to lie. -/
def prepare (s : Settings) (t : Files.Tree) : Except Files.FileFault Files.Tree := do
  let (made, t) := t.ensureDirectory s.databasePath.parent
  made
  return t

end Settings

/-! ## The log of the program -/

/-- How the program logs: from which level on, and the form of a record. -/
structure Logging where
  level : Nat
  /-- The level of the event loop. -/
  loopLevel : Nat
  format : String
  deriving DecidableEq, Repr

namespace Logging

def levels : List (String × Nat) := [
  ("CRITICAL", 50), ("FATAL", 50), ("ERROR", 40), ("WARNING", 30), ("WARN", 30), ("INFO", 20),
  ("DEBUG", 10), ("NOTSET", 0)]

def defaultLevel : Nat := 20

/-- The level of a name. Two names stand for something else than a level and are refused. -/
def levelOf (name : String) : Except Fault Nat :=
  if name = "BASIC_FORMAT" then .error (.unknownLevel "%(levelname)s:%(name)s:%(message)s")
  else if name = "_STYLES" then .error .wrongShape
  else .ok ((levels.lookup name).getD defaultLevel)

def ofVariables (vars : Variables) : Except Fault Logging := do
  let level ← levelOf (upper ((vars.lookup "LOG_LEVEL").getD "INFO"))
  return {
    level
    loopLevel := 30
    format := "%(asctime)s | %(levelname)s | %(name)s | %(message)s" }

end Logging
end Workflow
