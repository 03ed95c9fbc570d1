import Workflow.Archive.Backup
import Workflow.Shell.Startup

/-!
# The program

The outermost layer: it reads variables, files and lines, lets a shell do its work, and
writes what the shell shows and changes. Files come into the tree of the shell when a line
names them and go out when the shell has changed them. The tables of the archive are kept as
a backup in the file of the database.
-/

namespace Workflow.Program

def variableNames : List String := [
  "LOG_LEVEL", "WORKFLOW_EXECUTION_DELAY_SECONDS", "WORKFLOW_MAX_LOG_ENTRIES",
  "WORKFLOW_MAX_HISTORY_SIZE", "WORKFLOW_SQLITE_PATH", "WORKFLOW_STORAGE_KEY",
  "WORKFLOW_AUTOSAVE", "HOME"]

def readVariables : IO Variables := do
  let mut vars : Variables := []
  for name in variableNames do
    match ← IO.getEnv name with
    | some s => vars := vars ++ [(name, s)]
    | none => pure ()
  return vars

def readFile? (name : String) : IO (Option ByteArray) := do
  try
    return some (← IO.FS.readBinFile name)
  catch _ => return none

def readText? (name : String) : IO (Option String) := do
  return (← readFile? name).bind String.fromUTF8?

/-- Writes a file and the directories on the way to it. -/
def writeFile (path : Files.Path) (bytes : ByteArray) : IO Unit := do
  IO.FS.createDirAll path.parent.text
  IO.FS.writeBinFile path.text bytes

def bringIn (tree : Files.Tree) (names : List String) : IO Files.Tree := do
  let mut tree := tree
  for name in names do
    match ← readFile? name with
    | none => pure ()
    | some bytes => tree := (tree.place (.ofText name) bytes.toList).2
  return tree

/-- Writes the files in which the second tree differs from the first, apart from a
database. -/
def bringOut (before after : Files.Tree) : IO Unit := do
  for (place, entry) in after.entries do
    if entry = .file Files.databaseHead ∨ before.entries.lookup place = some entry then continue
    match entry with
    | .file bytes => writeFile ⟨"", place⟩ ⟨bytes.toArray⟩
    | .directory => IO.FS.createDirAll (Files.Path.text ⟨"", place⟩)

/-- The file of the database that a path stands for, if there is one. -/
def databaseFile? (path : Files.Path) : Option Files.Path :=
  match Address.ofPath path with
  | .ok a => a.path?
  | .error _ => none

/-- Writes the backup of a shell, as long as its tables can be used. -/
def saveBackup (sh : Shell) : IO Unit := do
  let some file := databaseFile? sh.settings.databasePath | return
  if sh.tables.state ≠ .usable then return
  match Json.write .oneLine (Backup.toValue ⟨sh.tables, sh.store.issued⟩) with
  | .ok s => writeFile file s.toUTF8
  | .error _ => pure ()

def flushScreen (sh : Shell) : IO Shell := do
  let output ← IO.getStdout
  for piece in sh.screen do
    output.putStr piece.render
  output.flush
  return { sh with screen := [] }

/-- The value of a result. A failure ends the program. -/
def orEnd {α : Type} : Except Failure α → IO α
  | .ok v => return v
  | .error f => throw (IO.userError f.message)

/-- Lets a shell act, with the files of these names at hand. A failure ends the program. -/
def act {α : Type} (names : List String) (a : Act α) (sh : Shell) : IO (α × Shell) := do
  let tree ← bringIn sh.tree names
  let (result, after) := a.run { sh with tree }
  bringOut tree after.tree
  saveBackup after
  let after ← flushScreen after
  return (← orEnd result, after)

partial def converse (sh : Shell) : IO Unit := do
  let ((), sh) ← act [] (Shell.showAll [.prompt Shell.promptText]) sh
  let line ← (← IO.getStdin).getLine
  let input : Input := if line.isEmpty then .finish else .line line
  let (done, sh) ← act (Text.words line) (Shell.take input) sh
  if !done then converse sh

/-- The backup in a file, and the tree that a shell is to find it in. A file that is no
backup stays in the tree, so that the shell refuses it. -/
def readBackup (path : Files.Path) : IO (Backup × Files.Tree) := do
  let some file := databaseFile? path | return (.empty, .empty)
  let found ← bringIn .empty [file.text]
  match (← readText? file.text).bind Backup.ofText? with
  | some backup => return (backup, (Files.Tree.empty.place file Files.databaseHead).2)
  | none => return (.empty, found)

def start (vars : Variables) : IO Shell := do
  let settings ← orEnd ((Settings.ofVariables vars).mapError .file)
  let (backup, tree) ← readBackup settings.databasePath
  let sh ← orEnd (Shell.ofVariables vars tree backup.tables)
  return { sh with store := { sh.store with issued := backup.issued } }

/-- Does what the arguments ask for and gives the exit code. -/
def run (args : List String) : IO UInt32 := do
  let sh ← start (← readVariables)
  match Startup.ofArgs args with
  | .session initial =>
    let ((), sh) ← act args (Shell.beginSession initial) sh
    converse sh
    return 0
  | startup =>
    let (code, _) ← act args (Shell.invoke startup []) sh
    return (code.getD 0).toUInt32

end Workflow.Program

def main (args : List String) : IO UInt32 := Workflow.Program.run args
