import Workflow.Archive.Files
import Workflow.Settings
import Workflow.Shell.Screen
import Workflow.Store.Execute

/-!
# Shells

A shell works on a store and on the files around it, and shows what it does. It has an
archive and a queue of notices of its own, which take the place of those its store lacks. The
archive lies in a file that can be overwritten like any other. Hooks act in the runs the
shell starts.
-/

namespace Workflow

structure Shell where
  settings : Settings
  store : Store
  ownArchive : Archive
  ownNotices : NoticeQueue
  tree : Files.Tree
  screen : List Shown
  hooks : List Hook
  /-- What waits for the next pause of a run. -/
  putOff : PutOff
  /-- The line that a hook gives to the shell when it asks for another run. -/
  nestedLine : Option String
  deriving DecidableEq, Repr

/-- An activity of a shell. What was done and shown before a failure stays. -/
abbrev Act (α : Type) := ExceptT Failure (StateM Shell) α

namespace Shell

def archive (sh : Shell) : Archive := sh.store.archive.getD sh.ownArchive

def tables (sh : Shell) : Tables := sh.archive.tables

/-- The tree of files and the tables found when a shell opens its database. -/
def openDatabase (settings : Settings) (tree : Files.Tree) (tables : Tables) :
    Except Failure (Files.Tree × Archive) := do
  let (tree, tables) ← tree.openDatabase settings.databasePath tables
  return (tree, .ofTables tables settings.storageKey)

/-- Starts a shell whose store uses its archive and its queue, under the settings. Clock and
identities go on from where they are. -/
def start (settings : Settings) (tree : Files.Tree) (tables : Tables) (clock issued : Nat) :
    Except Failure Shell := do
  let (tree, archive) ← openDatabase settings tree tables
  let executor ← orFailure (Executor.ofCapacity settings.maxLogEntries clock)
  let store := Store.create executor (History.ofCap settings.maxHistorySize) (some archive)
    (some .empty) [] settings.autosave issued
  return ⟨settings, store, archive, .empty, tree, [], [], .nothing, none⟩

def startOn (store : Store) (settings : Settings) (tree : Files.Tree) (tables : Tables) :
    Except Failure Shell := do
  let (tree, archive) ← openDatabase settings tree tables
  return ⟨settings, store, archive, .empty, tree, [], [], .nothing, none⟩

/-- The shell with an empty screen and other hooks, where nothing is put off. -/
def withHooks (sh : Shell) (hooks : List Hook) (nestedLine : Option String) : Shell :=
  { sh with screen := [], hooks, putOff := .nothing, nestedLine }

/-- The archive with what is left of its tables when files were written. -/
def reopened (sh : Shell) (tree : Files.Tree) (a : Archive) : Archive :=
  { a with tables := tree.inspectDatabase sh.settings.databasePath a.tables }

def withTree (sh : Shell) (tree : Files.Tree) : Shell :=
  { sh with
    tree
    store := { sh.store with archive := sh.store.archive.map (sh.reopened tree) }
    ownArchive := sh.reopened tree sh.ownArchive }

/-! ## Steps of an activity -/

def showAll (l : List Shown) : Act Unit :=
  modify fun sh => { sh with screen := sh.screen ++ l }

def say (s : String) : Act Unit := showAll [.line s]

def onStore {α : Type} (f : Store → Except Failure α × Store) : Act α :=
  ExceptT.mk fun sh =>
    let (result, store) := f sh.store
    (result, { sh with store })

def withStore {α : Type} (f : Store → α × Store) : Act α :=
  onStore fun s => (f s).map .ok id

def tell (level : Level) (message : String) : Act Unit := do
  let sh ← get
  match sh.store.notices with
  | some _ => onStore (·.notify level message)
  | none => set { sh with ownNotices := sh.ownNotices.notify level message }

def fetchNotices : Act (List Notice) := do
  let sh ← get
  match sh.store.notices with
  | some _ => withStore (·.drainNotices)
  | none =>
    set { sh with ownNotices := sh.ownNotices.drain.2 }
    return sh.ownNotices.pending

def showNotices : Act Unit := do
  let waiting ← fetchNotices
  showAll (waiting.map Shown.noticeLine)

/-- Runs the workflow of the store, with requests of hooks for other runs. -/
def runIn (nested : Watched.Nested Shell) : Act RunResult :=
  ExceptT.mk fun sh =>
    let env := Watched.environment nested
    let watched : Watched Shell := ⟨sh.hooks, sh.putOff, [], [], sh⟩
    match env.run sh.store.graph sh.store.executor watched with
    | (.broken i, e, w) =>
      let store := { w.state.store with executor := e }
      (.error (.interrupted i), { w.state with store, hooks := w.hooks, putOff := w.putOff })
    | (.returned r, e, w) =>
      let (settled, store) := Store.settle { w.state.store with executor := e } r
      (settled.map fun _ => r, { w.state with store, hooks := w.hooks, putOff := w.putOff })

end Shell
end Workflow
