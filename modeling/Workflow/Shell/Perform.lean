import Workflow.Shell.Basic
import Workflow.Shell.Command
import Workflow.Shell.Completion

/-!
# Carrying out commands

A command is answered on the screen and then the notices that wait are shown. What the model
refuses is shown as an error; any other failure breaks the command off.
-/

namespace Workflow

namespace Shell

def sayUsage (command : Command) : Act Unit := say command.usage

def readPosition? (x y : String) : Option Position :=
  match Number.readFloat x, Number.readFloat y with
  | .ok x, .ok y => some ⟨.float x, .float y⟩
  | _, _ => none

def addNode (kind : NodeKind) (position : Option Position) : Act Unit := do
  let id ← onStore (·.addNode kind.name position)
  say s!"Added {kind.name} node {id}."

/-- Adds a node of the kind named, at the coordinates if both are given. -/
def performAdd (args : List String) : Act Unit :=
  match args with
  | [] => sayUsage (.add args)
  | name :: rest =>
    match NodeKind.ofName? (Text.lower name), rest with
    | none, _ => sayUsage (.add args)
    | some kind, x :: y :: _ =>
      match readPosition? x y with
      | some p => addNode kind (some p)
      | none => say "Position must be two numbers."
    | some kind, _ => addNode kind none

def performNodes : Act Unit := do
  let sh ← get
  match Shown.nodes sh.store.graph.nodes with
  | .ok shown => showAll [shown]
  | .error f => throw (.fault f)

def performEdges : Act Unit := do
  let sh ← get
  match sh.store.graph.edges.mapM Shown.edgeLine with
  | .ok lines => showAll (Shown.items "Edges" lines)
  | .error f => throw (.fault f)

/-- Draws an edge. A rejection is left to the notices. -/
def connect (source target : String) (handle : Value) : Act Unit := do
  match ← onStore (·.connect source target handle .null) with
  | .ok id => say s!"Connected {source} -> {target} ({id})."
  | .error _ => pure ()

/-- Draws an edge between two nodes, from a branch if one is named. -/
def performConnect (args : List String) : Act Unit :=
  match args with
  | [source, target] => connect source target .null
  | [source, target, branch] =>
    let branch := Text.lower branch
    if branch = "true" ∨ branch = "false" then connect source target (.text branch)
    else sayUsage (.connect args)
  | _ => sayUsage (.connect args)

def performDisconnect (args : List String) : Act Unit := do
  match args with
  | [id] =>
    if ← withStore (·.disconnect id) then say s!"Removed edge {id}."
    else say s!"Unknown edge '{id}'."
  | _ => sayUsage (.disconnect args)

def performRemove (args : List String) : Act Unit := do
  if args.isEmpty then sayUsage (.remove args)
  else
    let count ← withStore (·.removeNodes args)
    say s!"Removed {count} node(s)."

def performLabel (args : List String) : Act Unit := do
  match args with
  | id :: label :: _ =>
    if ← withStore (·.rename id label) then say s!"Renamed {id}."
    else say s!"Unknown node '{id}'."
  | _ => sayUsage (.label args)

def performConfig (args : List String) : Act Unit := do
  match args with
  | id :: text :: _ =>
    match Document.readJson text with
    | .error f => throw (.fault f)
    | .ok (.error problem) => say (malformedMessage problem)
    | .ok (.ok (.record changes)) =>
      if ← onStore (·.configure id (.settings (.record changes))) then
        say s!"Updated config for {id}."
      else say s!"Unknown node '{id}'."
    | .ok (.ok _) => say "Config changes must be a JSON object."
  | _ => sayUsage (.config args)

def performValidate : Act Unit := do
  let report := (← get).store.report
  say (if report.valid then "Workflow is valid." else "Workflow is invalid.")
  showAll (Shown.items "Errors" (report.defects.map (·.message)))
  showAll (Shown.items "Warnings" (report.warnings.map (·.message)))

/-- Runs the workflow, unless a run is in progress, and shows its log. -/
def performRun (nested : Watched.Nested Shell) : Act Unit := do
  if (← get).store.executor.executing then say "A run is already in progress."
  else
    let r ← runIn nested
    showAll [Shown.log r.logs]
    say s!"Run {r.status.name}: {r.visited.length} node(s) executed."

def ofResult {α : Type} (r : Except Failure α) : Act α := ExceptT.mk (pure r)

def givenPath (word : String) : Act Files.Path := do
  ofResult (((Files.Path.ofText word).expandHome (← get).settings.home).mapError .file)

def performExport (args : List String) : Act Unit := do
  let path ← args.head?.mapM givenPath
  let sh ← get
  let (saved, tree) := sh.tree.saveDocument sh.store.document path
  set (sh.withTree tree)
  match saved with
  | .ok path => tell .success s!"Workflow exported to {path.text}"
  | .error (.file (.obstacle met path)) =>
    let fault : Files.FileFault := .obstacle met path
    tell .error s!"Export failed: {fault.message}"
  | .error f => throw f

def performImport (args : List String) : Act Unit := do
  match args with
  | [name] =>
    let path ← givenPath name
    match ← ofResult ((← get).tree.loadDocument path) with
    | .refused problems => showAll (Shown.items "Import failed" (problems.map (·.message)))
    | .document d =>
      match ← onStore (·.importDocument d) with
      | [] => tell .success "Workflow imported successfully"
      | problems => showAll (Shown.items "Import failed" (problems.map (·.message)))
  | _ => sayUsage (.importFrom args)

def performRuns : Act Unit := do
  match (← get).archive.listRuns Archive.defaultLimit with
  | .ok runs => showAll (Shown.items "Recent runs" (runs.map Shown.runLine))
  | .error f => throw f

def performHelp : Act Unit := do
  say "Commands"
  showAll (Command.summaries.map fun (command, summary) => .line s!"- {command}: {summary}")
  say ""

def showRefusal (act : Act Unit) : Act Unit :=
  tryCatch act fun failure =>
    match failure with
    | .fault (.model f) => say s!"Error: {f.message}"
    | f => throw f

/-- Carries out a command that neither ends the session nor starts a run. -/
def performPlain : Command → Act Unit
  | .help => performHelp
  | .add args => showRefusal (performAdd args)
  | .nodes => showRefusal performNodes
  | .edges => showRefusal performEdges
  | .connect args => showRefusal (performConnect args)
  | .disconnect args => showRefusal (performDisconnect args)
  | .remove args => showRefusal (performRemove args)
  | .label args => showRefusal (performLabel args)
  | .config args => showRefusal (performConfig args)
  | .validate => showRefusal performValidate
  | .logs => do showAll [Shown.log (← get).store.executor.logs]
  | .undo => do say (if ← withStore (·.undo) then "Undone." else "Nothing to undo.")
  | .redo => do say (if ← withStore (·.redo) then "Redone." else "Nothing to redo.")
  | .exportTo args => showRefusal (performExport args)
  | .importFrom args => showRefusal (performImport args)
  | .clear => do
    withStore fun s => ((), s.clear)
    say "Workflow cleared."
  | .runs => showRefusal performRuns
  | _ => say "Unknown command. Use /help for available commands."

/-- Carries out a line, and tells whether the session is to end. -/
def handleWith (nested : Watched.Nested Shell) (line : String) : Act Bool :=
  match Command.ofLine line with
  | .nothing => return false
  | .quit => do
    say "Goodbye."
    return true
  | .run => do
    performRun nested
    showNotices
    return false
  | command => do
    performPlain command
    showNotices
    return false

/-- How a call of a hook ends that asked for another run. -/
def callEnding {α : Type} : Except Failure α → CallEnding
  | .ok _ => .returned
  | .error (.interrupted i) => .interrupted i
  | .error _ => .raised

/-- Requests of hooks for another run: the shell carries out the line set for this, or runs
its workflow if there is none. Requests are nested up to the given depth. -/
def nestedLines : Nat → Watched.Nested Shell
  | 0 => Watched.ignoreNested
  | depth + 1 => fun e w =>
    let store := { w.state.store with executor := e }
    let sh := { w.state with store, hooks := w.hooks, putOff := w.putOff }
    let (ending, sh) := match sh.nestedLine with
      | some line => ((handleWith (nestedLines depth) line).run sh).map callEnding id
      | none => ((runIn (nestedLines depth)).run sh).map callEnding id
    (ending, sh.store.executor, { w with state := sh, hooks := sh.hooks, putOff := sh.putOff })

def nestedOf (sh : Shell) : Watched.Nested Shell := nestedLines sh.hooks.length

/-- Carries out a line, and tells whether the session is to end. -/
def handle (line : String) : Act Bool := do handleWith (nestedOf (← get)) line

/-- The options with which the root of a command is completed. -/
def options (sh : Shell) (root : String) : List String :=
  if root = "/add" then NodeKind.all.map NodeKind.name
  else if root ∈ ["/remove", "/label", "/config"] then sh.store.graph.nodes.map (·.id)
  else if root = "/disconnect" then sh.store.graph.edges.map (·.id)
  else []

def complete (sh : Shell) (typed : String) : List Completion :=
  Completion.offered Command.names sh.options typed

def footer (sh : Shell) : String :=
  let steps := (if sh.store.history.canUndo then ["undo"] else []) ++
    if sh.store.history.canRedo then ["redo"] else []
  let history := if steps.isEmpty then "no history" else "/".intercalate steps
  let nodes := sh.store.graph.nodes.length
  let edges := sh.store.graph.edges.length
  s!"{nodes} nodes | {edges} edges | {history}"

end Shell
end Workflow
