import Workflow.Shell.Perform

/-!
# Sessions

A session asks for lines and carries them out until one of them, or the end of the input,
ends it. A document can also be run or checked without a session, which gives an exit code.
-/

namespace Workflow

/-- What a session gets when it asks for a line. -/
inductive Input
  | line (text : String)
  | finish
  | interrupt
  /-- A run is started aside and interrupted at its first pause. -/
  | interruptRun
  deriving DecidableEq, Repr

namespace Shell

def sayUnloadable (path : Files.Path) (problems : List ImportProblem) : Act Unit :=
  showAll (Shown.items s!"Could not load {path.text}" (problems.map (·.message)))

/-- Loads a document from a file, and tells whether that succeeded. -/
def loadDocument (path : Files.Path) : Act Bool := do
  match ← ofResult ((← get).tree.loadDocument path) with
  | .refused problems =>
    sayUnloadable path problems
    return false
  | .document d =>
    let problems ← onStore (·.importDocument d)
    if !problems.isEmpty then sayUnloadable path problems
    let _ ← fetchNotices
    return problems.isEmpty

def checkCode (report : Report) : Nat := if report.valid then 0 else 1

def runCode (r : RunResult) : Nat :=
  if r.status = .completed ∧ r.errorCount = 0 then 0 else 1

/-- Loads a document and checks or runs it, and gives the exit code. -/
def runFile (path : Files.Path) (validateOnly : Bool) : Act Nat := do
  if !(← loadDocument path) then return 2
  if validateOnly then
    performValidate
    return checkCode (← get).store.report
  let r ← runIn (nestedOf (← get))
  showAll [Shown.log r.logs]
  showNotices
  return runCode r

def welcome : Act Unit := do
  let sh ← get
  let nodes := sh.store.graph.nodes.length
  let edges := sh.store.graph.edges.length
  showAll (Shown.box [
    "Workflow Studio v0.1",
    s!"Store: {sh.settings.databasePath.text}",
    s!"Nodes: {nodes}  Edges: {edges}"])
  say "Type /help for commands."
  say ""

/-- Begins a session with a document, or else with the one saved last. -/
def beginSession (initial : Option Files.Path) : Act Unit := do
  match initial with
  | some path =>
    let _ ← loadDocument path
    welcome
  | none =>
    if ← onStore (·.restore) then
      let _ ← fetchNotices
      say "Restored autosaved workflow."
    welcome

def promptText : String := "• "

/-- Carries out a line of a session. A command that is broken off by a cancellation does not
end the session. -/
def handleLine (text : String) : Act Bool := do
  let line := Text.trim text
  if line = "" then return false
  if line.toList.head? ≠ some '/' then
    say "Commands start with '/'. Use /help for available commands."
    return false
  tryCatch (handle line) fun failure => do
    match failure with
    | .interrupted .cancelled =>
      withStore fun s => ((), { s with executor := s.executor.cancel })
      say "Command was interrupted. You can continue."
      return false
    | f => throw f

/-- Runs the workflow aside until it is interrupted at its first pause. Its result shows
nowhere, but the session waits for its end before it asks again, and a failure of the run
ends the session. What was put off before is over when the run begins, and what its hooks put
off is over with the run unless it went without a pause. -/
def runAside : Act Unit := do
  modify fun sh => { sh with putOff := ⟨false, true⟩ }
  discard (runIn (nestedOf (← get)))
  modify fun sh => { sh with putOff := ⟨sh.putOff.cancel && sh.putOff.interrupt, false⟩ }

/-- Takes one input, and tells whether the session is to end. -/
def take : Input → Act Bool
  | .line text => handleLine text
  | .finish => do
    say "Goodbye."
    return true
  | .interrupt => do
    withStore fun s => ((), { s with executor := s.executor.cancel })
    return false
  | .interruptRun => do
    runAside
    return false

/-- Asks for inputs until the session ends, at the latest when there are none left, and gives
how many are left. -/
def converse : List Input → Act Nat
  | [] => do
    showAll [.prompt promptText]
    let _ ← take .finish
    return 0
  | input :: rest => do
    showAll [.prompt promptText]
    if ← take input then return rest.length
    converse rest

def session (initial : Option Files.Path) (inputs : List Input) : Act Nat := do
  beginSession initial
  converse inputs

end Shell
end Workflow
