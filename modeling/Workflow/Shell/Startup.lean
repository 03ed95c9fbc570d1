import Workflow.Shell.Session

/-!
# Starting the program

The arguments of the program choose between a session and the check or run of one document.
The first argument that is no flag names the document.
-/

namespace Workflow

/-- What the program is asked for. -/
inductive Startup
  | session (document : Option Files.Path)
  | check (document : Files.Path)
  | run (document : Files.Path)
  deriving DecidableEq, Repr

namespace Startup

def isFlag (arg : String) : Bool := arg.toList.take 2 = ['-', '-']

/-- Reads the arguments. A check goes before a run, and neither is done without a
document. -/
def ofArgs (args : List String) : Startup :=
  match (args.filter (!isFlag ·)).head?.map Files.Path.ofText with
  | none => .session none
  | some document =>
    if "--validate" ∈ args then .check document
    else if "--run" ∈ args then .run document
    else .session (some document)

end Startup

namespace Shell

/-- Starts the shell of the program in a tree of files. -/
def ofVariables (vars : Variables) (tree : Files.Tree) (tables : Tables) :
    Except Failure Shell := do
  let _ ← orFailure (Logging.ofVariables vars)
  let settings ← (Settings.ofVariables vars).mapError .file
  let tree ← (settings.prepare tree).mapError .file
  start settings tree tables 0 0

def farewell : String := "\nInterrupted. Goodbye."

/-- Shows the farewell when the session is interrupted. -/
def orFarewell (act : Act Unit) : Act Unit :=
  tryCatch act fun failure =>
    match failure with
    | .interrupted .keyboard => say farewell
    | f => throw f

/-- Does what the program is asked for, and gives the exit code if there is one. -/
def invoke (startup : Startup) (inputs : List Input) : Act (Option Nat) :=
  match startup with
  | .check document => some <$> runFile document true
  | .run document => some <$> runFile document false
  | .session document => do
    orFarewell (discard (session document inputs))
    return none

end Shell
end Workflow
