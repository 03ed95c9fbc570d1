import Workflow.Check.Gate
import Workflow.Files.Path
import Workflow.Json.Writer

/-!
# Documents as text

A document is written as indented JSON for exchange and on one line for storage. What is read
back passes the gate first, so that a refusal names every problem.
-/

namespace Workflow

/-- Why a document is refused. -/
inductive ImportProblem
  | unreadable (obstacle : Files.Obstacle) (path : Files.Path)
  | malformed (problem : Json.Problem)
  | complaint (complaint : Complaint)
  | fault (fault : Fault)
  deriving DecidableEq, Repr

def malformedMessage (problem : Json.Problem) : String := "Invalid JSON: " ++ problem.message

def ImportProblem.message : ImportProblem → String
  | .unreadable obstacle path =>
    let fault : Files.FileFault := .obstacle obstacle path
    s!"Could not read {path.text}: {fault.message}"
  | .malformed problem => malformedMessage problem
  | .complaint c => c.message
  | .fault f => f.message

/-- What an import gives. -/
inductive Imported
  | document (d : Document)
  | refused (problems : List ImportProblem)
  deriving DecidableEq, Repr

namespace Document

def write (layout : Json.Layout) (d : Document) : Except Fault String :=
  Json.write layout d.toValue

/-- Reads a value that must pass the gate. A tolerated fault met behind the gate refuses the
document; any other stops the import. -/
def importValue (tolerates : Fault → Bool) (v : Value) : Except Fault Imported := do
  match ← checkDocument v with
  | [] =>
    match Document.ofValue v with
    | .ok d => return .document d
    | .error f => if tolerates f then return .refused [.fault f] else .error f
  | complaints => return .refused (complaints.map .complaint)

/-- Reads JSON as a value; a limit of the reader that is met is a fault. -/
def readJson (text : String) : Except Fault (Except Json.Problem Value) :=
  match Json.read text with
  | .ok v => .ok (.ok v)
  | .error (.malformed problem _) => .ok (.error problem)
  | .error (.fault f) => .error f

def importText (text : String) : Except Fault Imported := do
  match ← readJson text with
  | .ok v => importValue Fault.isModel v
  | .error problem => return .refused [.malformed problem]

end Document
end Workflow
