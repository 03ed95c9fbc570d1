import Workflow.Archive.Basic
import Workflow.Notice

/-!
# The screen

What a shell shows: lines, tables and prompts, one after another.
-/

namespace Workflow

/-- A table: its title, the heads of its columns, and its rows. -/
structure Table where
  title : String
  columns : List String
  rows : List (List String)
  deriving DecidableEq, Repr

/-- A piece of what is shown. -/
inductive Shown
  | line (text : String)
  | table (t : Table)
  | prompt (text : String)
  deriving DecidableEq, Repr

namespace Shown

def clock (t : Instant) : String := String.ofList ((t.text.toList.drop 11).take 8)

def logRow (e : LogEntry) : List String :=
  [clock e.time, e.nodeName, e.kind.name, e.status.name, e.message]

/-- A log, as a table or as the line that says there is none. -/
def log (entries : List LogEntry) : Shown :=
  if entries.isEmpty then .line "No execution logs yet. Use /run to execute the workflow."
  else .table {
    title := s!"Execution log ({entries.length} entries)"
    columns := ["Time", "Node", "Type", "Status", "Message"]
    rows := entries.map logRow }

def nodeRow (n : Node) : Except Fault (List String) := do
  let config ← Json.write .oneLine (.record ((n.config.map Config.toRecord).getD []))
  return [n.id, n.kind.label, n.label, config]

/-- The nodes, as a table or as the line that says there are none. -/
def nodes (l : List Node) : Except Fault Shown :=
  if l.isEmpty then .ok (.line "No nodes. Use /add <kind> to create one.")
  else do
    let rows ← l.mapM nodeRow
    return .table ⟨s!"Nodes ({l.length})", ["ID", "Type", "Label", "Config"], rows⟩

/-- A list under a title, with an empty line behind it. -/
def items (title : String) (l : List String) : List Shown :=
  let body := if l.isEmpty then ["(none)"] else l
  .line title :: body.map (fun s => .line s!"- {s}") ++ [.line ""]

def edgeLine (e : Edge) : Except Fault String := do
  let branch ← if e.sourceHandle.isFilled then do
      let handle ← e.sourceHandle.toText
      pure s!" [{handle}]"
    else pure ""
  return s!"{e.id}: {e.source}{branch} -> {e.target}"

def runLine (r : RunSummary) : String :=
  s!"{r.id} | {r.status} | {r.entries} entries, {r.errors} errors | {r.started}"

def noticeLine (n : Notice) : Shown := .line s!"[{n.level.name}] {n.message}"

def box (lines : List String) : List Shown :=
  let width := (lines.map String.length).foldl max 0 + 2
  let rule := String.ofList (List.replicate width '─')
  let fill (s : String) := s ++ String.ofList (List.replicate (width - s.length) ' ')
  .line ("┌" ++ rule ++ "┐") :: lines.map (fun s => .line ("│" ++ fill s ++ "│")) ++
    [.line ("└" ++ rule ++ "┘")]

def widths (rows : List (List String)) : List Nat :=
  rows.foldl (fun acc row =>
    List.zipWithAll (fun w cell => max (w.getD 0) ((cell.map String.length).getD 0)) acc row) []

/-- A row with its cells in columns of the given widths. -/
def alignedRow (widths : List Nat) (row : List String) : String :=
  let cells := List.zipWith (fun width (cell : String) =>
    cell ++ String.ofList (List.replicate (width - cell.length) ' ')) widths row
  "  ".intercalate cells

def render : Shown → String
  | .line text => text ++ "\n"
  | .prompt text => text
  | .table t =>
    let rows := t.columns :: t.rows
    "\n".intercalate (t.title :: rows.map (alignedRow (widths rows))) ++ "\n"

end Shown
end Workflow
