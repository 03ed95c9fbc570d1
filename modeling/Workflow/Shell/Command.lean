import Workflow.NodeKind
import Workflow.Text.Blank
import Workflow.Text.Case

/-!
# Commands

A line is split into words. The first one, in any case, says what is to be done; the others
are its arguments. Renaming and configuring take everything behind the second word as one
argument.
-/

namespace Workflow

open Text

/-- What a line asks for. Arguments are checked when the command is carried out. -/
inductive Command
  | nothing
  | quit
  | help
  | run
  | add (args : List String)
  | nodes
  | edges
  | connect (args : List String)
  | disconnect (args : List String)
  | remove (args : List String)
  | label (args : List String)
  | config (args : List String)
  | validate
  | logs
  | undo
  | redo
  | exportTo (args : List String)
  | importFrom (args : List String)
  | clear
  | runs
  | unknown
  deriving DecidableEq, Repr

namespace Command

/-- The command of a name in lower case, given the words behind it and the line. -/
def named (name : String) (args : List String) (line : List Char) : Command :=
  match name with
  | "/quit" => .quit
  | "/help" => .help
  | "/run" => .run
  | "/add" => .add args
  | "/nodes" => .nodes
  | "/edges" => .edges
  | "/connect" => .connect args
  | "/disconnect" => .disconnect args
  | "/remove" => .remove args
  | "/label" => .label (wordsAndRest 2 line).tail
  | "/config" => .config (wordsAndRest 2 line).tail
  | "/validate" => .validate
  | "/logs" => .logs
  | "/undo" => .undo
  | "/redo" => .redo
  | "/export" => .exportTo args
  | "/import" => .importFrom args
  | "/clear" => .clear
  | "/runs" => .runs
  | _ => .unknown

def ofLine (line : String) : Command :=
  match words line with
  | [] => .nothing
  | name :: args => named (lower name) args line.toList

def names : List String := [
  "/add", "/nodes", "/edges", "/connect", "/disconnect", "/remove", "/label", "/config",
  "/validate", "/run", "/logs", "/undo", "/redo", "/export", "/import", "/clear", "/runs",
  "/quit", "/help"]

/-- The commands with their arguments, and what each does. -/
def summaries : List (String × String) := [
  ("/add <kind> [x y]", "Add a start, transform, condition, or end node"),
  ("/nodes", "List nodes and their config"),
  ("/edges", "List connections"),
  ("/connect <src> <tgt> [true|false]",
    "Connect two nodes, optionally from a condition branch"),
  ("/disconnect <edge_id>", "Remove a connection"),
  ("/remove <node_id>", "Remove a node and its connections"),
  ("/label <node_id> <text>", "Rename a node"),
  ("/config <node_id> <json>", "Merge JSON into a node's config"),
  ("/validate", "Check the workflow for errors and warnings"),
  ("/run", "Execute the workflow"),
  ("/logs", "Show the last execution log"),
  ("/undo", "Undo the last change"),
  ("/redo", "Redo the last undone change"),
  ("/export [path]", "Write the workflow to a JSON file"),
  ("/import <path>", "Replace the workflow with a JSON file"),
  ("/clear", "Remove every node and edge"),
  ("/runs", "List archived runs"),
  ("/quit", "Exit")]

def kindChoice : String := "|".intercalate (NodeKind.all.map NodeKind.name)

def usage : Command → String
  | .add _ => s!"Usage: /add <{kindChoice}> [x y]"
  | .connect _ => "Usage: /connect <source_id> <target_id> [true|false]"
  | .disconnect _ => "Usage: /disconnect <edge_id>"
  | .remove _ => "Usage: /remove <node_id> [node_id ...]"
  | .label _ => "Usage: /label <node_id> <text>"
  | .config _ => "Usage: /config <node_id> <json>"
  | .importFrom _ => "Usage: /import <path>"
  | _ => ""

end Command
end Workflow
