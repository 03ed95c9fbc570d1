import Workflow.Document
import Workflow.Graph.Connection
import Workflow.Document.Exchange

/-!
# Edits

What can be asked of a store short of stepping through its history and running the workflow,
what is answered, and what is announced of it.
-/

namespace Workflow

/-- How a configuration is to be changed. -/
inductive ConfigChange
  /-- These settings are to replace those of the same names. -/
  | settings (v : Value)
  /-- This configuration is to take its place. -/
  | whole (c : Config)
  deriving DecidableEq, Repr

/-- What can be asked of a store. -/
inductive Edit
  | addNode (kindName : String) (position : Option Position)
  | moveNode (id : String) (position : Position)
  | moveNodes (moves : List (String × Position))
  | configure (id : String) (change : ConfigChange)
  | rename (id label : String)
  | removeNode (id : String)
  | removeNodes (ids : List String)
  | connect (source target : String) (sourceHandle targetHandle : Value)
  | disconnect (id : String)
  | select (id : Option String)
  | selectNodes (ids : List String)
  | selectAll
  | toggle (id : String)
  | view (viewport : Viewport)
  | clear
  | importValue (v : Value)
  | importDocument (d : Document)
  /-- The document saved last is to be imported. -/
  | restore
  | clearLogs
  | cancel
  deriving DecidableEq, Repr

/-- Why an edge is not drawn. -/
inductive Rejection
  | unknownNode
  | objection (o : Objection)
  deriving DecidableEq, Repr

def Rejection.message : Rejection → String
  | .unknownNode => "Source or target node not found"
  | .objection o => o.message

/-- What is answered to an edit. -/
inductive EditReply
  | done
  | addedNode (id : String)
  | changed (b : Bool)
  | removed (count : Nat)
  | connected (id : String)
  | rejected (rejection : Rejection)
  | imported
  | refused (problems : List ImportProblem)
  deriving DecidableEq, Repr

/-- What was done to a store. -/
inductive Action
  | addNode (id : String)
  | moveNodes
  | configure (id : String)
  | rename (id : String)
  | removeNodes (ids : List String)
  | addEdge (id : String)
  | removeEdge (id : String)
  | clear
  | importDocument
  | undo
  | redo
  deriving DecidableEq, Repr

namespace Action

def name : Action → String
  | .addNode _ => "add_node"
  | .moveNodes => "update_node_positions"
  | .configure _ => "update_node_config"
  | .rename _ => "update_node_label"
  | .removeNodes _ => "remove_nodes"
  | .addEdge _ => "add_edge"
  | .removeEdge _ => "remove_edge"
  | .clear => "clear_workflow"
  | .importDocument => "import_workflow"
  | .undo => "undo"
  | .redo => "redo"

def fromHistory : Action → Bool
  | .undo | .redo => true
  | _ => false

def details : Action → Record
  | .addNode id | .configure id | .rename id => [("node_id", .text id)]
  | .removeNodes ids => [("node_ids", .list (ids.map .text))]
  | .addEdge id | .removeEdge id => [("edge_id", .text id)]
  | _ => []

end Action

/-- The announcement of an action: the document after it. -/
structure Change where
  action : Action
  document : Document
  deriving DecidableEq, Repr

/-- What listens to the changes of a store. -/
inductive ChangeListener
  /-- Saves the document of every change that is not a step through the history. -/
  | autosave
  /-- Makes edits at a step through the history, and may raise. -/
  | observer (edits : List Edit) (raises : Bool)
  deriving DecidableEq, Repr

end Workflow
