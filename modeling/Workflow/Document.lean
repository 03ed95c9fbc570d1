import Workflow.Edge
import Workflow.Node.Basic

/-!
# Documents

A workflow as it is stored and exchanged: its nodes, its edges, and the part of the canvas
that is in view.
-/

namespace Workflow

/-- The part of the canvas in view. Its settings are kept whatever their shape. -/
structure Viewport where
  x : Value
  y : Value
  zoom : Value
  deriving DecidableEq, Repr

namespace Viewport

def initial : Viewport where
  x := .float (.zero false)
  y := .float (.zero false)
  zoom := .float (.ofRatio false quantaPerUnit 1)

def toValue (w : Viewport) : Value := .record [("x", w.x), ("y", w.y), ("zoom", w.zoom)]

/-- Reads a view from its record; missing settings are those of a new workflow. -/
def ofRecord (r : Record) : Viewport where
  x := Record.getD r "x" initial.x
  y := Record.getD r "y" initial.y
  zoom := Record.getD r "zoom" initial.zoom

end Viewport

/-- A workflow as it is stored. -/
structure Document where
  nodes : List Node
  edges : List Edge
  viewport : Option Viewport
  deriving DecidableEq, Repr

namespace Document

def empty : Document := ⟨[], [], none⟩

def toValue (d : Document) : Value :=
  .record <|
    [("nodes", .list (d.nodes.map Node.toValue)), ("edges", .list (d.edges.map Edge.toValue))] ++
    match d.viewport with
    | some w => [("viewport", w.toValue)]
    | none => []

/-- What is gone through when a value is taken as a sequence: the items of a list, the
characters of a text, the names of a record. -/
def itemsOf : Value → Except Fault (List Value)
  | .list items => .ok items
  | .text s => .ok (s.toList.map fun c => .text c.toString)
  | .record r => .ok (r.map fun field => .text field.1)
  | _ => .error .wrongShape

def ofValue (v : Value) : Except Fault Document := do
  let r ← Node.fieldsOf v
  let nodes ← (← itemsOf (Record.getD r "nodes" (.list []))).mapM Node.ofValue
  let edges ← (← itemsOf (Record.getD r "edges" (.list []))).mapM Edge.ofValue
  return { nodes, edges, viewport := ((Record.getD r "viewport" .null).asRecord?).map .ofRecord }

end Document
end Workflow
