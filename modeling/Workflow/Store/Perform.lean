import Workflow.Store.Basic

/-!
# Performing edits

An edit that is refused or finds nothing to act on leaves the state as it is, apart from a
notice. Selecting, moving one node and changing the view are not committed.
-/

namespace Workflow

def Node.changedConfig (n : Node) : ConfigChange → Except Fault Config
  | .settings (.record changes) =>
    let settings := match n.config with
      | some c => c.toRecord
      | none => []
    Config.ofRecord n.kind (settings.merge changes)
  | .settings v => (ModelFault.cannotTake n.id n.kind v.shapeName).throw
  | .whole c =>
    if c.kind = n.kind then .ok c else (ModelFault.cannotTake n.id n.kind c.kind.configName).throw

namespace Store

def nodeId (n : Nat) : String := "node_" ++ String.ofList (Text.hexDigits 12 n)

/-- Adds a node of a kind with the initial configuration, under the identity drawn for it. -/
def addNodeAs (s : Store) (id kindName : String) (position : Option Position) :
    Except Failure String × Store :=
  match NodeKind.parse kindName with
  | .error f => (.error (.fault f), s)
  | .ok kind =>
    let n : Node :=
      ⟨id, kind, position.getD .origin, kind.label, some (Config.initial kind)⟩
    (.ok id, commit { s with graph := s.graph.addNode n, issued := s.issued + 1 } (.addNode id))

def addNode (s : Store) (kindName : String) (position : Option Position) :
    Except Failure String × Store :=
  s.addNodeAs (nodeId (s.issued + 1)) kindName position

def moveNode (s : Store) (id : String) (position : Position) : Store :=
  { s with graph := s.graph.updateNode id fun n => { n with position } }

def moveNodes (s : Store) (moves : List (String × Position)) : Store :=
  (moves.foldl (fun s move => s.moveNode move.1 move.2) s).commit .moveNodes

/-- Changes the configuration of a node, and tells whether it exists. -/
def configure (s : Store) (id : String) (change : ConfigChange) :
    Except Failure Bool × Store :=
  match s.graph.findNode? id with
  | none => (.ok false, s)
  | some n =>
    match n.changedConfig change with
    | .error f => (.error (.fault f), s)
    | .ok config =>
      let graph := s.graph.updateNode id fun n => { n with config := some config }
      (.ok true, commit { s with graph } (.configure id))

def rename (s : Store) (id label : String) : Bool × Store :=
  match s.graph.findNode? id with
  | none => (false, s)
  | some _ =>
    let graph := s.graph.updateNode id fun n => { n with label }
    (true, commit { s with graph } (.rename id))

def sortedIds (ids : List String) : List String := ids.eraseDups.mergeSort fun a b => a ≤ b

/-- Removes nodes with their edges, and tells how many there were. -/
def removeNodes (s : Store) (ids : List String) : Nat × Store :=
  let graph := s.graph.removeNodes ids
  let removed := s.graph.nodes.length - graph.nodes.length
  if removed = 0 then (0, s)
  else
    let s := { s with graph, selection := s.selection.without ids }
    (removed, s.commit (.removeNodes (sortedIds ids)))

def reject (s : Store) (rejection : Rejection) :
    Except Failure (Except Rejection String) × Store :=
  let (told, s) := s.notify .error rejection.message
  (told.map fun _ => .error rejection, s)

/-- Draws an edge between two nodes and gives its identity, unless a rule forbids it. -/
def connect (s : Store) (source target : String) (sourceHandle targetHandle : Value) :
    Except Failure (Except Rejection String) × Store :=
  match s.graph.findNode? source, s.graph.findNode? target with
  | some sourceNode, some targetNode =>
    match objection? sourceNode targetNode s.graph.edges with
    | some o => s.reject (.objection o)
    | none =>
      let e : Edge :=
        ⟨Edge.idBetween source target, source, target, sourceHandle, targetHandle, .null, true⟩
      (.ok (.ok e.id), commit { s with graph := s.graph.addEdge e } (.addEdge e.id))
  | _, _ => s.reject .unknownNode

/-- Removes the edges of an identity, and tells whether there were any. -/
def disconnect (s : Store) (id : String) : Bool × Store :=
  let graph := s.graph.removeEdge id
  if graph.edges.length = s.graph.edges.length then (false, s)
  else (true, commit { s with graph } (.removeEdge id))

/-! ## Selecting -/

def select (s : Store) (id : Option String) : Store := { s with selection := .single id }

def selectNodes (s : Store) (ids : List String) : Store :=
  let known := s.graph.nodes.map (·.id)
  { s with selection := .ofIds (ids.filter (· ∈ known)) }

def selectAll (s : Store) : Store := s.selectNodes (s.graph.nodes.map (·.id))

/-- Takes an identity out of the selection, or a node that exists into it. -/
def toggle (s : Store) (id : String) : Store :=
  let ids := s.selection.ids
  let ids :=
    if id ∈ ids then ids.erase id
    else if (s.graph.findNode? id).isSome then ids ++ [id]
    else ids
  { s with selection := .ofIds ids }

/-! ## Whole documents -/

def cleared (s : Store) : Store :=
  { s with selection := .none, executor := s.executor.clearLogs }

def clear (s : Store) : Store := (cleared { s with graph := .empty }).commit .clear

def adopt (s : Store) (d : Document) : Store :=
  let s := { s with graph := ⟨d.nodes, d.edges⟩, viewport := d.viewport.getD s.viewport }
  s.cleared.commit .importDocument

def foundByGate : List ImportProblem → Bool
  | .complaint _ :: _ => true
  | _ => false

/-- Imports a document given as a value, and gives the problems that prevent it. -/
def importValue (s : Store) (v : Value) : Except Failure (List ImportProblem) × Store :=
  match Document.importValue Fault.isShape v with
  | .error f => (.error (.fault f), s)
  | .ok (.document d) => (.ok [], s.adopt d)
  | .ok (.refused problems) =>
    if foundByGate problems then
      let (told, s) := s.notify .error s!"Import failed: {problems.length} problem(s) found"
      (told.map fun _ => problems, s)
    else (.ok problems, s)

def importDocument (s : Store) (d : Document) :
    Except Failure (List ImportProblem) × Store :=
  s.importValue d.toValue

/-- Imports the document saved last, and tells whether there was one. -/
def restore (s : Store) : Except Failure Bool × Store :=
  match s.archive with
  | none => (.ok false, s)
  | some a =>
    match a.load with
    | .error f => (.error (.fault f), s)
    | .ok none => (.ok false, s)
    | .ok (some d) =>
      let (problems, s) := s.importDocument d
      (problems.map List.isEmpty, s)

/-! ## Edits as requests -/

def importReply : List ImportProblem → EditReply
  | [] => .imported
  | problems => .refused problems

def perform (s : Store) (edit : Edit) : Except Failure EditReply × Store :=
  match edit with
  | .addNode kindName position => (s.addNode kindName position).map (·.map .addedNode) id
  | .moveNode id position => (.ok .done, s.moveNode id position)
  | .moveNodes moves => (.ok .done, s.moveNodes moves)
  | .configure id change => (s.configure id change).map (·.map .changed) (·)
  | .rename id label => (s.rename id label).map (.ok <| .changed ·) (·)
  | .removeNode id => (s.removeNodes [id]).map (fun n => .ok (.changed (0 < n))) (·)
  | .removeNodes ids => (s.removeNodes ids).map (.ok <| .removed ·) (·)
  | .connect source target sourceHandle targetHandle =>
    (s.connect source target sourceHandle targetHandle).map
      (·.map fun
        | .ok id => .connected id
        | .error rejection => .rejected rejection) (·)
  | .disconnect id => (s.disconnect id).map (.ok <| .changed ·) (·)
  | .select id => (.ok .done, s.select id)
  | .selectNodes ids => (.ok .done, s.selectNodes ids)
  | .selectAll => (.ok .done, s.selectAll)
  | .toggle id => (.ok .done, s.toggle id)
  | .view viewport => (.ok .done, { s with viewport })
  | .clear => (.ok .done, s.clear)
  | .importValue v => (s.importValue v).map (·.map importReply) (·)
  | .importDocument d => (s.importDocument d).map (·.map importReply) (·)
  | .restore => s.restore.map (·.map .changed) (·)
  | .clearLogs => (.ok .done, { s with executor := s.executor.clearLogs })
  | .cancel => (.ok .done, { s with executor := s.executor.cancel })

end Store
end Workflow
