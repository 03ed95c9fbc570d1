import Workflow.Document
import Workflow.Json.Reader

/-!
# The gate for documents

Before a value is read as a document it is checked as a whole, and every problem found is
named, so that a reader of the report can mend the document in one go.
-/

namespace Workflow

/-- What is wrong with a value that should be a document. -/
inductive Complaint
  | notARecord
  | nodesNotAList
  | edgesNotAList
  | viewportNotARecord
  | nodeNotARecord (index : Nat)
  | nodeWithout (field : String) (index : Nat)
  | duplicateId (id : String)
  | invalidType (node type : String)
  | invalidPosition (node : String)
  | invalidData (node : String)
  | typeMismatch (node dataType type : String)
  | invalidConfig (node : String) (fault : ModelFault)
  | edgeNotARecord (index : Nat)
  | edgeWithout (field : String) (index : Nat)
  | unknownEnd (role edge node : String)
  deriving DecidableEq, Repr

def Complaint.message : Complaint → String
  | .notARecord => "Invalid workflow data: expected an object"
  | .nodesNotAList => "Invalid workflow: \"nodes\" must be an array"
  | .edgesNotAList => "Invalid workflow: \"edges\" must be an array"
  | .viewportNotARecord => "Invalid workflow: \"viewport\" must be an object"
  | .nodeNotARecord index => s!"Node at index {index} must be an object"
  | .nodeWithout field index => s!"Node at index {index} is missing \"{field}\" field"
  | .duplicateId id => s!"Duplicate node id \"{id}\""
  | .invalidType node type => s!"Node \"{node}\" has invalid type \"{type}\""
  | .invalidPosition node => s!"Node \"{node}\" has invalid position"
  | .invalidData node => s!"Node \"{node}\" has invalid data structure"
  | .typeMismatch node dataType type =>
    s!"Node \"{node}\" has data.nodeType \"{dataType}\" that does not match type \"{type}\""
  | .invalidConfig node fault => s!"Node \"{node}\" has invalid config: {fault.message}"
  | .edgeNotARecord index => s!"Edge at index {index} must be an object"
  | .edgeWithout field index => s!"Edge at index {index} is missing \"{field}\" field"
  | .unknownEnd role edge node =>
    s!"Edge \"{edge}\" references non-existent {role} node \"{node}\""

namespace Gate

abbrev Findings := Except Fault (List Complaint)

/-- The identity of a node, if it is a text that is not empty. -/
def idOf? (r : Record) : Option String :=
  match r.get? "id" with
  | some (.text id) => if id = "" then none else some id
  | _ => none

/-- The name by which a node is called in complaints: its identity, or else its index. -/
def displayOf (r : Record) (index : Nat) : Except Fault String :=
  let id := r.getD "id" .null
  if id.isFilled then id.toText else .ok (toString index)

/-- The complaint about the identity of a node, given those of the nodes before it. -/
def checkId (seen : List String) (index : Nat) (r : Record) : List Complaint :=
  match idOf? r with
  | none => [.nodeWithout "id" index]
  | some id => if id ∈ seen then [.duplicateId id] else []

/-- The name of the type a node gives, where null gives none. -/
def typeText : Value → Except Fault (Option String)
  | .null => .ok none
  | v => do
    let s ← v.toText
    return if s = "" then none else some s

def kindOf? (type : Option String) : Option NodeKind := type.bind NodeKind.ofName?

def checkType (index : Nat) (r : Record) (type : Option String) : Findings :=
  match type with
  | none => .ok [.nodeWithout "type" index]
  | some name => match NodeKind.ofName? name with
    | some _ => .ok []
    | none => do return [.invalidType (← displayOf r index) name]

/-- Whether a value is a record with two numeric coordinates. -/
def isPosition : Value → Bool
  | .record r => (Record.getD r "x" .null).isNumber && (Record.getD r "y" .null).isNumber
  | _ => false

def checkPosition (index : Nat) (r : Record) : Findings :=
  if isPosition (r.getD "position" .null) then .ok []
  else do return [.invalidPosition (← displayOf r index)]

/-- The complaint about a configuration, where any other fault than a model fault stops the
check. -/
def checkConfig (index : Nat) (r : Record) (kind : NodeKind) (config : Value) : Findings :=
  match Config.ofValue kind config with
  | .ok _ => .ok []
  | .error (.model fault) => do return [.invalidConfig (← displayOf r index) fault]
  | .error fault => .error fault

/-- The complaint about the data of a node of a kind, whose type must be repeated there. -/
def checkKindData (index : Nat) (r data : Record) (kind : NodeKind) : Findings :=
  let dataType := data.getD "nodeType" .null
  if dataType = .text kind.name then checkConfig index r kind (data.getD "config" .null)
  else do return [.typeMismatch (← displayOf r index) (← dataType.toText) kind.name]

def checkData (index : Nat) (r : Record) (kind : Option NodeKind) : Findings :=
  match r.getD "data" .null with
  | .record data =>
    if (Record.getD data "nodeType" .null).isFilled then
      match kind with
      | some kind => checkKindData index r data kind
      | none => .ok []
    else do return [.invalidData (← displayOf r index)]
  | _ => do return [.invalidData (← displayOf r index)]

/-- The complaints about a node, given the identities of the nodes before it. -/
def checkNode (seen : List String) (index : Nat) : Value → Findings
  | .record r => do
    let type ← typeText (Record.getD r "type" .null)
    let typeFindings ← checkType index r type
    let positionFindings ← checkPosition index r
    let dataFindings ← checkData index r (kindOf? type)
    return checkId seen index r ++ typeFindings ++ positionFindings ++ dataFindings
  | _ => .ok [.nodeNotARecord index]

def addId (seen : List String) : Value → List String
  | .record r => match idOf? r with
    | some id => if id ∈ seen then seen else seen ++ [id]
    | none => seen
  | _ => seen

def idsOf (nodes : List Value) : List String := nodes.foldl addId []

def checkNodes (seen : List String) (index : Nat) : List Value → Findings
  | [] => .ok []
  | v :: vs => do
    let first ← checkNode seen index v
    let rest ← checkNodes (addId seen v) (index + 1) vs
    return first ++ rest

def checkField (index : Nat) (r : Record) (field : String) : List Complaint :=
  if (r.getD field .null).isFilled then [] else [.edgeWithout field index]

def checkEdge (index : Nat) : Value → List Complaint
  | .record r => checkField index r "id" ++ checkField index r "source" ++
      checkField index r "target"
  | _ => [.edgeNotARecord index]

/-- The complaints about the edges from an index on, each by itself. -/
def checkEdges (index : Nat) : List Value → List Complaint
  | [] => []
  | v :: vs => checkEdge index v ++ checkEdges (index + 1) vs

/-- The complaint about one end of an edge that names no node. -/
def checkEnd (ids : List String) (r : Record) (role : String) : Findings := do
  let v := r.getD role .null
  if !v.isFilled then return []
  let name ← v.toText
  if name ∈ ids then return []
  return [.unknownEnd role (← (r.getD "id" .null).toText) name]

def checkEnds (ids : List String) : List Value → Findings
  | [] => .ok []
  | .record r :: vs => do
    let source ← checkEnd ids r "source"
    let target ← checkEnd ids r "target"
    let rest ← checkEnds ids vs
    return source ++ target ++ rest
  | _ :: vs => checkEnds ids vs

def checkViewport : Value → List Complaint
  | .null => []
  | .record _ => []
  | _ => [.viewportNotARecord]

def checkNodesOf : Value → Findings
  | .list nodes => checkNodes [] 0 nodes
  | _ => .ok [.nodesNotAList]

/-- The complaints about the edges of a document, whose ends are looked up when it has
nodes. -/
def checkEdgesOf (nodes edges : Value) : Findings :=
  match edges with
  | .list edges => do
    let ends ← match nodes with
      | .list nodes => checkEnds (idsOf nodes) edges
      | _ => .ok []
    return checkEdges 0 edges ++ ends
  | _ => .ok [.edgesNotAList]

end Gate

/-- Everything wrong with a value that should be a document. -/
def checkDocument (v : Value) : Except Fault (List Complaint) :=
  match v with
  | .record r => do
    let nodes := Record.getD r "nodes" .null
    let edges := Record.getD r "edges" .null
    let nodeFindings ← Gate.checkNodesOf nodes
    let edgeFindings ← Gate.checkEdgesOf nodes edges
    return nodeFindings ++ edgeFindings ++
      Gate.checkViewport (Record.getD r "viewport" .null)
  | _ => .ok [.notARecord]

end Workflow
