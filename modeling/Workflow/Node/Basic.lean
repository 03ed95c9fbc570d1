import Workflow.Node.Config

/-!
# Nodes

A node has an identity, a kind, a place on the canvas, a label and a configuration. A node
built by its constructor has the configuration of its kind.
-/

namespace Workflow

/-- A place on the canvas. Documents give numeric coordinates; what a program gives is kept
whatever its shape. -/
structure Position where
  x : Value
  y : Value
  deriving DecidableEq, Repr

namespace Position

def origin : Position := ⟨.float (.zero false), .float (.zero false)⟩

def toValue (p : Position) : Value := .record [("x", p.x), ("y", p.y)]

def ofValue (v : Value) : Except Fault Position :=
  match v with
  | .record r =>
    match Record.get? r "x", Record.get? r "y" with
    | some (.number x), some (.number y) => .ok ⟨.number x, .number y⟩
    | _, _ => ModelFault.badPosition.throw
  | _ => ModelFault.badPosition.throw

end Position

/-- A node of a workflow. Its configuration can be taken away after it was built. -/
structure Node where
  id : String
  kind : NodeKind
  position : Position
  label : String
  config : Option Config
  deriving DecidableEq, Repr

namespace Node

/-- Whether the node has the configuration of its kind. -/
def Configured (n : Node) : Prop := ∃ c, n.config = some c ∧ c.kind = n.kind

/-- Builds a node from the name of its kind. Without a configuration it gets the initial one,
and an empty label becomes that of its kind. -/
def build (id kindName : String) (position : Position) (label : String)
    (config : Option Config) : Except Fault Node :=
  match NodeKind.ofName? kindName with
  | none => (ModelFault.invalidType id kindName).throw
  | some kind =>
    let config := config.getD (Config.initial kind)
    if config.kind = kind then
      .ok ⟨id, kind, position, if label = "" then kind.label else label, some config⟩
    else (ModelFault.wrongConfig id kind config.kind.configName).throw

def toValue (n : Node) : Value :=
  .record [
    ("id", .text n.id),
    ("type", .text n.kind.name),
    ("position", n.position.toValue),
    ("data", .record [
      ("label", .text n.label),
      ("config", match n.config with
        | some c => .record c.toRecord
        | none => .null),
      ("nodeType", .text n.kind.name)])]

/-- The kind a value names, for a node whose identity is used in the complaint. -/
def readKind (id kind : Value) : Except Fault NodeKind := do
  kind.checkHashable
  let known? := match kind with
    | .text s => NodeKind.ofName? s
    | _ => none
  match known? with
  | some known => return known
  | none => (ModelFault.invalidType (← id.toText) (← kind.toText)).throw

/-- The fields of a value that is asked for one of them. -/
def fieldsOf (v : Value) : Except Fault Record :=
  match v with
  | .record r => .ok r
  | _ => .error .noMembers

/-- The kind named at the top of a node, or else inside its data. -/
def namedKind (r : Record) (data : Value) : Except Fault Value :=
  let type := Record.getD r "type" .null
  if type.isFilled then .ok type
  else (fieldsOf data).map fun fields => Record.getD fields "nodeType" .null

def ofValue (v : Value) : Except Fault Node := do
  let r ← fieldsOf v
  let data := (Record.getD r "data" .null).orElse (.record [])
  let kindValue ← namedKind r data
  let kind ← readKind (Record.getD r "id" .null) kindValue
  let id ← match Record.get? r "id" with
    | some id => id.toText
    | none => .error (.missingField "id")
  let position ← Position.ofValue (Record.getD r "position" .null)
  let fields ← fieldsOf data
  let label ← ((Record.getD fields "label" .null).orElse (.text kind.label)).toText
  let config ← Config.ofValue kind (Record.getD fields "config" .null)
  build id kind.name position label (some config)

end Node
end Workflow
