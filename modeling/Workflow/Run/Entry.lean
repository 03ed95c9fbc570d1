import Workflow.Document
import Workflow.Json.Writer
import Workflow.Run.Executor

/-!
# Log entries in documents

A log entry is written as a record. Its packets are written as records too, where a key that
is no text gets the name by which documents write it. What is read back need not come from a
run, so an entry read from a document keeps its kind, status and message in whatever shape
they have.
-/

namespace Workflow

def Key.documentName : Key → Except Fault String
  | .null => .ok "null"
  | .bool b => .ok (if b then "true" else "false")
  | .number n => n.textIn Json.documentFloats
  | .text name => .ok name

structure StoredEntry where
  nodeId : String
  nodeName : String
  kind : Value
  input : Packet
  output : Packet
  timestamp : String
  status : Value
  message : Value
  deriving DecidableEq, Repr

namespace StoredEntry

def ofEntry (e : LogEntry) : StoredEntry where
  nodeId := e.nodeId
  nodeName := e.nodeName
  kind := .text e.kind.name
  input := e.input
  output := e.output
  timestamp := e.time.text
  status := .text e.status.name
  message := .text e.message

def isError (e : StoredEntry) : Bool := e.status = .text LogStatus.error.name

/-- The entry as a value, with its packets as records. -/
def valueWith (e : StoredEntry) (input output : Record) : Value :=
  .record [
    ("nodeId", .text e.nodeId),
    ("nodeName", .text e.nodeName),
    ("nodeType", e.kind),
    ("input", .record input),
    ("output", .record output),
    ("timestamp", .text e.timestamp),
    ("status", e.status),
    ("message", e.message)]

def toValue (e : StoredEntry) : Except Fault Value := do
  let input ← e.input.toRecord Key.documentName
  let output ← e.output.toRecord Key.documentName
  return e.valueWith input output

/-- The field given by the item at a place: a sequence of a key and a value. -/
def fieldOf (place : Nat) (item : Value) : Except Fault (Key × Value) := do
  match ← Document.itemsOf item with
  | [key, v] => return (← Key.ofValue key, v)
  | parts => .error (.notAPair place parts.length)

def fieldsOf (place : Nat) (fields : Packet) : List Value → Except Fault Packet
  | [] => .ok fields
  | item :: rest => do
    let (key, v) ← fieldOf place item
    fieldsOf (place + 1) (fields.set key v) rest

/-- A packet given by a record, or by a sequence of pairs. -/
def packetOf : Value → Except Fault Packet
  | .record r => .ok (.ofRecord r)
  | v => do fieldsOf 0 [] (← Document.itemsOf v)

def ofValue : Value → Except Fault StoredEntry
  | .record r => do
    let nodeId ← Edge.requiredText r "nodeId"
    let nodeName ← (Record.getD r "nodeName" (.text "")).toText
    let input ← packetOf ((Record.getD r "input" .null).orElse (.record []))
    let output ← packetOf ((Record.getD r "output" .null).orElse (.record []))
    let timestamp ← (Record.getD r "timestamp" (.text "")).toText
    return {
      nodeId, nodeName, input, output, timestamp
      kind := Record.getD r "nodeType" (.text "start")
      status := Record.getD r "status" (.text "success")
      message := Record.getD r "message" .null }
  | _ => .error .wrongShape

end StoredEntry
end Workflow
