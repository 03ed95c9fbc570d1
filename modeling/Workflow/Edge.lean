import Workflow.Value.Text

/-!
# Edges

An edge leads from one node to another, both given by identity. A handle says from which
branch of a condition it starts.
-/

namespace Workflow

/-- An edge of a workflow. An absent handle or label is null. -/
structure Edge where
  id : String
  source : String
  target : String
  sourceHandle : Value
  targetHandle : Value
  label : Value
  animated : Bool
  deriving DecidableEq, Repr

namespace Edge

/-- The identity of an edge that is drawn between two nodes. -/
def idBetween (source target : String) : String := s!"edge_{source}_{target}"

def field? (name : String) (v : Value) : Record := if v.isNull then [] else [(name, v)]

def toValue (e : Edge) : Value :=
  .record <|
    [("id", .text e.id), ("source", .text e.source), ("target", .text e.target)] ++
    field? "sourceHandle" e.sourceHandle ++ field? "targetHandle" e.targetHandle ++
    field? "label" e.label ++ if e.animated then [("animated", .bool true)] else []

def requiredText (r : Record) (name : String) : Except Fault String :=
  match Record.get? r name with
  | some v => v.toText
  | none => .error (.missingField name)

def ofValue (v : Value) : Except Fault Edge :=
  match v with
  | .record r => do
    let id ← requiredText r "id"
    let source ← requiredText r "source"
    let target ← requiredText r "target"
    return {
      id, source, target
      sourceHandle := Record.getD r "sourceHandle" .null
      targetHandle := Record.getD r "targetHandle" .null
      label := Record.getD r "label" .null
      animated := (Record.getD r "animated" (.bool false)).isFilled }
  | _ => .error .wrongShape

end Edge
end Workflow
