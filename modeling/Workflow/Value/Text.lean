import Workflow.Number.Text
import Workflow.Value.Basic

/-!
# Values as text

A text stands for itself at the top and is quoted inside a list or record.
-/

namespace Workflow.Value

mutual

/-- The text of a value as it appears inside a list or record. -/
def inner : Value → Except Fault String
  | .null => .ok "None"
  | .bool b => .ok (if b then "True" else "False")
  | .number n => n.text
  | .text s => .ok (Text.quoted s)
  | .list items => do return "[" ++ ", ".intercalate (← innerItems items) ++ "]"
  | .record fields => do return "\x7b" ++ ", ".intercalate (← innerFields fields) ++ "\x7d"

def innerItems : List Value → Except Fault (List String)
  | [] => .ok []
  | v :: vs => do
    let first ← inner v
    let rest ← innerItems vs
    return first :: rest

/-- The texts of the fields of a record, each with its name. -/
def innerFields : List (String × Value) → Except Fault (List String)
  | [] => .ok []
  | (name, v) :: vs => do
    let first ← inner v
    let rest ← innerFields vs
    return (Text.quoted name ++ ": " ++ first) :: rest

end

def toText : Value → Except Fault String
  | .text s => .ok s
  | v => inner v

end Workflow.Value
