import Workflow.Value.Text

/-!
# Configurations of nodes

Each kind of node has its own configuration. What is read from a document is checked and
completed with defaults; what a program builds directly is taken as it is, so every setting
is a value of any shape.
-/

namespace Workflow

/-- What a transform does to its field. -/
inductive Operation
  | uppercase | lowercase | append | prepend | multiply | add | replace
  deriving DecidableEq, Repr

namespace Operation

def all : List Operation :=
  [.uppercase, .lowercase, .append, .prepend, .multiply, .add, .replace]

def name : Operation → String
  | .uppercase => "uppercase"
  | .lowercase => "lowercase"
  | .append => "append"
  | .prepend => "prepend"
  | .multiply => "multiply"
  | .add => "add"
  | .replace => "replace"

def ofName? (s : String) : Option Operation := all.find? (·.name = s)

def ofValue? : Value → Option Operation
  | .text s => ofName? s
  | _ => none

end Operation

/-- The test a condition makes on its field. -/
inductive Operator
  | equals | notEquals | contains
  | greaterThan | lessThan | greaterThanOrEqual | lessThanOrEqual
  | isEmpty | isNotEmpty | isEven | isOdd | isDivisibleBy
  deriving DecidableEq, Repr

namespace Operator

def all : List Operator :=
  [.equals, .notEquals, .contains, .greaterThan, .lessThan, .greaterThanOrEqual,
    .lessThanOrEqual, .isEmpty, .isNotEmpty, .isEven, .isOdd, .isDivisibleBy]

def name : Operator → String
  | .equals => "equals"
  | .notEquals => "notEquals"
  | .contains => "contains"
  | .greaterThan => "greaterThan"
  | .lessThan => "lessThan"
  | .greaterThanOrEqual => "greaterThanOrEqual"
  | .lessThanOrEqual => "lessThanOrEqual"
  | .isEmpty => "isEmpty"
  | .isNotEmpty => "isNotEmpty"
  | .isEven => "isEven"
  | .isOdd => "isOdd"
  | .isDivisibleBy => "isDivisibleBy"

def ofName? (s : String) : Option Operator := all.find? (·.name = s)

def ofValue? : Value → Option Operator
  | .text s => ofName? s
  | _ => none

end Operator

/-- The configuration of a node. -/
inductive Config
  | start (payload : Value)
  | transform (operation field value : Value)
  | condition (field operator value : Value)
  | finish (label : Value)
  deriving DecidableEq, Repr

namespace Config

def kind : Config → NodeKind
  | .start .. => .start
  | .transform .. => .transform
  | .condition .. => .condition
  | .finish .. => .finish

def initial : NodeKind → Config
  | .start => .start (.record [("message", .text "Hello World")])
  | .transform => .transform (.text "uppercase") (.text "message") (.text "")
  | .condition => .condition (.text "message") (.text "equals") (.text "")
  | .finish => .finish (.text "End")

/-- The configuration whose settings are all left out. -/
def unset : NodeKind → Config
  | .start => .start (.record [])
  | .transform => .transform (.text "uppercase") (.text "message") .null
  | .condition => .condition (.text "message") (.text "equals") (.text "")
  | .finish => .finish (.text "End")

/-- The settings as a record. The value of a transform is left out when it is null. -/
def toRecord : Config → Record
  | .start payload => [("payload", payload)]
  | .transform operation field value =>
    [("operation", operation), ("field", field)] ++
      if value.isNull then [] else [("value", value)]
  | .condition field operator value =>
    [("field", field), ("operator", operator), ("value", value)]
  | .finish label => [("label", label)]

def settingNames : NodeKind → List String
  | .start => ["payload"]
  | .transform => ["operation", "field", "value"]
  | .condition => ["field", "operator", "value"]
  | .finish => ["label"]

/-- The configuration with the given settings just as they are; the others are left out. -/
def withSettings (kind : NodeKind) (r : Record) : Config :=
  match unset kind with
  | .start payload => .start (Record.getD r "payload" payload)
  | .transform operation field value =>
    .transform (Record.getD r "operation" operation) (Record.getD r "field" field)
      (Record.getD r "value" value)
  | .condition field operator value =>
    .condition (Record.getD r "field" field) (Record.getD r "operator" operator)
      (Record.getD r "value" value)
  | .finish label => .finish (Record.getD r "label" label)

/-- The configuration with the given settings, all of which must be settings of the kind. -/
def ofSettings (kind : NodeKind) (r : Record) : Except Fault Config :=
  if r.all fun setting => setting.1 ∈ settingNames kind then .ok (withSettings kind r)
  else .error .wrongShape

/-- The configuration of a kind read from its settings. Missing settings take their defaults,
operations and operators must exist, and names become text. -/
def ofRecord (kind : NodeKind) (r : Record) : Except Fault Config :=
  match kind with
  | .start => .ok (.start (Record.getD r "payload" (.record [])))
  | .transform => do
    let operation := Record.getD r "operation" (.text "uppercase")
    operation.checkHashable
    match Operation.ofValue? operation with
    | none => (ModelFault.unsupportedOperation (← operation.toText)).throw
    | some known =>
      let field ← (Record.getD r "field" (.text "message")).toText
      return .transform (.text known.name) (.text field) (Record.getD r "value" .null)
  | .condition => do
    let operator := Record.getD r "operator" (.text "equals")
    operator.checkHashable
    match Operator.ofValue? operator with
    | none => (ModelFault.unsupportedOperator (← operator.toText)).throw
    | some known =>
      let field ← (Record.getD r "field" (.text "message")).toText
      return .condition (.text field) (.text known.name) (Record.getD r "value" (.text ""))
  | .finish => do return .finish (.text (← (Record.getD r "label" (.text "End")).toText))

/-- The configuration of a kind read from a value; null stands for no settings. -/
def ofValue (kind : NodeKind) : Value → Except Fault Config
  | .null => ofRecord kind []
  | .record r => ofRecord kind r
  | _ => (ModelFault.configNotRecord kind).throw

end Config

/-- The kind of a name, for a caller who must be told of an unknown one. -/
def NodeKind.parse (name : String) : Except Fault NodeKind :=
  match NodeKind.ofName? name with
  | some kind => .ok kind
  | none => (ModelFault.unknownKind name).throw

end Workflow
