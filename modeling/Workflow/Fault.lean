import Workflow.NodeKind
import Workflow.Text.Quoted

/-!
# Faults

Why a rule of the library cannot give its result. A fault is a cause; the wording shown to a
user is in one function for each family.
-/

namespace Workflow

/-- What is wrong with a node, an edge or a configuration. -/
inductive ModelFault
  /-- No kind has this name. -/
  | unknownKind (name : String)
  /-- A node is of a kind that does not exist. -/
  | invalidType (node kind : String)
  /-- A node is built with the configuration of another kind. -/
  | wrongConfig (node : String) (kind : NodeKind) (got : String)
  /-- A node is given something else than a configuration of its kind. -/
  | cannotTake (node : String) (kind : NodeKind) (got : String)
  /-- A position lacks a numeric coordinate. -/
  | badPosition
  /-- A configuration is not a record. -/
  | configNotRecord (kind : NodeKind)
  /-- No transform has this operation. -/
  | unsupportedOperation (operation : String)
  /-- No condition has this operator. -/
  | unsupportedOperator (operator : String)
  deriving DecidableEq, Repr

def ModelFault.message : ModelFault → String
  | .unknownKind name => s!"Unknown node kind '{name}'."
  | .invalidType node kind => s!"Node '{node}' has invalid type '{kind}'."
  | .wrongConfig node kind got =>
    s!"Node '{node}' of type '{kind.name}' requires {kind.configName}, got {got}."
  | .cannotTake node kind got => s!"Node '{node}' of type '{kind.name}' cannot take {got}."
  | .badPosition => "Position must be an object with numeric 'x' and 'y'."
  | .configNotRecord kind => s!"Config for {kind.name} node must be an object."
  | .unsupportedOperation operation => s!"Unsupported transform operation '{operation}'."
  | .unsupportedOperator operator => s!"Unsupported condition operator '{operator}'."

/-- The values that hold other values. -/
inductive Container
  | list
  | record
  deriving DecidableEq, Repr

def Container.name : Container → String
  | .list => "list"
  | .record => "dict"

/-- The name of a container in messages about documents. -/
def Container.documentName : Container → String
  | .list => "array"
  | .record => "object"

/-- Why a value has no result under a rule. -/
inductive Fault
  /-- An integer beyond the largest floating-point number meets one. -/
  | integerTooLarge
  /-- An integer has too many decimal digits to be read, or (without a count) to be
  written. -/
  | tooManyDigits (count : Option Nat)
  /-- A text is no integer numeral. -/
  | notAnInteger (text : String)
  /-- A text is no numeral. -/
  | notANumber (text : String)
  /-- The undefined number has no integer part. -/
  | undefinedInteger
  /-- An infinite number has no integer part. -/
  | infiniteInteger
  /-- A bound is larger than any list can become. -/
  | boundTooLarge
  /-- A container is used where only a plain value can be looked up. -/
  | unhashable (container : Container)
  /-- A document nests one more list or record than can be read. -/
  | nestedTooDeeply (container : Container)
  /-- A value of another shape is needed. -/
  | wrongShape
  /-- A value has no members of the kind asked for. -/
  | noMembers
  /-- A record lacks a field it must have. -/
  | missingField (name : String)
  /-- A pair was expected at this place of a list. -/
  | notAPair (place length : Nat)
  /-- A transform is executed with an operation that does not exist. -/
  | unknownOperation (operation : String)
  /-- A condition is executed with an operator that does not exist. -/
  | unknownOperator (operator : String)
  /-- A node without a configuration is executed. -/
  | missingConfig (node : String)
  /-- No level of a log has this name. -/
  | unknownLevel (name : String)
  /-- The model refuses the value. -/
  | model (fault : ModelFault)
  deriving DecidableEq, Repr

/-- The most decimal digits an integer is read from or written with. -/
def digitLimit : Nat := 4300

/-- The most characters that a complaint about an integer numeral quotes. -/
def quoteLimit : Nat := 200

def quotedBeginning (text : String) : String :=
  String.ofList ((Text.quoted text).toList.take quoteLimit)

def Fault.message : Fault → String
  | .integerTooLarge => "int too large to convert to float"
  | .tooManyDigits count =>
    let counted := match count with
      | some n => s!": value has {n} digits"
      | none => ""
    s!"Exceeds the limit ({digitLimit} digits) for integer string conversion{counted}; " ++
      "use sys.set_int_max_str_digits() to increase the limit"
  | .notAnInteger text => "invalid literal for int() with base 10: " ++ quotedBeginning text
  | .notANumber text => "could not convert string to float: " ++ Text.quoted text
  | .undefinedInteger => "cannot convert float NaN to integer"
  | .infiniteInteger => "cannot convert float infinity to integer"
  | .boundTooLarge => "Python int too large to convert to C ssize_t"
  | .unhashable container => s!"unhashable type: '{container.name}'"
  | .nestedTooDeeply container =>
    s!"maximum recursion depth exceeded while decoding a JSON {container.documentName} " ++
      "from a unicode string"
  | .wrongShape => "value has the wrong shape"
  | .noMembers => "value has no such member"
  | .missingField name => Text.quoted name
  | .notAPair place length =>
    s!"dictionary update sequence element #{place} has length {length}; 2 is required"
  | .unknownOperation operation => s!"Unsupported transform operation '{operation}'."
  | .unknownOperator operator => s!"Unsupported condition operator '{operator}'."
  | .missingConfig node => s!"Unsupported node config NoneType on node '{node}'."
  | .unknownLevel name => "Unknown level: " ++ Text.quoted name
  | .model fault => fault.message

def Fault.isModel : Fault → Bool
  | .model _ => true
  | _ => false

/-- Whether the value is refused for its shape or by the model. -/
def Fault.isShape : Fault → Bool
  | .model _ | .missingField _ | .unhashable _ | .wrongShape | .missingConfig _ => true
  | _ => false

def ModelFault.throw {α : Type} (fault : ModelFault) : Except Fault α :=
  .error (.model fault)

end Workflow
