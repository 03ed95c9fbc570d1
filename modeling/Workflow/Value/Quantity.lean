import Workflow.Number.Literal
import Workflow.Value.Basic

/-!
# Quantities given as values

A bound or a duration may be given as any value that can be read as a number. Containers and
null cannot.
-/

namespace Workflow.Value

/-- The integer a value gives: a fraction is dropped, a text must be an integer numeral. -/
def toInteger : Value → Except Fault Int
  | .bool b => .ok (if b then 1 else 0)
  | .number (.int n) => .ok n
  | .number (.float x) =>
    match x with
    | .nan _ => .error .undefinedInteger
    | .infinite _ => .error .infiniteInteger
    | .finite negative quanta _ => .ok (Binary64.signed negative (quanta / quantaPerUnit))
  | .text s => Number.readInt s
  | _ => .error .wrongShape

/-- The floating-point number a value gives: the nearest one to an integer, and a text must
be a numeral. -/
def toBinary64 : Value → Except Fault Binary64
  | .bool b => (Number.int (if b then 1 else 0)).toBinary64
  | .number n => n.toBinary64
  | .text s => Number.readFloat s
  | _ => .error .wrongShape

end Workflow.Value
