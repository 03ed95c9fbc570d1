import Workflow.Binary64.Basic
import Workflow.Fault

/-!
# Numbers

A number is an integer of any size or a floating-point number. Two numbers are compared by
their exact values: each is a place on the line of quanta, or one of its two ends, and only
an undefined number has no place.
-/

namespace Workflow

/-- An integer or a floating-point number. -/
inductive Number
  | int (n : Int)
  | float (x : Binary64)
  deriving DecidableEq, Repr

/-- A place on the line of numbers, measured in quanta. -/
inductive Place
  | bottom
  | at (quanta : Int)
  | top
  deriving DecidableEq, Repr

namespace Place

/-- Whether the first place lies before or at the second. -/
def le : Place → Place → Bool
  | .bottom, _ => true
  | _, .top => true
  | .at a, .at b => a ≤ b
  | _, _ => false

def lt (a b : Place) : Bool := !le b a

end Place

namespace Number

def place? : Number → Option Place
  | .int n => some (.at (n * quantaPerUnit))
  | .float (.nan _) => none
  | .float (.infinite negative) => some (if negative then .bottom else .top)
  | .float (.finite negative quanta _) => some (.at (Binary64.signed negative quanta))

/-- Compares the places of two numbers; false when one of them has none. -/
def comparing (test : Place → Place → Bool) (a b : Number) : Bool :=
  match a.place?, b.place? with
  | some p, some q => test p q
  | _, _ => false

def eq (a b : Number) : Bool := comparing (· == ·) a b

def lt (a b : Number) : Bool := comparing Place.lt a b

def le (a b : Number) : Bool := comparing Place.le a b

/-- Whether a number is the undefined one that documents name. -/
def isNamedNaN (a : Number) : Bool := a == .float (.nan true)

/-- Whether two numbers are the same: they have the same value, or both are the undefined
number that documents name. -/
def same (a b : Number) : Bool := a.eq b || (a.isNamedNaN && b.isNamedNaN)

def undefined : Number := .float (.nan false)

def isZero (a : Number) : Bool := a.place? == some (.at 0)

def toBinary64 : Number → Except Fault Binary64
  | .int n => match Binary64.ofInt? n with
    | some x => .ok x
    | none => .error .integerTooLarge
  | .float x => .ok x

/-- Whether a number is undefined as a floating-point number. An integer too large for the
format is a fault. -/
def isNaN (a : Number) : Except Fault Bool := do return (← a.toBinary64).isNaN

end Number
end Workflow
