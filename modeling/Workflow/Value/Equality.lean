import Workflow.Value.Basic

/-!
# Equality of values

Values compare by what they mean: numbers by their exact value, records without regard to the
order of their fields. Inside lists and records a boolean counts as the number one or zero,
and the undefined number that documents name equals itself; at the top a boolean equals the
same boolean alone, and an undefined number nothing.
-/

namespace Workflow.Value

/-- The number a boolean or a number counts as inside a container. -/
def countsAs : Value → Option Number
  | .bool b => some (.int (if b then 1 else 0))
  | .number n => some n
  | _ => none

mutual

/-- Whether two values are equal inside a container. -/
def equals : Value → Value → Bool
  | .null, .null => true
  | .text s, .text t => s == t
  | .list xs, .list ys => equalItems xs ys
  | .record r, .record t => r.length == t.length && equalFields r t
  | .bool a, w => match w.countsAs with
    | some n => (Number.int (if a then 1 else 0)).eq n
    | none => false
  | .number m, w => match w.countsAs with
    | some n => m.same n
    | none => false
  | _, _ => false

def equalItems : List Value → List Value → Bool
  | [], [] => true
  | v :: vs, w :: ws => equals v w && equalItems vs ws
  | _, _ => false

/-- Whether every field of the list has an equal one of the same name in the record. -/
def equalFields : List (String × Value) → Record → Bool
  | [], _ => true
  | (k, v) :: rest, r =>
    (match r.get? k with
      | some w => equals v w
      | none => false) && equalFields rest r

end

/-- Whether two values are equal, with no boolean equal to a number and no undefined number
equal to any. -/
def strictEquals : Value → Value → Bool
  | .bool a, .bool b => a == b
  | .bool _, _ => false
  | _, .bool _ => false
  | .number m, .number n => m.eq n
  | v, w => equals v w

end Workflow.Value
