import Workflow.Number.Basic

/-!
# Values

What documents hold and what flows through a workflow: the values of a data format with
integers of any size. A record keeps its fields in the order in which their names were first
given.
-/

namespace Workflow

/-- A value of the data format. -/
inductive Value
  | null
  | bool (b : Bool)
  | number (n : Number)
  | text (s : String)
  | list (items : List Value)
  | record (fields : List (String × Value))
  deriving Repr

instance : Inhabited Value := ⟨.null⟩

abbrev Record := List (String × Value)

namespace Record

def get? (r : Record) (name : String) : Option Value := r.lookup name

/-- The value of a field, or a default for a field that is absent. -/
def getD (r : Record) (name : String) (default : Value) : Value := (r.get? name).getD default

/-- Gives a field a value: in its place if the record has the field, else at the end. -/
def set : Record → String → Value → Record
  | [], name, value => [(name, value)]
  | (k, v) :: rest, name, value =>
    if k = name then (k, value) :: rest else (k, v) :: set rest name value

/-- The first record with the fields of the second set one after another. -/
def merge (r changes : Record) : Record :=
  changes.foldl (fun acc field => acc.set field.1 field.2) r

def DistinctNames (r : Record) : Prop := (r.map Prod.fst).Nodup

instance (r : Record) : Decidable r.DistinctNames := inferInstanceAs (Decidable (List.Nodup _))

end Record

namespace Value

def int (n : Int) : Value := .number (.int n)

def float (x : Binary64) : Value := .number (.float x)

def ofOption : Option Value → Value
  | some v => v
  | none => .null

def ofText? (s : Option String) : Value := ofOption (s.map Value.text)

def isNull : Value → Bool
  | .null => true
  | _ => false

def shapeName : Value → String
  | .null => "NoneType"
  | .bool _ => "bool"
  | .number (.int _) => "int"
  | .number (.float _) => "float"
  | .text _ => "str"
  | .list _ => "list"
  | .record _ => "dict"

/-- Whether something is given: null, false, zero and all empty values count as nothing. -/
def isFilled : Value → Bool
  | .null => false
  | .bool b => b
  | .number n => !n.isZero
  | .text s => s != ""
  | .list items => !items.isEmpty
  | .record fields => !fields.isEmpty

/-- A value where something is given, else another one. -/
def orElse (v w : Value) : Value := if v.isFilled then v else w

/-- Fails for the values that cannot be looked up in a set or table of names. -/
def checkHashable : Value → Except Fault Unit
  | .list _ => .error (.unhashable .list)
  | .record _ => .error (.unhashable .record)
  | _ => .ok ()

def asRecord? : Value → Option Record
  | .record fields => some fields
  | _ => none

def asNumber? : Value → Option Number
  | .number n => some n
  | _ => none

def isNumber (v : Value) : Bool := v.asNumber?.isSome

/-! ## Structural equality is decidable -/

mutual

def decideEq : (a b : Value) → Decidable (a = b)
  | .null, .null => isTrue rfl
  | .bool a, .bool b => decidable_of_iff (a = b) (by simp)
  | .number a, .number b => decidable_of_iff (a = b) (by simp)
  | .text a, .text b => decidable_of_iff (a = b) (by simp)
  | .list a, .list b =>
    have := decideItems a b
    decidable_of_iff (a = b) (by simp)
  | .record a, .record b =>
    have := decideFields a b
    decidable_of_iff (a = b) (by simp)
  | .null, .bool _ | .null, .number _ | .null, .text _ | .null, .list _ | .null, .record _
  | .bool _, .null | .bool _, .number _ | .bool _, .text _ | .bool _, .list _ | .bool _, .record _
  | .number _, .null | .number _, .bool _ | .number _, .text _ | .number _, .list _
  | .number _, .record _
  | .text _, .null | .text _, .bool _ | .text _, .number _ | .text _, .list _ | .text _, .record _
  | .list _, .null | .list _, .bool _ | .list _, .number _ | .list _, .text _ | .list _, .record _
  | .record _, .null | .record _, .bool _ | .record _, .number _ | .record _, .text _
  | .record _, .list _ => isFalse (by simp)

def decideItems : (a b : List Value) → Decidable (a = b)
  | [], [] => isTrue rfl
  | [], _ :: _ => isFalse (by simp)
  | _ :: _, [] => isFalse (by simp)
  | v :: vs, w :: ws =>
    have := decideEq v w
    have := decideItems vs ws
    decidable_of_iff (v = w ∧ vs = ws) (by simp)

def decideFields : (a b : List (String × Value)) → Decidable (a = b)
  | [], [] => isTrue rfl
  | [], _ :: _ => isFalse (by simp)
  | _ :: _, [] => isFalse (by simp)
  | (k, v) :: vs, (l, w) :: ws =>
    have := decideEq v w
    have := decideFields vs ws
    decidable_of_iff (k = l ∧ v = w ∧ vs = ws) (by simp [and_assoc])

end

instance : DecidableEq Value := decideEq

end Value
end Workflow
