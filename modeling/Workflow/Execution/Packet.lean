import Workflow.Value.Text

/-!
# Packets

A packet is what a node receives and hands on: values under keys, in the order in which the
keys were first given. Documents name every key by a text, but a transform may set a key that
is null, a truth value or a number.

Two keys are the same when they stand for the same thing: numbers of equal value are one key,
and the truth values count as one and zero. The undefined number stands for nothing, so that
it is never the same as any key. Main statement: `get?_set` says what a packet holds after a
key was set.
-/

namespace Workflow

/-- What a value of a packet is filed under. -/
inductive Key
  | null
  | bool (b : Bool)
  | number (n : Number)
  | text (name : String)
  deriving DecidableEq, Repr

namespace Key

/-- What a key stands for. -/
inductive Meaning
  | null
  | number (place : Place)
  | text (name : String)
  deriving DecidableEq, Repr

def meaning? : Key → Option Meaning
  | .null => some .null
  | .bool b => (Number.int (if b then 1 else 0)).place?.map .number
  | .number n => n.place?.map .number
  | .text name => some (.text name)

def same (k l : Key) : Bool := k.meaning?.isSome && k.meaning? == l.meaning?

def toValue : Key → Value
  | .null => .null
  | .bool b => .bool b
  | .number n => .number n
  | .text name => .text name

def ofValue : Value → Except Fault Key
  | .null => .ok .null
  | .bool b => .ok (.bool b)
  | .number n => .ok (.number n)
  | .text name => .ok (.text name)
  | .list _ => .error (.unhashable .list)
  | .record _ => .error (.unhashable .record)

def toText (k : Key) : Except Fault String := k.toValue.toText

theorem same_iff {k l : Key} :
    k.same l = true ↔ ∃ m, k.meaning? = some m ∧ l.meaning? = some m := by
  simp only [same, Bool.and_eq_true, beq_iff_eq, Option.isSome_iff_exists]
  constructor
  · rintro ⟨⟨m, hm⟩, h⟩
    exact ⟨m, hm, h ▸ hm⟩
  · rintro ⟨m, hk, hl⟩
    exact ⟨⟨m, hk⟩, hk.trans hl.symm⟩

theorem same_comm (k l : Key) : k.same l = l.same k := by
  rw [Bool.eq_iff_iff, same_iff, same_iff]
  constructor <;> rintro ⟨m, h, h'⟩ <;> exact ⟨m, h', h⟩

theorem same_congr {k l : Key} (h : k.same l = true) (j : Key) : k.same j = l.same j := by
  obtain ⟨m, hk, hl⟩ := same_iff.1 h
  rw [same, same, hk, hl]

theorem same_text (a b : String) : (text a).same (text b) = decide (a = b) := by
  simp [same, meaning?, Bool.beq_eq_decide_eq]

end Key

abbrev Packet := List (Key × Value)

namespace Packet

def ofRecord (r : Record) : Packet := r.map fun field => (.text field.1, field.2)

def get? (p : Packet) (k : Key) : Option Value := (p.find? (·.1.same k)).map (·.2)

/-- Files a value under a key: in its place if the packet has the key, else at the end. -/
def set : Packet → Key → Value → Packet
  | [], k, v => [(k, v)]
  | (l, w) :: rest, k, v => if l.same k then (l, v) :: rest else (l, w) :: set rest k v

/-- The packet as a record, with the names that the keys are given. -/
def toRecord (name : Key → Except Fault String) : Packet → Except Fault Record
  | [] => .ok []
  | (k, v) :: rest => do
    let first ← name k
    let others ← toRecord name rest
    return (first, v) :: others

theorem get?_cons (k : Key) (v : Value) (p : Packet) (l : Key) :
    get? ((k, v) :: p) l = if k.same l then some v else get? p l := by
  cases h : k.same l <;> simp [get?, h]

/-- After a key was set, the keys that are the same have the new value and all others are as
they were. -/
theorem get?_set (p : Packet) (k : Key) (v : Value) (l : Key) :
    (set p k v).get? l = if k.same l then some v else p.get? l := by
  induction p with
  | nil => simp [set, get?]
  | cons field rest ih =>
    obtain ⟨j, w⟩ := field
    by_cases hj : j.same k
    · simp only [set, hj, if_true, get?_cons, Key.same_congr hj]
      split <;> rfl
    · simp only [set, hj, Bool.false_eq_true, if_false, get?_cons, ih]
      cases hl : k.same l
      · simp
      · have : j.same l = false := by
          rw [Key.same_comm, ← Key.same_congr hl, Key.same_comm]
          simpa using hj
        simp [this]

end Packet
end Workflow
