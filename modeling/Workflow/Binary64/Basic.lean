/-!
# Floating-point numbers of 64 bits

Every finite number of the format is a whole number of quanta of `2 ^ -1074`, and a whole
number of quanta belongs to the format exactly when its significant bits fit into 53 and it
stays below `2 ^ 2098` quanta. So a finite number is kept as its sign and its quanta: two
numbers are compared, added and multiplied as integers, and one rounding rule, to the nearest
number of the format with ties to the even one, serves all operations.
-/

namespace Workflow

def quantaPerUnit : Nat := Nat.pow 2 1074

/-- The first number of quanta beyond the largest finite number. -/
def quantaLimit : Nat := Nat.pow 2 2098

/-- How far apart the numbers of the format lie around a number of quanta. -/
def grain (quanta : Nat) : Nat := Nat.pow 2 (quanta.log2 - 52)

/-- The numbers of quanta that are the magnitude of a number of the format. -/
def Representable (quanta : Nat) : Prop := quanta < quantaLimit ∧ quanta % grain quanta = 0

instance (quanta : Nat) : Decidable (Representable quanta) :=
  inferInstanceAs (Decidable (_ ∧ _))

/-- A number of the format. Zero has two signs. An undefined number bears a mark: documents
name one, which is the same wherever it is read; the result of a computation has no name. -/
inductive Binary64
  | nan (named : Bool)
  | infinite (negative : Bool)
  | finite (negative : Bool) (quanta : Nat) (representable : Representable quanta)
  deriving DecidableEq, Repr

/-- The whole number nearest to a quotient, and the even one of two equally near. -/
def roundQuotient (num den : Nat) : Nat :=
  let q := num / den
  let r := num % den
  if 2 * r < den then q
  else if den < 2 * r then q + 1
  else if q % 2 = 0 then q
  else q + 1

/-- The quotient rounded to a multiple of the grain at its place. -/
def roundToGrain (num den : Nat) : Nat :=
  let g := grain (num / den)
  roundQuotient num (den * g) * g

namespace Binary64

theorem quantaLimit_pos : 0 < quantaLimit := by decide +kernel

theorem representable_zero : Representable 0 := ⟨quantaLimit_pos, Nat.zero_mod _⟩

instance : Inhabited Binary64 := ⟨.nan false⟩

def zero (negative : Bool) : Binary64 := .finite negative 0 representable_zero

/-- The finite number of the given quanta, or infinity when they are out of range. -/
def ofQuanta (negative : Bool) (quanta : Nat) : Binary64 :=
  if h : Representable quanta then .finite negative quanta h else .infinite negative

def ofRatio (negative : Bool) (num den : Nat) : Binary64 :=
  ofQuanta negative (roundToGrain num den)

/-- The number nearest to an integer, unless that is beyond the largest finite one. -/
def ofInt? (n : Int) : Option Binary64 :=
  let quanta := roundToGrain (n.natAbs * quantaPerUnit) 1
  if h : Representable quanta then some (.finite (n < 0) quanta h) else none

def signed (negative : Bool) (n : Nat) : Int := if negative then -(n : Int) else n

/-- The number of a signed sum of quanta; an empty sum keeps the sign it is given. -/
def ofSignedQuanta (zeroSign : Bool) (sum : Int) : Binary64 :=
  if sum = 0 then zero zeroSign else ofRatio (sum < 0) sum.natAbs 1

def add : Binary64 → Binary64 → Binary64
  | .nan _, _ => .nan false
  | _, .nan _ => .nan false
  | .infinite s, .infinite t => if s = t then .infinite s else .nan false
  | .infinite s, .finite .. => .infinite s
  | .finite .., .infinite t => .infinite t
  | .finite s m _, .finite t n _ => ofSignedQuanta (s && t) (signed s m + signed t n)

def mul : Binary64 → Binary64 → Binary64
  | .nan _, _ => .nan false
  | _, .nan _ => .nan false
  | .infinite s, .infinite t => .infinite (s != t)
  | .infinite s, .finite t n _ => if n = 0 then .nan false else .infinite (s != t)
  | .finite s m _, .infinite t => if m = 0 then .nan false else .infinite (s != t)
  | .finite s m _, .finite t n _ => ofRatio (s != t) (m * n) quantaPerUnit

def isNaN : Binary64 → Bool
  | .nan _ => true
  | _ => false

def toInt? : Binary64 → Option Int
  | .finite s m _ => if m % quantaPerUnit = 0 then some (signed s (m / quantaPerUnit)) else none
  | _ => none

/-- Whether the number is a whole multiple of a non-zero one. An infinite number is a
multiple of nothing, and only zero is a multiple of an infinite one. -/
def isMultipleOf : Binary64 → Binary64 → Bool
  | .finite _ m _, .finite _ n _ => m % n == 0
  | .finite _ m _, .infinite _ => m == 0
  | _, _ => false

end Binary64
end Workflow
