import Workflow.Text.Span
import Workflow.Text.DigitTable

/-!
# Decimal digits

The value of a decimal digit of any script, and the digits that numerals are written with.
-/

namespace Workflow.Text

def digitValue? (c : Char) : Option Nat :=
  (digitSpans.find? fun s => s.1 ≤ c.toNat && c.toNat ≤ s.2).map fun s => (c.toNat - s.1) % 10

/-- The value of an ASCII digit in a base of at most 16, letters in either case. -/
def radixDigit? (base : Nat) (c : Char) : Option Nat :=
  let value :=
    if '0' ≤ c && c ≤ '9' then some (c.toNat - 48)
    else if 'a' ≤ c && c ≤ 'f' then some (c.toNat - 87)
    else if 'A' ≤ c && c ≤ 'F' then some (c.toNat - 55)
    else none
  value.filter (· < base)

/-- The number written by digits of a base, most significant first. -/
def ofDigits (base : Nat) (digits : List Nat) : Nat :=
  digits.foldl (fun n d => n * base + d) 0

def ofDecimalDigits (digits : List Char) : Nat :=
  ofDigits 10 (digits.map fun c => c.toNat - 48)

/-- The decimal digits of a number, most significant first. -/
def decimalDigits (n : Nat) : List Char := Nat.toDigits 10 n

def decimalWidth (n : Nat) : Nat := (decimalDigits n).length

/-- A text continued on the left with a character up to the given width. -/
def padLeft (width : Nat) (fill : Char) (cs : List Char) : List Char :=
  List.replicate (width - cs.length) fill ++ cs

/-- The hexadecimal digits of a number, at least `width` of them. -/
def hexDigits (width n : Nat) : List Char := padLeft width '0' (Nat.toDigits 16 n)

end Workflow.Text
