import Workflow.Text.Digit

/-!
# Instants

A clock that advances by one second at each reading, counted from the beginning of 2026.
-/

namespace Workflow

open Text

/-- A number of seconds after the beginning of 2026, in universal time. -/
structure Instant where
  seconds : Nat
  deriving DecidableEq, Repr

namespace Instant

/-- The days from the first of March of year zero to the beginning of 2026. -/
def dayOffset : Nat := 739922

/-- The year, month and day of a number of days after the first of March of year zero. Years
are counted from March, so that the leap day comes last. -/
def civil (days : Nat) : Nat × Nat × Nat :=
  let era := days / 146097
  let dayOfEra := days % 146097
  let yearOfEra := (dayOfEra - dayOfEra / 1460 + dayOfEra / 36524 - dayOfEra / 146096) / 365
  let dayOfYear := dayOfEra - (365 * yearOfEra + yearOfEra / 4 - yearOfEra / 100)
  let shifted := (5 * dayOfYear + 2) / 153
  let day := dayOfYear - (153 * shifted + 2) / 5 + 1
  let month := if shifted < 10 then shifted + 3 else shifted - 9
  (yearOfEra + era * 400 + (if month ≤ 2 then 1 else 0), month, day)

/-- A number with at least the given number of digits. -/
def padded (width n : Nat) : String := String.ofList (padLeft width '0' (decimalDigits n))

def text (t : Instant) : String :=
  let (year, month, day) := civil (dayOffset + t.seconds / 86400)
  let inDay := t.seconds % 86400
  padded 4 year ++ "-" ++ padded 2 month ++ "-" ++ padded 2 day ++ "T" ++
    padded 2 (inDay / 3600) ++ ":" ++ padded 2 (inDay / 60 % 60) ++ ":" ++ padded 2 (inDay % 60) ++
    "+00:00"

end Instant
end Workflow
