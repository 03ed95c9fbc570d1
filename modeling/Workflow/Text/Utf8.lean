import Workflow.Text.Digit

/-!
# Text in bytes

The characters of a text stand in a file as one to four bytes each. The first byte of a
character fixes how many follow and the span in which each of them lies; bytes that break
this rule are refused at the character in which they stand.
-/

namespace Workflow.Text

/-- What is wrong with the bytes of a character. -/
inductive Utf8Problem
  | badStart
  | badContinuation
  | cutOff
  deriving DecidableEq, Repr

def Utf8Problem.message : Utf8Problem → String
  | .badStart => "invalid start byte"
  | .badContinuation => "invalid continuation byte"
  | .cutOff => "unexpected end of data"

/-- Why bytes are no text: a problem, the position and value of the first byte concerned, and
how many bytes are concerned. -/
structure Utf8Fault where
  problem : Utf8Problem
  position : Nat
  byte : UInt8
  count : Nat
  deriving DecidableEq, Repr

def Utf8Fault.message (f : Utf8Fault) : String :=
  let place :=
    if f.count ≤ 1 then
      let digits := String.ofList (hexDigits 2 f.byte.toNat)
      s!"byte 0x{digits} in position {f.position}"
    else
      let last := f.position + f.count - 1
      s!"bytes in position {f.position}-{last}"
  s!"'utf-8' codec can't decode {place}: {f.problem.message}"

abbrev ByteSpan := UInt8 × UInt8

/-- The bytes that may stand behind the first two bytes of a character. -/
def continuation : ByteSpan := (0x80, 0xbf)

/-- The spans of the bytes that follow the first byte of a character, and the part of the
code that the first byte holds. -/
def continuations? (first : UInt8) : Option (List ByteSpan × Nat) :=
  if first < 0x80 then some ([], first.toNat)
  else if first < 0xc2 then none
  else if first < 0xe0 then some ([continuation], first.toNat - 0xc0)
  else if first < 0xf0 then
    let second := if first = 0xe0 then (0xa0, 0xbf) else if first = 0xed then (0x80, 0x9f)
      else continuation
    some ([second, continuation], first.toNat - 0xe0)
  else if first < 0xf5 then
    let second := if first = 0xf0 then (0x90, 0xbf) else if first = 0xf4 then (0x80, 0x8f)
      else continuation
    some ([second, continuation, continuation], first.toNat - 0xf0)
  else none

/-- Takes the bytes that follow the first byte of a character, after `taken` of its bytes,
and completes its code. -/
def takeContinuations (code taken : Nat) :
    List ByteSpan → List UInt8 → Except (Utf8Problem × Nat) (Nat × List UInt8)
  | [], bytes => .ok (code, bytes)
  | _ :: _, [] => .error (.cutOff, taken)
  | span :: spans, byte :: bytes =>
    if span.1 ≤ byte && byte ≤ span.2 then
      takeContinuations (code * 64 + (byte.toNat - 0x80)) (taken + 1) spans bytes
    else .error (.badContinuation, taken)

/-- The rest after a character is no longer than the bytes behind its first one. -/
theorem length_of_takeContinuations {code taken : Nat} {spans : List ByteSpan}
    {bytes : List UInt8} {code' : Nat} {rest : List UInt8}
    (h : takeContinuations code taken spans bytes = .ok (code', rest)) :
    rest.length ≤ bytes.length := by
  induction spans generalizing code taken bytes with
  | nil =>
    simp only [takeContinuations, Except.ok.injEq, Prod.mk.injEq] at h
    exact Nat.le_of_eq (congrArg List.length h.2.symm)
  | cons span spans ih =>
    cases bytes with
    | nil => simp [takeContinuations] at h
    | cons byte bytes =>
      simp only [takeContinuations] at h
      split at h
      · exact Nat.le_succ_of_le (ih h)
      · cases h

def decodeFrom (position : Nat) (bytes : List UInt8) : Except Utf8Fault (List Char) :=
  match bytes with
  | [] => .ok []
  | first :: bytes =>
    match continuations? first with
    | none => .error ⟨.badStart, position, first, 1⟩
    | some (spans, code) =>
      match h : takeContinuations code 1 spans bytes with
      | .error (problem, count) => .error ⟨problem, position, first, count⟩
      | .ok (code, rest) =>
        have := length_of_takeContinuations h
        (decodeFrom (position + 1 + spans.length) rest).map (Char.ofNat code :: ·)
termination_by bytes.length

def decodeText (bytes : List UInt8) : Except Utf8Fault String :=
  (decodeFrom 0 bytes).map String.ofList

def encodeText (s : String) : List UInt8 := s.toUTF8.toList

/-- The characters with every line end, in whichever of its three forms, as one newline. -/
def normaliseLineEnds : List Char → List Char
  | [] => []
  | '\r' :: '\n' :: cs => '\n' :: normaliseLineEnds cs
  | '\r' :: cs => '\n' :: normaliseLineEnds cs
  | c :: cs => c :: normaliseLineEnds cs

end Workflow.Text
