import Workflow.Number.Literal
import Workflow.Value.Basic

/-!
# Reading JSON

A reader by recursive descent over the characters of a document. It accepts the standard
grammar and the three words for numbers without digits. A document that is refused is refused
at a position: each part of the reader names it by the number of characters left there. Two
limits stop the reader instead: on the digits of an integer and on the nesting.
-/

namespace Workflow.Json

open Text

/-- What is wrong at a place of a document. -/
inductive Problem
  | expectedValue
  | expectedName
  | expectedColon
  | expectedComma
  | trailingText
  | unterminatedText
  | controlCharacter
  | badEscape
  | badCodeEscape
  | byteOrderMark
  deriving DecidableEq, Repr

def Problem.message : Problem → String
  | .expectedValue => "Expecting value"
  | .expectedName => "Expecting property name enclosed in double quotes"
  | .expectedColon => "Expecting ':' delimiter"
  | .expectedComma => "Expecting ',' delimiter"
  | .trailingText => "Extra data"
  | .unterminatedText => "Unterminated string starting at"
  | .controlCharacter => "Invalid control character at"
  | .badEscape => "Invalid \\escape"
  | .badCodeEscape => "Invalid \\uXXXX escape"
  | .byteOrderMark => "Unexpected UTF-8 BOM (decode using utf-8-sig)"

/-- Why a document is refused: a problem with `left` characters to go, or a fault that
stopped the reader. -/
inductive Refusal
  | malformed (problem : Problem) (left : Nat)
  | fault (fault : Fault)
  deriving DecidableEq, Repr

def nestingLimit : Nat := 990

/-- How many levels are left inside a list or record, if one is left for it. -/
def descend (container : Container) : Nat → Except Refusal Nat
  | 0 => .error (.fault (.nestedTooDeeply container))
  | levels + 1 => .ok levels

def refuse {α : Type} (problem : Problem) (cs : List Char) : Except Refusal α :=
  .error (.malformed problem cs.length)

/-- The four characters that may stand between tokens. -/
def isSpace (c : Char) : Bool := c = ' ' || c = '\n' || c = '\r' || c = '\t'

def skipSpace (cs : List Char) : List Char := cs.dropWhile isSpace

def codeOf? (digits : List Char) : Option Nat := do
  let values ← digits.mapM (radixDigit? 16)
  return ofDigits 16 values

/-- The character a letter after a backslash stands for. -/
def shortEscape? : Char → Option Char
  | '"' => some '"'
  | '\\' => some '\\'
  | '/' => some '/'
  | 'b' => some '\x08'
  | 'f' => some '\x0c'
  | 'n' => some '\n'
  | 'r' => some '\r'
  | 't' => some '\t'
  | _ => none

/-- Whether a code is the first half of a pair that encodes one character. -/
def isHighHalf (code : Nat) : Bool := 0xd800 ≤ code && code ≤ 0xdbff

def isLowHalf (code : Nat) : Bool := 0xdc00 ≤ code && code ≤ 0xdfff

def joinHalves (high low : Nat) : Char :=
  Char.ofNat (0x10000 + (high - 0xd800) * 0x400 + (low - 0xdc00))

/-- The character of a code; a half that stands alone becomes the replacement character. -/
def charOf (code : Nat) : Char :=
  if isHighHalf code || isLowHalf code then '\ufffd' else Char.ofNat code

/-- Reads four hexadecimal digits behind the letter that announces them; something must
follow them. -/
def readCode : List Char → Except Refusal (Nat × List Char)
  | 'u' :: a :: b :: c :: d :: next :: rest =>
    match codeOf? [a, b, c, d] with
    | some code => .ok (code, next :: rest)
    | none => refuse .badCodeEscape ('u' :: a :: b :: c :: d :: next :: rest)
  | cs => refuse .badCodeEscape cs

/-- Reads the character of a code escape from its letter on. The first half of a pair is
joined with a second half in the next escape. -/
def readCodeEscape (cs : List Char) : Except Refusal (Char × List Char) := do
  let (code, rest) ← readCode cs
  match isHighHalf code, rest with
  | true, '\\' :: 'u' :: a :: b :: c :: d :: next :: rest' =>
    let (low, after) ← readCode ('u' :: a :: b :: c :: d :: next :: rest')
    if isLowHalf low then return (joinHalves code low, after) else return (charOf code, rest)
  | _, _ => return (charOf code, rest)

/-- Reads one character of a text, or its closing quote as nothing; `opening` are the
characters from the opening quote on. -/
def readChar (opening : List Char) : List Char → Except Refusal (Option Char × List Char)
  | [] => refuse .unterminatedText opening
  | ['\\'] => refuse .unterminatedText opening
  | '"' :: rest => .ok (none, rest)
  | '\\' :: 'u' :: rest => do
    let (c, rest) ← readCodeEscape ('u' :: rest)
    return (some c, rest)
  | '\\' :: c :: rest =>
    match shortEscape? c with
    | some e => .ok (some e, rest)
    | none => refuse .badEscape ('\\' :: c :: rest)
  | c :: rest => if c.toNat < 32 then refuse .controlCharacter (c :: rest) else .ok (some c, rest)

/-- Reads a text from behind its opening quote; `fuel` bounds its characters and `done` holds
those read, last first. -/
def readText (opening : List Char) :
    Nat → List Char → List Char → Except Refusal (String × List Char)
  | 0, _, _ => refuse .unterminatedText opening
  | fuel + 1, done, cs => do
    match ← readChar opening cs with
    | (none, rest) => return (String.ofList done.reverse, rest)
    | (some c, rest) => readText opening fuel (c :: done) rest

/-- Splits the fraction of a number from the characters: a point with at least one digit. -/
def splitFraction : List Char → Option (List Char) × List Char
  | '.' :: cs =>
    match cs.takeWhile Char.isDigit with
    | [] => (none, '.' :: cs)
    | digits => (some digits, cs.dropWhile Char.isDigit)
  | cs => (none, cs)

/-- Splits the exponent of a number from the characters: the letter, an optional sign and at
least one digit. -/
def splitExponent : List Char → Option Int × List Char
  | [] => (none, [])
  | e :: cs =>
    if e = 'e' || e = 'E' then
      let (negative, body) := Number.splitSign cs
      match body.takeWhile Char.isDigit with
      | [] => (none, e :: cs)
      | digits =>
        (some (Binary64.signed negative (ofDecimalDigits digits)), body.dropWhile Char.isDigit)
    else (none, e :: cs)

/-- The integer digits at the front: a zero alone or a run that starts with another digit. -/
def splitWhole : List Char → List Char × List Char
  | '0' :: cs => (['0'], cs)
  | cs => (cs.takeWhile Char.isDigit, cs.dropWhile Char.isDigit)

/-- Reads the digits of a number behind its sign. Without fraction and exponent it is an
integer. -/
def readDigits (negative : Bool) (start cs : List Char) :
    Except Refusal (Number × List Char) :=
  match splitWhole cs with
  | ([], _) => refuse .expectedValue start
  | (whole, rest) =>
    let (fraction, rest) := splitFraction rest
    let (exponent, rest) := splitExponent rest
    if fraction.isNone && exponent.isNone then
      if whole.length ≤ digitLimit then
        .ok (.int (Binary64.signed negative (ofDecimalDigits whole)), rest)
      else .error (.fault (.tooManyDigits (some whole.length)))
    else
      let literal : Literal := ⟨negative, whole, fraction.getD [], exponent.getD 0⟩
      .ok (.float literal.toBinary64, rest)

def readNumber : List Char → Except Refusal (Number × List Char)
  | '-' :: cs => readDigits true ('-' :: cs) cs
  | cs => readDigits false cs cs

/-- Reads the name of a field and the colon after it; `fuel` bounds the length. -/
def readName (fuel : Nat) : List Char → Except Refusal (String × List Char)
  | '"' :: cs => do
    let (name, rest) ← readText ('"' :: cs) fuel [] cs
    match skipSpace rest with
    | ':' :: rest => .ok (name, skipSpace rest)
    | rest => refuse .expectedColon rest
  | cs => refuse .expectedName cs

mutual

/-- Reads a value that starts at the first character; `levels` bounds the nesting, and `fuel`
bounds nesting and length. -/
def readValue (levels : Nat) : Nat → List Char → Except Refusal (Value × List Char)
  | 0, cs => refuse .expectedValue cs
  | fuel + 1, cs =>
    match cs with
    | '"' :: rest => do
      let (s, rest) ← readText cs fuel [] rest
      return (.text s, rest)
    | '\x7b' :: rest => do
      let levels ← descend .record levels
      match skipSpace rest with
      | '\x7d' :: rest => return (.record [], rest)
      | rest =>
        let (fields, rest) ← readFields levels fuel [] rest
        return (.record fields, rest)
    | '[' :: rest => do
      let levels ← descend .list levels
      match skipSpace rest with
      | ']' :: rest => return (.list [], rest)
      | rest =>
        let (items, rest) ← readItems levels fuel [] rest
        return (.list items, rest)
    | 'n' :: 'u' :: 'l' :: 'l' :: rest => .ok (.null, rest)
    | 't' :: 'r' :: 'u' :: 'e' :: rest => .ok (.bool true, rest)
    | 'f' :: 'a' :: 'l' :: 's' :: 'e' :: rest => .ok (.bool false, rest)
    | 'N' :: 'a' :: 'N' :: rest => .ok (.float (.nan true), rest)
    | 'I' :: 'n' :: 'f' :: 'i' :: 'n' :: 'i' :: 't' :: 'y' :: rest =>
      .ok (.float (.infinite false), rest)
    | '-' :: 'I' :: 'n' :: 'f' :: 'i' :: 'n' :: 'i' :: 't' :: 'y' :: rest =>
      .ok (.float (.infinite true), rest)
    | cs => do
      let (n, rest) ← readNumber cs
      return (.number n, rest)

/-- Reads the items of a list up to its closing bracket; `done` holds those read, last
first. -/
def readItems (levels : Nat) :
    Nat → List Value → List Char → Except Refusal (List Value × List Char)
  | 0, _, cs => refuse .expectedValue cs
  | fuel + 1, done, cs => do
    let (v, rest) ← readValue levels fuel cs
    match skipSpace rest with
    | ']' :: rest => .ok ((v :: done).reverse, rest)
    | ',' :: rest => readItems levels fuel (v :: done) (skipSpace rest)
    | rest => refuse .expectedComma rest

/-- Reads the fields of a record up to its closing brace; `done` holds those read. -/
def readFields (levels : Nat) :
    Nat → Record → List Char → Except Refusal (Record × List Char)
  | 0, _, cs => refuse .expectedName cs
  | fuel + 1, done, cs => do
    let (name, rest) ← readName fuel cs
    let (v, rest) ← readValue levels fuel rest
    match skipSpace rest with
    | '\x7d' :: rest => .ok (done.set name v, rest)
    | ',' :: rest => readFields levels fuel (done.set name v) (skipSpace rest)
    | rest => refuse .expectedComma rest

end

def readChars (cs : List Char) : Except Refusal Value :=
  match cs with
  | '\ufeff' :: _ => refuse .byteOrderMark cs
  | _ => do
    let (v, rest) ← readValue nestingLimit (2 * cs.length + 1) (skipSpace cs)
    match skipSpace rest with
    | [] => return v
    | rest => refuse .trailingText rest

def read (document : String) : Except Refusal Value := readChars document.toList

/-- Where a problem lies: line and column counted from one, offset from zero. -/
def locate (document : String) (left : Nat) : Nat × Nat × Nat :=
  let cs := document.toList
  let offset := cs.length - left
  let before := cs.take offset
  (before.count '\n' + 1, (before.reverse.takeWhile (· ≠ '\n')).length + 1, offset)

/-- The wording of a problem with its place in the document. -/
def describe (document : String) (problem : Problem) (left : Nat) : String :=
  let (line, column, offset) := locate document left
  s!"{problem.message}: line {line} column {column} (char {offset})"

end Workflow.Json
