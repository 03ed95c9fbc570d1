import Workflow.Text.Span
import Workflow.Text.CaseTable

/-!
# Upper and lower case

The full case mappings: a character may become several, and a capital sigma becomes the final
form exactly when a cased character stands before it and none after it, characters without a
say in the matter skipped.
-/

namespace Workflow.Text

/-- The characters a character is replaced by: its expansion if it has one, else its
neighbour on the first run that covers it, else itself. -/
def mapCase (expansions : List (Nat × List Nat)) (runs : List CaseRun) (c : Char) :
    List Char :=
  match expansions.lookup c.toNat with
  | some codes => codes.map Char.ofNat
  | none =>
    match runs.find? (·.covers c) with
    | some run => [Char.ofNat (c.toNat + run.offset).toNat]
    | none => [c]

def upperChar (c : Char) : List Char := mapCase upperExpansions upperRuns c

/-- The lower-case form of one character that is no capital sigma. -/
def lowerChar (c : Char) : List Char := mapCase lowerExpansions lowerRuns c

def upper (s : String) : String := String.ofList (s.toList.flatMap upperChar)

/-- Whether the first character that counts is a cased one. -/
def meetsCased (cs : List Char) : Bool :=
  match cs.dropWhile (inSpans caseIgnorableSpans) with
  | [] => false
  | c :: _ => inSpans casedSpans c

/-- The lower-case form of the characters; `before` holds those already passed, nearest
first. -/
def lowerFrom (before : List Char) : List Char → List Char
  | [] => []
  | c :: rest =>
    (if c = 'Σ' then
      [if meetsCased before && !meetsCased rest then 'ς' else 'σ']
    else lowerChar c) ++ lowerFrom (c :: before) rest

def lower (s : String) : String := String.ofList (lowerFrom [] s.toList)

end Workflow.Text
