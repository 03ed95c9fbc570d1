import Workflow.Text.Blank

/-!
# Completing a line

While the root of a command is typed it is completed to the roots that begin with it. Behind
a root and a blank, the line is completed to the root with one of its options. What is
offered stands in order, each line once.
-/

namespace Workflow

open Text

/-- A line that is offered, and how many characters before the cursor it replaces. -/
structure Completion where
  line : String
  replaces : Nat
  deriving DecidableEq, Repr

namespace Completion

def sorted (texts : List String) : List String := texts.eraseDups.mergeSort fun a b => a ≤ b

def extending (typed : String) (lines : List String) : List Completion :=
  (lines.filter fun line => typed.toList.isPrefixOf line.toList).map fun line =>
    ⟨line, typed.length⟩

def endsInSpace (typed : String) : Bool := typed.toList.getLast? = some ' '

/-- The lines offered for the text before the cursor, given the roots of commands and the
options of each. -/
def offered (roots : List String) (options : String → List String) (typed : String) :
    List Completion :=
  if typed.toList.head? ≠ some '/' then []
  else
    match words typed with
    | [] => []
    | [root] =>
      if endsInSpace typed then withOptions root else extending root (sorted roots)
    | root :: _ => withOptions root
where
  /-- The lines offered behind a root. -/
  withOptions (root : String) : List Completion :=
    if root ∈ roots then
      extending typed ((sorted (options root)).map fun option => root ++ " " ++ option)
    else []

end Completion
end Workflow
