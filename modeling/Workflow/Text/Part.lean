/-!
# Parts of a text

What stands between the separators of a text. There is one part more than there are
separators, and parts may be empty.
-/

namespace Workflow.Text

/-- The parts of the characters between separators; `part` holds the part before them in
reverse. -/
def partsFrom (separator : Char) : List Char → List Char → List (List Char)
  | [], part => [part.reverse]
  | c :: cs, part =>
    if c = separator then part.reverse :: partsFrom separator cs []
    else partsFrom separator cs (c :: part)

def parts (separator : Char) (cs : List Char) : List (List Char) := partsFrom separator cs []

/-- The characters before the first separator, and those behind it. -/
def cut (separator : Char) (cs : List Char) : List Char × List Char :=
  (cs.takeWhile (· ≠ separator), (cs.dropWhile (· ≠ separator)).drop 1)

end Workflow.Text
