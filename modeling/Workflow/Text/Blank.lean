import Workflow.Text.Span

/-!
# Blank characters, trimming and words

The blank characters are the white space of all scripts together with the four separator
controls 28 to 31. Trimming removes them at both ends, and words are the maximal runs of
characters without one.
-/

namespace Workflow.Text

def blankSpans : List (Nat × Nat) := [
  (0x9, 0xd), (0x1c, 0x20), (0x85, 0x85), (0xa0, 0xa0), (0x1680, 0x1680), (0x2000, 0x200a),
  (0x2028, 0x2029), (0x202f, 0x202f), (0x205f, 0x205f), (0x3000, 0x3000)]

def isBlank (c : Char) : Bool := inSpans blankSpans c

def trimStart (cs : List Char) : List Char := cs.dropWhile isBlank

def trimEnd (cs : List Char) : List Char := (cs.reverse.dropWhile isBlank).reverse

def trimChars (cs : List Char) : List Char := trimEnd (trimStart cs)

def trim (s : String) : String := String.ofList (trimChars s.toList)

/-- Splits the characters into words; `word` holds the letters of the current word in
reverse. -/
def wordsFrom : List Char → List Char → List String
  | [], [] => []
  | [], word@(_ :: _) => [String.ofList word.reverse]
  | c :: cs, word =>
    if isBlank c then
      match word with
      | [] => wordsFrom cs []
      | _ :: _ => String.ofList word.reverse :: wordsFrom cs []
    else wordsFrom cs (c :: word)

def words (s : String) : List String := wordsFrom s.toList []

/-- The first `count` words and then the rest of the text, with its inner blanks kept and
the blanks around it removed; the rest is left out when it is empty. -/
def wordsAndRest : Nat → List Char → List String
  | 0, cs =>
    match trimChars cs with
    | [] => []
    | rest@(_ :: _) => [String.ofList rest]
  | n + 1, cs =>
    match trimStart cs with
    | [] => []
    | rest@(_ :: _) =>
      String.ofList (rest.takeWhile (!isBlank ·)) :: wordsAndRest n (rest.dropWhile (!isBlank ·))

end Workflow.Text
