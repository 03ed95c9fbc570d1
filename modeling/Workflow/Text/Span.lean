/-!
# Spans of characters

A class of characters is written as the list of its spans, each given by its first and last
code point.
-/

namespace Workflow.Text

def inSpans (spans : List (Nat × Nat)) (c : Char) : Bool :=
  spans.any fun s => s.1 ≤ c.toNat && c.toNat ≤ s.2

end Workflow.Text
