/-!
# Spans of code points

A character class is given by the **spans** of code points it covers, in increasing order. The
classes of this library agree with an explicit rule on the ASCII characters and consult a list of
spans only beyond them.
-/

namespace TypeScribe.Text

/-- The code points from `first` to `last`, both included. -/
structure Span where
  first : Nat
  last : Nat
  deriving Repr, DecidableEq

namespace Span

/-- Whether a code point lies in the span. -/
def covers (s : Span) (n : Nat) : Bool := s.first ≤ n && n ≤ s.last

/-- Spans from a flat list of ends: `[a, b, c, d]` is the span `a … b` and the span `c … d`. -/
def ofEnds : List Nat → List Span
  | first :: last :: rest => ⟨first, last⟩ :: ofEnds rest
  | _ => []

end Span

/-- Whether one of the spans covers the character. -/
def covered (spans : List Span) (c : Char) : Bool := spans.any (·.covers c.toNat)

end TypeScribe.Text
