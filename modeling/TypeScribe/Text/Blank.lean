import TypeScribe.Text.Span

/-!
# Blank characters

The characters that count as white space inside a type expression: the ASCII blanks, the four
information separators, and the space and separator characters beyond ASCII.
-/

namespace TypeScribe.Text

/-- The blank characters beyond ASCII. -/
def blankSpans : List Span :=
  Span.ofEnds [0x85, 0x85, 0xA0, 0xA0, 0x1680, 0x1680, 0x2000, 0x200A, 0x2028, 0x2029, 0x202F, 0x202F,
    0x205F, 0x205F, 0x3000, 0x3000]

/-- **Blank**: tab to carriage return, the information separators, the space, and the spaces
beyond ASCII. -/
def isBlank (c : Char) : Bool :=
  if c.toNat < 0x80 then
    (9 ≤ c.toNat && c.toNat ≤ 13) || (28 ≤ c.toNat && c.toNat ≤ 32)
  else
    covered blankSpans c

end TypeScribe.Text
