/-!
# Lines

A line ends at every character that ends one, in any script, and a carriage return followed by a line
feed ends one line only. **Re-indentation** (`reindent`) moves all lines of a text but the first to the
right, which is how a type expression is placed inside a field.
-/

namespace TypeScribe.Text

/-- The characters that end a line: line feed to carriage return, three of the information
separators, the next-line control, and the line and paragraph separators. -/
def isLineBreak (c : Char) : Bool :=
  if c.toNat < 0x20 then
    (0x0A ≤ c.toNat && c.toNat ≤ 0x0D) || (0x1C ≤ c.toNat && c.toNat ≤ 0x1E)
  else
    c.toNat == 0x85 || c.toNat == 0x2028 || c.toNat == 0x2029

/-- Moves lines to the right; `fresh` says that the text begins at the start of a line that is to be
moved. The margin waits for the first character of its line, so an empty line gets none. A carriage
return and a line feed end one line, and a carriage return at the very end stands for nothing. -/
def shifted (margin : List Char) : (fresh : Bool) → List Char → List Char
  | _, [] => []
  | _, ['\r'] => []
  | _, '\r' :: '\n' :: rest => '\n' :: shifted margin true rest
  | fresh, c :: rest =>
    if isLineBreak c then '\n' :: shifted margin true rest
    else if fresh then margin ++ c :: shifted margin false rest
    else c :: shifted margin false rest

/-- **Re-indentation.** The first line stays, every later line that is not empty is moved right by
the margin, and every break becomes a line feed. -/
def reindent (margin text : List Char) : List Char := shifted margin false text

/-- Every line ending of a file becomes one line feed. -/
def unifyNewlines : List Char → List Char
  | [] => []
  | '\r' :: '\n' :: rest => '\n' :: unifyNewlines rest
  | '\r' :: rest => '\n' :: unifyNewlines rest
  | c :: rest => c :: unifyNewlines rest

end TypeScribe.Text
