import TypeScribe.Text.Hex
import TypeScribe.Text.Printable

/-!
# Shown texts

A text as messages show it: between single quotes, or between double quotes if it holds single
quotes only. Printable characters of any script stand as they are, the others as the shortest of
three escapes.
-/

namespace TypeScribe.Text

/-- The quote a text is shown between. -/
def shownQuote (cs : List Char) : Char :=
  if cs.contains '\'' && !cs.contains '"' then '"' else '\''

/-- One character as it stands between the quotes. -/
def shownChar (quote c : Char) : List Char :=
  if c = quote ∨ c = '\\' then ['\\', c]
  else if c = '\n' then ['\\', 'n']
  else if c = '\r' then ['\\', 'r']
  else if c = '\t' then ['\\', 't']
  else if isPrintable c then [c]
  else if c.toNat < 0x100 then '\\' :: 'x' :: hex 2 c.toNat
  else if c.toNat < 0x10000 then '\\' :: 'u' :: hex 4 c.toNat
  else '\\' :: 'U' :: hex 8 c.toNat

/-- **Shown text.** -/
def shown (s : String) : String :=
  let quote := shownQuote s.toList
  String.ofList (quote :: (s.toList.flatMap (shownChar quote) ++ [quote]))

end TypeScribe.Text
