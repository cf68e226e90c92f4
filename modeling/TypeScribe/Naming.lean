import TypeScribe.Text.Upper
import TypeScribe.Text.Word
import TypeScribe.Text.Quoted

/-!
# Names

Two rules turn the free texts of a schema into names:

* a title becomes a **type name** (`typeName`): what is neither a word character nor a space is
  dropped, underscores count as spaces, and the words are joined with capital first letters;
* a **property name** (`propertyName`) stands as it is if it is an identifier, and quoted otherwise.
-/

namespace TypeScribe.Naming

open Text

/-- A title reduced to word characters and spaces. -/
def cleaned (cs : List Char) : List Char :=
  (cs.filter fun c => isWord c || c == ' ').map fun c => if c = '_' then ' ' else c

/-- Drops the spaces and raises the first character behind each run of them; `raised` says that the
characters begin behind such a run. -/
def joined : (raised : Bool) → List Char → List Char
  | _, [] => []
  | raised, c :: rest =>
    if c = ' ' then joined true rest
    else (if raised then upper c else [c]) ++ joined false rest

/-- Raises the first character. -/
def capitalized : List Char → List Char
  | [] => []
  | c :: rest => upper c ++ rest

/-- The type name of a title, on characters. -/
def typeNameChars (cs : List Char) : List Char := capitalized (joined false (cleaned cs))

/-- **Type name** of a title; empty if nothing usable is left. -/
def typeName (title : String) : String := String.ofList (typeNameChars title.toList)

/-- The type name of a title that may be missing. -/
def typeName? (title : Option String) : String := (title.map typeName).getD ""

/-- The characters an identifier may start with. -/
def isNameStart (c : Char) : Bool := c.isAlpha || c == '_' || c == '$'

/-- The characters an identifier may go on with. -/
def isNamePart (c : Char) : Bool := isWord c || c == '$'

/-- A name that stands for itself: a start, then parts. -/
def isBareName : List Char → Bool
  | [] => false
  | c :: rest => isNameStart c && rest.all isNamePart

/-- **Identifier**: a bare name, with at most one line feed behind it. -/
def isIdentifier (name : String) : Bool :=
  isBareName name.toList ||
    (name.toList.getLast? == some '\n' && isBareName name.toList.dropLast)

/-- **Property name** as it is written in an object type. -/
def propertyName (name : String) : String := if isIdentifier name then name else quoted name

end TypeScribe.Naming
