import TypeScribe.Json.Basic
import TypeScribe.Number.Shortest
import TypeScribe.Text.Quoted
import TypeScribe.Text.Shown

/-!
# JSON texts

Three ways to write a value down:

* `Json.compact?` — one line without blanks, fields in order of their keys;
* `Json.excerpt?` — one line as messages **quote** a schema, cut after two hundred characters;
* `Json.display` — the **plain** form in which a setting or an argument is shown to a person.

A whole number may have too many digits to be written, and then neither of the first two is there. No text
is read as such a number.
-/

namespace TypeScribe.Json

/-- How values are joined on one line. -/
structure Style where
  comma : String
  colon : String

/-- Items between brackets. -/
def bracketed (style : Style) (items : List String) : String :=
  "[" ++ style.comma.intercalate items ++ "]"

/-- Fields between braces, by increasing key. -/
def braced (style : Style) (fields : Entries String) : String :=
  "\x7b" ++ style.comma.intercalate
    (fields.sorted.map fun field => Text.quoted field.1 ++ style.colon ++ field.2) ++ "\x7d"

mutual

/-- A value on one line; none if it holds a whole number of too many digits. -/
def write? (style : Style) : Json → Option String
  | .null => some "null"
  | .bool true => some "true"
  | .bool false => some "false"
  | .int n => if isShort n then some (toString n) else none
  | .real x => some (x.text "NaN" "Infinity")
  | .str s => some (Text.quoted s)
  | .arr items => (writeItems? style items).map (bracketed style)
  | .obj fields => (writeFields? style fields).map (braced style)

@[inherit_doc write?]
def writeItems? (style : Style) : List Json → Option (List String)
  | [] => some []
  | v :: rest => do return (← write? style v) :: (← writeItems? style rest)

@[inherit_doc write?]
def writeFields? (style : Style) : List (String × Json) → Option (Entries String)
  | [] => some []
  | (key, v) :: rest => do return (key, ← write? style v) :: (← writeFields? style rest)

end

/-- A value on one line, without blanks. -/
def compact? (v : Json) : Option String := v.write? ⟨",", ":"⟩

/-- Texts of more than two hundred characters end in three dots after the first 197. -/
def cut (text : String) : String :=
  if text.length > 200 then String.ofList (text.toList.take 197) ++ "..." else text

/-- **Excerpt**: a value as messages quote it. -/
def excerpt? (v : Json) : Option String := (v.write? ⟨", ", ": "⟩).map cut

mutual

/-- A value as it is shown inside a list or an object. -/
def displayInner : Json → String
  | .null => "None"
  | .bool true => "True"
  | .bool false => "False"
  | .int n => toString n
  | .real x => x.text "nan" "inf"
  | .str s => Text.shown s
  | .arr items => "[" ++ ", ".intercalate (displayItems items) ++ "]"
  | .obj fields => "\x7b" ++ ", ".intercalate (displayFields fields) ++ "\x7d"

@[inherit_doc displayInner]
def displayItems : List Json → List String
  | [] => []
  | v :: rest => displayInner v :: displayItems rest

@[inherit_doc displayInner]
def displayFields : List (String × Json) → List String
  | [] => []
  | (key, v) :: rest => (Text.shown key ++ ": " ++ displayInner v) :: displayFields rest

end

/-- **Plain form** of a value: a text stands for itself. -/
def display : Json → String
  | .str s => s
  | v => displayInner v

end TypeScribe.Json
