import TypeScribe.Naming
import TypeScribe.Indent
import TypeScribe.Text.Blank
import TypeScribe.Text.Lines

/-!
# Layout of declarations

The texts of the four things that are written: an **object type** with one field a line, an
**interface**, an **alias**, and the **comment** on top. A field's type keeps its own line breaks and
is re-indented to the depth of the field.
-/

namespace TypeScribe

namespace Layout

/-- A field of an object type: its name, the text of its type, and whether it must be there. -/
structure FieldText where
  name : String
  type : String
  required : Bool
  deriving Repr, DecidableEq

/-- A type moved to the depth of its field. A type of one line stays, and needs no margin. -/
def moved (indent : Indent) (type : List Char) : List Char :=
  if type.any Text.isLineBreak then Text.reindent indent.margin type else type

/-- The line, or lines, of a field. -/
def fieldText (indent : Indent) (field : FieldText) : String :=
  indent.shown ++ Naming.propertyName field.name ++ (if field.required then "" else "?") ++ ": " ++
    String.ofList (moved indent field.type.toList) ++ ";\n"

/-- **Object type.** Without fields no indent is needed. -/
def objectType (indent : Indent) (fields : List FieldText) : String :=
  "\x7b\n" ++ String.join (fields.map (fieldText indent)) ++ "\x7d"

/-- **Object type** under a setting for the indent, which is looked at only if there are fields. -/
def objectTypeUnder (setting : Json) (fields : List FieldText) : Except Indent.Fault String :=
  if fields.isEmpty then .ok (objectType (.text "") [])
  else (Indent.ofJson setting).map (objectType · fields)

/-- **Interface** of the given shape. -/
def interfaceDecl (name shape : String) : String := "interface " ++ name ++ " " ++ shape

/-- **Alias** of an expression. -/
def aliasDecl (name expression : String) : String := "type " ++ name ++ " = " ++ expression ++ ";"

/-- **Comment** on top of all declarations. -/
def headerComment (commandLine : String) : String :=
  "// Generated by json_schema_to_ts" ++ (if commandLine = "" then "" else ": " ++ commandLine) ++
    "\n// Do not edit by hand; regenerate from the source schemas."

/-- An expression in parentheses. -/
def parens (text : String) : String := "(" ++ text ++ ")"

/-- **Base and augmentation joined**: one of them if the other is empty, and their intersection
otherwise. -/
def augmented (expression augmentation : String) : String :=
  if augmentation = "" then expression
  else if expression = "" then augmentation
  else expression ++ " & " ++ parens augmentation

/-- **Element type of an array**, in parentheses if it could be torn apart: if it has a blank, and
does not end in a closing brace. -/
def element (item : String) : String :=
  if item.toList.any Text.isBlank && item.toList.getLast? != some '\x7d' then parens item else item

/-- **Groups joined**: one alone stands as it is, several are intersected in parentheses. -/
def intersected : List String → String
  | [] => ""
  | [group] => group
  | groups => " & ".intercalate (groups.map parens)

/-- **Object with an augmentation**: the shape gets a private name, since an interface cannot be an
intersection. -/
def splitDecl (name shape augmentation : String) : String :=
  interfaceDecl ("_" ++ name) shape ++ "\n\n" ++
    aliasDecl name ("_" ++ name ++ " & " ++ parens augmentation)

/-- The text of a type where a field or an array needs one. -/
def orNull (text : String) : String := if text = "" then "null" else text

end Layout

end TypeScribe
