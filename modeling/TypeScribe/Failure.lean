import TypeScribe.Indent
import TypeScribe.Json.Reader
import TypeScribe.Text.Utf8
import TypeScribe.Files.Trouble

/-!
# Failures

The causes for which a compilation stops, each with its wording. The first three are the **author's**, who
is given a report of them: a schema that cannot be read, one that lacks a name, a document that cannot be
loaded. The report quotes the schema, and the quotation may fail itself. The others tell of settings and
schemas of the wrong form, and of steps taken on what an earlier failure left unfinished.
-/

namespace TypeScribe

/-- Why a document cannot be loaded. -/
inductive LoadFault where
  /-- The file cannot be read. -/
  | file (trouble : Files.Trouble)
  /-- The file is no text. -/
  | notUtf8 (fault : Text.Utf8.Fault)
  /-- The text is no JSON. -/
  | notJson (fault : Json.Fault)
  /-- The document is no object. -/
  | notObject
  /-- No document has the name asked for. -/
  | unknown
  deriving Repr, DecidableEq

/-- The wording of a load fault. -/
def LoadFault.reason : LoadFault → String
  | .file trouble => trouble.text
  | .notUtf8 fault => "not valid UTF-8 (" ++ fault.message ++ ")"
  | .notJson fault => "invalid JSON (" ++ fault.message ++ ")"
  | .notObject => "document is not a JSON object"
  | .unknown => "unknown reference"

/-- Why a step of a compilation fails. -/
inductive Failure where
  /-- A fragment of no kind, or a composite keyword that is no list. -/
  | unsupported (source : Json) (path : String)
  /-- A schema that has to be declared, or referred to, and has no name. -/
  | unnamed (source : Json) (path : String)
  /-- A reference whose document cannot be loaded. -/
  | unavailable (location : String) (fault : LoadFault)
  /-- A reference that holds the null character, and so is no path at all. -/
  | nullCharacter (location : String)
  /-- A document with a whole number of too many digits. -/
  | numeralTooLong (location : String)
  /-- The required names hold a list or an object. -/
  | requiredCompound
  /-- The properties are no object. -/
  | propertiesNotObject
  /-- A root is given a title and is no object. -/
  | rootNotObject
  /-- The settings are no object. -/
  | settingsNotObject
  /-- The settings hold what keeps them from being written back. -/
  | settingsSealed
  /-- The settings are asked to be of another kind. -/
  | settingsKind
  /-- The entries of the settings are to be replaced by what is no object. -/
  | settingsEntries
  /-- The settings hold an entry that cannot be set. -/
  | settingsLocked
  /-- The settings say which of them an override keeps, in a way that cannot be used. -/
  | settingsRoster
  /-- The root directory is no text. -/
  | rootDirNotText
  /-- The indent is none. -/
  | indent (fault : Indent.Fault)
  /-- An array whose items were never built. -/
  | itemsUnbuilt
  /-- A key under which no schema is known. -/
  | keyUnknown (key : String)
  /-- A number that no node has. -/
  | nodeUnknown
  /-- A declaration whose text was never finished. -/
  | declarationUnfinished
  /-- Documents that load each other without end. -/
  | endless
  deriving Repr

/-- The schema that a failure quotes. -/
def Failure.quoted? : Failure → Option Json
  | .unsupported source _ => some source
  | .unnamed source _ => some source
  | _ => none

/-- **The report** of a failure that is the author's. There is none if the schema that it quotes cannot be
written down. -/
def Failure.report? : Failure → Option String
  | .unsupported source path =>
    source.excerpt?.map fun excerpt => "Unsupported schema at " ++ path ++ ": " ++ excerpt
  | .unnamed source path =>
    source.excerpt?.map fun excerpt => "Schema at " ++ path ++ " needs a title to be declared: " ++ excerpt
  | .unavailable location fault =>
    some ("Cannot load schema " ++ Text.shown location ++ ": " ++ fault.reason)
  | _ => none

/-- The wording of a failure: its report, if there is one. -/
def Failure.message (failure : Failure) : String :=
  match failure with
  | .unsupported _ _ | .unnamed _ _ | .unavailable _ _ =>
    failure.report?.getD "too many digits in a number of the schema"
  | .nullCharacter location => "null character in " ++ Text.shown location
  | .numeralTooLong location => "too many digits in a number of " ++ Text.shown location
  | .requiredCompound => "required names hold a list or an object"
  | .propertiesNotObject => "properties are not an object"
  | .rootNotObject => "a root with a title of its own is not an object"
  | .settingsNotObject => "settings are not an object"
  | .settingsSealed => "settings cannot be written back"
  | .settingsKind => "settings cannot be of another kind"
  | .settingsEntries => "settings cannot be replaced by what is not an object"
  | .settingsLocked => "settings hold an entry that cannot be set"
  | .settingsRoster => "settings do not say which of them an override keeps"
  | .rootDirNotText => "root directory is not a text"
  | .indent fault => fault.message
  | .itemsUnbuilt => "array has no items"
  | .keyUnknown key => "no schema is known as " ++ Text.shown key
  | .nodeUnknown => "no such node"
  | .declarationUnfinished => "a declaration has no text"
  | .endless => "documents load each other without end"

/-- **The failure of a load.** A path that is none and a number that is too long are not told as an
unavailable document. -/
def LoadFault.failure (location : String) : LoadFault → Failure
  | .file .nullCharacter => .nullCharacter location
  | .notJson ⟨.numeralTooLong, _, _, _⟩ => .numeralTooLong location
  | fault => .unavailable location fault

end TypeScribe
