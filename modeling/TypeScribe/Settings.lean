import TypeScribe.Failure
import TypeScribe.Files.Path

/-!
# Settings

What a compilation can be told: the directory in front of every reference, the indent of fields, and
whether a comment goes on top. Values are taken as they come and judged where they are used.

Besides these three a settings object may hold **reserved** entries. Two of them cannot be entered at
all, one replaces all entries at once, one seals the settings against being written back, and one says
which of them an override keeps.
-/

namespace TypeScribe

/-- The settings of a compilation. -/
structure Settings where
  rootDir : Json := .str ""
  indent : Json := .str "  "
  comment : Json := .bool false
  /-- Whether the settings hold the reserved entry that keeps them from being written back. -/
  sealed : Bool := false
  /-- The reserved entry that says which settings an override keeps; without it all are kept. -/
  roster : Option Json := none
  deriving Repr, Inhabited

namespace Settings

/-- Notes an entry as it stands. Unknown entries are passed over. -/
def note (settings : Settings) (key : String) (value : Json) : Settings :=
  match key with
  | "root_dir" => { settings with rootDir := value }
  | "indent" => { settings with indent := value }
  | "add_generation_comment" => { settings with comment := value }
  | "to_dict" => { settings with sealed := true }
  | "__dataclass_fields__" => { settings with roster := some value }
  | _ => settings

/-- The defaults with entries noted in turn. -/
def noting (entries : Entries Json) : Settings :=
  entries.foldl (fun settings entry => settings.note entry.1 entry.2) {}

/-- **One entry** of a settings object. The kind of the settings is fixed and so is what refers to
them, while their entries may be replaced all at once. -/
def enter (settings : Settings) (key : String) (value : Json) : Except Failure Settings :=
  match key with
  | "__class__" => .error .settingsKind
  | "__weakref__" => .error .settingsLocked
  | "__dict__" =>
    match value with
    | .obj entries => .ok (noting entries)
    | _ => .error .settingsEntries
  | _ => .ok (settings.note key value)

/-- Enters entries in turn. -/
def enterAll (settings : Settings) : Entries Json → Except Failure Settings
  | [] => .ok settings
  | (key, value) :: rest => do
    let settings ← settings.enter key value
    enterAll settings rest

/-- **Settings of an object**: its entries over the defaults. -/
def ofJson : Json → Except Failure Settings
  | .obj entries => enterAll {} entries
  | _ => .error .settingsNotObject

/-- **Settings written back.** -/
def toJson (settings : Settings) : Except Failure Json :=
  if settings.sealed then .error .settingsSealed
  else .ok (.obj [("root_dir", settings.rootDir), ("indent", settings.indent),
    ("add_generation_comment", settings.comment)])

/-- The settings under a root directory given on the side. -/
def under (settings : Settings) (rootDir : Option String) : Settings :=
  match rootDir with
  | none => settings
  | some dir => { settings with rootDir := .str dir }

/-- **Fresh settings** with a root directory of their own. They keep the other settings, unless the
roster says which to keep: an empty one keeps none, and no other can be used. -/
def renewed (settings : Settings) (dir : String) : Except Failure Settings :=
  match settings.roster with
  | none => .ok { rootDir := .str dir, indent := settings.indent, comment := settings.comment }
  | some (.obj []) => .ok { rootDir := .str dir }
  | some _ => .error .settingsRoster

/-- The settings renewed with a root directory, if there is one. -/
def overridden (settings : Settings) : (rootDir : Option String) → Except Failure Settings
  | none => .ok settings
  | some dir => settings.renewed dir

/-- Where a reference leads: below the root directory, if one is set. -/
def locate (settings : Settings) (ref : String) : Except Failure String :=
  if settings.rootDir.isVacant then .ok ref
  else
    match settings.rootDir with
    | .str dir => .ok ((Files.Path.ofText dir).join (Files.Path.ofText ref)).toText
    | _ => .error .rootDirNotText

end Settings

end TypeScribe
