import TypeScribe.Text.Shown
import TypeScribe.Files.Tree

/-!
# Arguments

Arguments are read from left to right. Options may stand anywhere before a double dash, long ones
with their value behind an equals sign or in the next argument, short ones in one word; everything
else is a path. What is wrong with a value is found out afterwards: the options in the order in which
they were first used, then the paths.
-/

namespace TypeScribe.CommandLine

open Files (Place Trouble)

/-- The options that take a value. -/
inductive Setting where
  | output
  | rootDir
  | config
  deriving Repr, DecidableEq

/-- The options that are on or off. -/
inductive Switch where
  | force
  | verbose
  deriving Repr, DecidableEq

/-- An option. -/
inductive Opt where
  | setting (setting : Setting)
  | switch (switch : Switch)
  deriving Repr, DecidableEq

/-- The option of a long name. -/
def longOpt? : String → Option Opt
  | "--output" => some (.setting .output)
  | "--root-dir" => some (.setting .rootDir)
  | "--config" => some (.setting .config)
  | "--force" => some (.switch .force)
  | "--verbose" => some (.switch .verbose)
  | _ => none

/-- The option of a letter. -/
def shortOpt? : Char → Option Opt
  | 'o' => some (.setting .output)
  | 'r' => some (.setting .rootDir)
  | 'c' => some (.setting .config)
  | 'f' => some (.switch .force)
  | 'v' => some (.switch .verbose)
  | _ => none

/-- Why arguments cannot be used. -/
inductive UsageFault where
  | unknownOption (name : String)
  | missingValue (name : String)
  | superfluousValue (name : String)
  | missingPaths
  /-- A value of a parameter is not what it should be: the parameter, the sort of thing, the value,
  and what is wrong. -/
  | invalid (parameter sort value wrong : String)
  /-- A value is no path at all. -/
  | notPath (trouble : Trouble)
  deriving Repr, DecidableEq

/-- The wording of a fault. -/
def UsageFault.message : UsageFault → String
  | .unknownOption name => "No such option: " ++ name
  | .missingValue name => "Option " ++ Text.shown name ++ " requires an argument."
  | .superfluousValue name => "Option " ++ Text.shown name ++ " does not take a value."
  | .missingPaths => "Missing argument 'PATHS...'."
  | .invalid parameter sort value wrong =>
    "Invalid value for " ++ parameter ++ ": " ++ sort ++ " " ++ Text.shown value ++ " " ++ wrong ++ "."
  | .notPath trouble => trouble.text

/-- What was given: values of options and switches in order of use, and paths. -/
structure Given where
  settings : List (Setting × String) := []
  switches : List Switch := []
  paths : List String := []
  deriving Repr, DecidableEq

namespace Given

/-- Notes the value of an option. -/
def set (given : Given) (setting : Setting) (value : String) : Given :=
  { given with settings := given.settings ++ [(setting, value)] }

/-- Notes a switch. -/
def turnOn (given : Given) (switch : Switch) : Given :=
  { given with switches := given.switches ++ [switch] }

/-- Notes a path. -/
def addPath (given : Given) (path : String) : Given := { given with paths := given.paths ++ [path] }

/-- The value of an option: the last one given. -/
def value? (given : Given) (setting : Setting) : Option String :=
  (given.settings.reverse.find? fun s => s.1 = setting).map Prod.snd

/-- Whether a switch is on. -/
def isOn (given : Given) (switch : Switch) : Bool := given.switches.contains switch

/-- The options with a value, in the order of their first use. -/
def settingsInOrder (given : Given) : List Setting := (given.settings.map Prod.fst).eraseDups

end Given

/-- A word of options: a value is owed for the named option, or all is read. -/
inductive Owed where
  | nothing
  | value (setting : Setting) (name : String)

/-- Reads the letters of a word of short options. An option that takes a value takes the rest of the
word. -/
def readLetters (given : Given) : List Char → Except UsageFault (Given × Owed)
  | [] => .ok (given, .nothing)
  | c :: rest =>
    match shortOpt? c with
    | none => .error (.unknownOption (String.ofList ['-', c]))
    | some (.switch switch) => readLetters (given.turnOn switch) rest
    | some (.setting setting) =>
      if rest.isEmpty then .ok (given, .value setting (String.ofList ['-', c]))
      else .ok (given.set setting (String.ofList rest), .nothing)

/-- Reads a long option, whose name ends at the first equals sign. -/
def readLong (given : Given) (arg : List Char) : Except UsageFault (Given × Owed) :=
  let (name, tail) := arg.span (· != '=')
  let name := String.ofList name
  match longOpt? name, tail with
  | none, _ => .error (.unknownOption name)
  | some (.switch switch), [] => .ok (given.turnOn switch, .nothing)
  | some (.switch _), _ :: _ => .error (.superfluousValue name)
  | some (.setting setting), [] => .ok (given, .value setting name)
  | some (.setting setting), _ :: value => .ok (given.set setting (String.ofList value), .nothing)

/-- Reads arguments after those in `given`. -/
def readArguments (given : Given) : List String → Except UsageFault Given
  | [] => .ok given
  | arg :: rest =>
    if arg = "--" then .ok { given with paths := given.paths ++ rest }
    else
      let read : Except UsageFault (Given × Owed) :=
        match arg.toList with
        | '-' :: '-' :: _ => readLong given arg.toList
        | '-' :: c :: letters => readLetters given (c :: letters)
        | _ => .ok (given.addPath arg, .nothing)
      match read with
      | .error fault => .error fault
      | .ok (given, .nothing) => readArguments given rest
      | .ok (given, .value setting name) =>
        match rest with
        | [] => .error (.missingValue name)
        | value :: rest => readArguments (given.set setting value) rest

/-- The parameter of an option, as faults name it. -/
def Setting.parameter : Setting → String
  | .output => "'--output' / '-o'"
  | .rootDir => "'--root-dir' / '-r'"
  | .config => "'--config' / '-c'"

/-- What the value of a parameter has to lead to. -/
structure Demand where
  sort : String
  mustExist : Bool
  fileAllowed : Bool
  directoryAllowed : Bool

/-- What the value of an option has to lead to. -/
def Setting.demand : Setting → Demand
  | .output => ⟨"File", false, true, false⟩
  | .rootDir => ⟨"Directory", true, false, true⟩
  | .config => ⟨"Path", true, true, true⟩

/-- What a path has to lead to. -/
def pathDemand : Demand := ⟨"File", true, true, false⟩

/-- The absolute path of a value that meets a demand. -/
def Demand.meet (demand : Demand) (tree : Files.Tree) (parameter value : String) :
    Except UsageFault String :=
  let given := Files.Path.ofText value
  let path := tree.resolved given
  let wrong (what : String) : Except UsageFault String :=
    .error (.invalid parameter demand.sort value what)
  if given.hasNull then .error (.notPath .nullCharacter)
  else
    match tree.stat path with
    | .error _ => if demand.mustExist then wrong "does not exist" else .ok path.toText
    | .ok (.file _) => if demand.fileAllowed then .ok path.toText else wrong "is a file"
    | .ok .directory => if demand.directoryAllowed then .ok path.toText else wrong "is a directory"

/-- A run as it was asked for, all paths absolute. -/
structure Request where
  output : Option String := none
  rootDir : Option String := none
  config : Option String := none
  force : Bool := false
  verbose : Bool := false
  paths : List String := []
  deriving Repr, DecidableEq

/-- Enters the value of an option. -/
def Request.set (request : Request) (setting : Setting) (value : String) : Request :=
  match setting with
  | .output => { request with output := some value }
  | .rootDir => { request with rootDir := some value }
  | .config => { request with config := some value }

/-- Checks the options in turn and enters their values. -/
def checkSettings (tree : Files.Tree) (given : Given) (request : Request) :
    List Setting → Except UsageFault Request
  | [] => .ok request
  | setting :: rest =>
    match given.value? setting with
    | none => checkSettings tree given request rest
    | some value =>
      match setting.demand.meet tree setting.parameter value with
      | .error fault => .error fault
      | .ok path => checkSettings tree given (request.set setting path) rest

/-- **The request** that arguments make. -/
def Request.ofArguments (tree : Files.Tree) (args : List String) : Except UsageFault Request := do
  let given ← readArguments {} args
  let request : Request := { force := given.isOn .force, verbose := given.isOn .verbose }
  let request ← checkSettings tree given request given.settingsInOrder
  if given.paths.isEmpty then .error .missingPaths
  else
    let paths ← given.paths.mapM (pathDemand.meet tree "'PATHS...'")
    return { request with paths }

end TypeScribe.CommandLine
