import TypeScribe.CommandLine.Arguments
import TypeScribe.CommandLine.Reconstruct
import TypeScribe.Files.Shelf
import TypeScribe.Output.Writer
import TypeScribe.Registry
import TypeScribe.Text.Plain

/-!
# A run of the command

A run takes a console, a file tree and arguments, and has an **outcome**: an exit code, what it prints, and
the tree it leaves. All input files go into one compilation; its text is printed, or written to the output
file with all the care of `Output.write`. What is printed where there is no terminal is plain text, save for
the log.
-/

namespace TypeScribe.CommandLine

open Files (Place Trouble)

/-- What a run does not catch. -/
inductive Escape where
  /-- A file cannot be read in an unforeseen way. -/
  | reading (fault : Files.TextFault)
  /-- A failure that is not reported to the author. -/
  | failure (failure : Failure)
  /-- The file system refuses in an unforeseen way. -/
  | file (trouble : Trouble)
  deriving Repr

/-- How a run ends before its time. -/
inductive Abort where
  /-- With a message, and exit code one. -/
  | message (text : String)
  /-- With something that is not caught. -/
  | escape (escape : Escape)
  deriving Repr

/-- What a run has done so far: the file tree and the log. -/
structure Scene where
  tree : Files.Tree
  log : Array Event := #[]

/-- A step of a run. -/
abbrev Act := EStateM Abort Scene

/-- Where a run prints: its output and its errors each go to a terminal or elsewhere. -/
structure Console where
  /-- Whether the output goes to a terminal. -/
  stdout : Bool := false
  /-- Whether the errors go to a terminal. -/
  stderr : Bool := false
  deriving Repr, DecidableEq

/-- What is printed of a text: all of it on a terminal, and elsewhere what is plain. -/
def printed (terminal : Bool) (text : String) : String := if terminal then text else Text.plain text

/-- What a run leaves. -/
structure Outcome where
  exitCode : Nat
  stdout : String := ""
  stderr : String := ""
  tree : Files.Tree
  escaped : Option Escape := none

/-- The end of a run that fails to compile: what is reported is told as a message. -/
def Abort.ofFailure (failure : Failure) : Abort :=
  match failure.report? with
  | some report => .message report
  | none => .escape (.failure failure)

/-- The end of a run that cannot write its output. -/
def Abort.ofWriteFailure : Output.WriteFailure → Abort
  | .file .present path => .message (Output.WriteFailure.file .present path).message
  | .file trouble _ => .escape (.file trouble)
  | failure => .message failure.message

/-- The parameter values of a request. -/
def Request.params (request : Request) : Entries Json :=
  let value (v : Option String) : Json := (v.map Json.str).getD .null
  [("output", value request.output), ("root_dir", value request.rootDir),
    ("config", value request.config), ("force", .bool request.force),
    ("verbose", .bool request.verbose), ("paths", .arr (request.paths.map .str))]

/-- The settings of a request: those of the settings file, under the root directory it names. -/
def readSettings (request : Request) : Act Settings := do
  let settings ←
    match request.config with
    | none => pure ({} : Settings)
    | some file =>
      match (← get).tree.readJson (Files.Path.ofText file) with
      | .error fault => throw (.escape (.reading fault))
      | .ok v =>
        match Settings.ofJson v with
        | .error failure => throw (.escape (.failure failure))
        | .ok settings => pure settings
  return settings.under request.rootDir

/-- Why an input file is no document, as a message where that is foreseen. -/
def inputMessage (file : String) : Files.TextFault → Abort
  | .file trouble => .escape (.file trouble)
  | .notJson ⟨.numeralTooLong, line, column, position⟩ =>
    .escape (.reading (.notJson ⟨.numeralTooLong, line, column, position⟩))
  | .notUtf8 fault => .message (file ++ " is not valid UTF-8: " ++ fault.message)
  | .notJson fault => .message (file ++ " is not valid JSON: " ++ fault.message)

/-- A step on the registry as a step of the run. -/
def onRegistry {α : Type} (registry : Registry Files.Shelf) (step : Session Files.Shelf α) :
    Act (α × Registry Files.Shelf) := do
  let scene ← get
  match step registry with
  | .ok a registry =>
    set { scene with log := registry.workshop.log }
    return (a, registry)
  | .error failure registry =>
    set { scene with log := registry.workshop.log }
    throw (.ofFailure failure)

/-- Reads the input files in turn and queues them. -/
def queueInputs (registry : Registry Files.Shelf) : List String → Act (Registry Files.Shelf)
  | [] => return registry
  | file :: rest => do
    match (← get).tree.readJson (Files.Path.ofText file) with
    | .error fault => throw (inputMessage file fault)
    | .ok schema =>
      let (_, registry) ← onRegistry registry (Registry.add schema .null)
      queueInputs registry rest

/-- **Compiles** the input files of a request. -/
def compileInputs (request : Request) (settings : Settings) : Act String := do
  let tree := (← get).tree
  match reconstruct tree request.params with
  | .error trouble => throw (.escape (.file trouble))
  | .ok commandLine =>
    let registry := Registry.new settings (Files.Shelf.mk tree []) commandLine
    let registry ← queueInputs registry request.paths
    let (text, _) ← onRegistry registry Registry.parse
    return text

/-- **Writes** the text to the output file; without force the file must be new. -/
def writeOutput (request : Request) (file content : String) : Act Unit := do
  let scene ← get
  let path := Files.Path.ofText file
  let step := if request.force then Output.write path content true else Output.writeNew path content true
  match step scene.tree with
  | .ok _ tree =>
    let events := #[Event.replaced path.toText, .wrote request.paths.length file]
    set { scene with tree, log := scene.log ++ events }
  | .error failure tree =>
    set { scene with tree }
    throw (.ofWriteFailure failure)

/-- **A run** of a request: what it prints. -/
def perform (request : Request) : Act String := do
  let settings ← readSettings request
  let text ← compileInputs request settings
  match request.output with
  | none => return text ++ "\n"
  | some file =>
    writeOutput request file (text ++ "\n")
    return ""

/-- The log as it is shown, if it is. -/
def logText (verbose : Bool) (log : Array Event) : String :=
  if verbose then String.join (log.toList.map fun event => event.line ++ "\n") else ""

/-- What a run says about an error. -/
def errorText (terminal : Bool) (message : String) : String :=
  printed terminal ("Error: " ++ message ++ "\n")

/-- What a run says about arguments it cannot use. -/
def usageText (terminal : Bool) (fault : UsageFault) : String :=
  "Usage: json-schema-to-ts [OPTIONS] PATHS...\nTry 'json-schema-to-ts --help' for help.\n\n" ++
    errorText terminal fault.message

/-- **The outcome** of a run on a file tree. -/
def run (console : Console) (tree : Files.Tree) (args : List String) : Outcome :=
  match Request.ofArguments tree args with
  | .error (.notPath trouble) => { exitCode := 1, tree, escaped := some (.file trouble) }
  | .error fault => { exitCode := 2, stderr := usageText console.stderr fault, tree }
  | .ok request =>
    match perform request { tree } with
    | .ok text scene =>
      { exitCode := 0
        stdout := printed console.stdout text
        stderr := logText request.verbose scene.log
        tree := scene.tree }
    | .error (.message text) scene =>
      { exitCode := 1
        stderr := logText request.verbose scene.log ++ errorText console.stderr text
        tree := scene.tree }
    | .error (.escape escape) scene =>
      { exitCode := 1
        stderr := logText request.verbose scene.log
        tree := scene.tree
        escaped := some escape }

end TypeScribe.CommandLine
