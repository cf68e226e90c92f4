import TypeScribe.Output.Check
import TypeScribe.Files.Tree
import TypeScribe.Text.Shown
import TypeScribe.Event

/-!
# Writing the output

A write either replaces the whole file or leaves every file as it is. The directories above the
target are made first, and they stay even if the write fails. The new content then goes to a file
beside the target, is checked, and takes the target's place.
-/

namespace TypeScribe.Output

open Files (Place Trouble)

/-- Why a write fails. -/
inductive WriteFailure where
  /-- Something stands at the path already. -/
  | present (path : String)
  /-- The content does not pass the check. -/
  | rejected (fault : Fault)
  /-- The file system refuses. -/
  | file (trouble : Trouble) (path : String)
  deriving Repr, DecidableEq

/-- The wording of a failure. -/
def WriteFailure.message : WriteFailure → String
  | .present path => "Output file already exists: " ++ path ++ ". Use force mode to overwrite."
  | .rejected fault => fault.message
  | .file trouble path =>
    "[Errno " ++ trouble.number.repr ++ "] " ++ trouble.text ++ ": " ++ Text.shown path

/-- A step on a file tree. -/
abbrev OnTree := EStateM WriteFailure Files.Tree

/-- The directory in which the last name of a path stands, and that name. -/
def spot (tree : Files.Tree) (path : Files.Path) : Except Trouble (Place × String) := do
  Files.Tree.askable path
  let above ← tree.walk path.parent
  match tree.entry? above with
  | none => .error .missing
  | some (.file _) => .error .notDirectory
  | some .directory => .ok (above, path.name)

/-- Makes one directory. -/
def makeDirectory (tree : Files.Tree) (path : Files.Path) : Except Trouble Files.Tree := do
  if path.parts.isEmpty then .error .present
  else
    let (above, name) ← spot tree path
    if name = ".." then .error .present
    else if name.utf8ByteSize > Files.Tree.nameLimit then .error .nameTooLong
    else if (tree.entry? (above ++ [name])).isSome then .error .present
    else .ok (tree.put (above ++ [name]) .directory)

/-- Makes one directory unless there is one already. A missing directory above is dealt with by
`otherwise`. -/
def ensureDirectory (path : Files.Path) (otherwise : OnTree Unit) : OnTree Unit := do
  let tree ← get
  match makeDirectory tree path with
  | .ok tree => set tree
  | .error .missing => otherwise
  | .error trouble => if tree.isDirectory path then pure () else throw (.file trouble path.toText)

/-- Makes the directory with the given names, last one first, and those above it as far as they are
missing. -/
def ensureNames (root : String) : (names : List String) → OnTree Unit
  | [] => ensureDirectory ⟨root, []⟩ (throw (.file .missing (Files.Path.toText ⟨root, []⟩)))
  | name :: above =>
    let path : Files.Path := ⟨root, (name :: above).reverse⟩
    ensureDirectory path do
      ensureNames root above
      ensureDirectory path (throw (.file .missing path.toText))

/-- Makes a directory and those above it. -/
def ensureDirectories (path : Files.Path) : OnTree Unit := ensureNames path.root path.parts.reverse

/-- The octets that the name of the file beside the target has on top of the target's name. -/
def besideOctets : Nat := 14

/-- The target under the absolute path of its directory, beside which the new file is made. -/
def besidePath (tree : Files.Tree) (path : Files.Path) : Files.Path where
  root := if path.isAbsolute then path.root else "/"
  parts := path.parent.resolve tree.home ++ [path.name]

/-- Whether a file can be made beside the target. -/
def prepare (path : Files.Path) : OnTree Unit := do
  let tree ← get
  if path.hasNull then throw (.file .nullCharacter path.toText)
  else if path.name.utf8ByteSize + besideOctets > Files.Tree.nameLimit then
    throw (.file .nameTooLong path.toText)
  else if (besidePath tree path).toText.utf8ByteSize + besideOctets > Files.Tree.pathLimit then
    throw (.file .nameTooLong path.toText)

/-- Puts the content in the place of the target, which must not be a directory. -/
def replace (path : Files.Path) (content : List UInt8) : OnTree Unit := do
  let tree ← get
  match spot tree path with
  | .error trouble => throw (.file trouble path.toText)
  | .ok (above, name) =>
    if name = "" ∨ name = ".." then throw (.file .busy path.toText)
    else
      match tree.entry? (above ++ [name]) with
      | some .directory => throw (.file .isDirectory path.toText)
      | _ => set (tree.put (above ++ [name]) (.file content))

/-- **Writes** a text to a path, checked before it takes its place. -/
def write (path : Files.Path) (content : String) (checked : Bool) : OnTree Unit := do
  ensureDirectories path.parent
  prepare path
  if checked then
    match check content with
    | .ok _ => pure ()
    | .error fault => throw (.rejected fault)
  replace path content.toUTF8.toList

/-- **Writes a new file**: nothing may stand at the path yet. -/
def writeNew (path : Files.Path) (content : String) (checked : Bool) : OnTree Unit := do
  match (← get).exists? path with
  | .error trouble => throw (.file trouble path.toText)
  | .ok true => throw (.present path.toText)
  | .ok false => write path content checked

end TypeScribe.Output
