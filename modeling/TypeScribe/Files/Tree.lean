import TypeScribe.Table
import TypeScribe.Files.Path
import TypeScribe.Files.Trouble

/-!
# File trees

A tree of files and directories as a value, with a working directory. A path is **walked** name by
name: every name but the last has to be a directory, so that a path may fail although its names alone
would lead to a file.
-/

namespace TypeScribe.Files

/-- What stands at a place. -/
inductive Entry where
  | directory
  | file (content : List UInt8)
  deriving Repr, DecidableEq, Inhabited

/-- Files and directories by place, and the working directory. The top is always a directory. -/
structure Tree where
  home : Place
  entries : Table Place Entry := []
  deriving Repr, Inhabited

namespace Tree

/-- What stands at a place. -/
def entry? (tree : Tree) (place : Place) : Option Entry :=
  if place = [] then some .directory else tree.entries.get? place

/-- Puts something at a place. -/
def put (tree : Tree) (place : Place) (entry : Entry) : Tree :=
  { tree with entries := tree.entries.insert place entry }

/-- Removes what stands at a place. -/
def remove (tree : Tree) (place : Place) : Tree :=
  { tree with entries := tree.entries.erase place }

/-- Makes directories of all places above a place that has nothing yet. -/
def putAncestors (tree : Tree) (place : Place) : Tree :=
  (List.range place.length).foldl
    (fun tree depth =>
      let above := place.take depth
      if (tree.entry? above).isSome then tree else tree.put above .directory)
    tree

/-- The longest name that fits, in octets. -/
def nameLimit : Nat := 255

/-- The longest path that fits, in octets. -/
def pathLimit : Nat := 4095

/-- Walks down the given names from a place. -/
def walkFrom (tree : Tree) : (place : Place) → (parts : List String) → Except Trouble Place
  | place, [] => .ok place
  | place, part :: rest =>
    match tree.entry? place with
    | none => .error .missing
    | some (.file _) => .error .notDirectory
    | some .directory =>
      if part.utf8ByteSize > nameLimit then .error .nameTooLong
      else walkFrom tree (Path.descend place part) rest

/-- Whether a path can be asked for at all. -/
def askable (path : Path) : Except Trouble Unit :=
  if path.hasNull then .error .nullCharacter
  else if path.toText.utf8ByteSize > pathLimit then .error .nameTooLong
  else .ok ()

/-- **Walking** a path: the place it leads to, where there may be nothing yet. -/
def walk (tree : Tree) (path : Path) : Except Trouble Place := do
  askable path
  tree.walkFrom (if path.isAbsolute then [] else tree.home) path.parts

/-- **What a path leads to.** -/
def stat (tree : Tree) (path : Path) : Except Trouble Entry := do
  let place ← tree.walk path
  match tree.entry? place with
  | none => .error .missing
  | some entry => .ok entry

/-- **Reading** the file at a path. -/
def readFile (tree : Tree) (path : Path) : Except Trouble (List UInt8) := do
  match ← tree.stat path with
  | .directory => .error .isDirectory
  | .file content => .ok content

/-- **Whether there is something** at a path. A name that is too long is trouble even here. -/
def exists? (tree : Tree) (path : Path) : Except Trouble Bool :=
  match tree.stat path with
  | .ok _ => .ok true
  | .error .nameTooLong => .error .nameTooLong
  | .error _ => .ok false

/-- Whether a path leads to a directory. -/
def isDirectory (tree : Tree) (path : Path) : Bool :=
  match tree.stat path with
  | .ok .directory => true
  | _ => false

/-- The absolute path a path resolves to, by its names alone. -/
def resolved (tree : Tree) (path : Path) : Path := (path.resolve tree.home).path

end Tree

end TypeScribe.Files
