import TypeScribe.Source
import TypeScribe.Files.Tree
import TypeScribe.Text.Lines

/-!
# Documents from files

A **shelf** serves documents from the files of a tree and remembers the ones it has served, by the
place their path resolves to. What cannot be read is not remembered, so it is read again when it is
asked for again.
-/

namespace TypeScribe.Files

/-- Why a file is no document text. -/
inductive TextFault where
  | file (trouble : Trouble)
  | notUtf8 (fault : Text.Utf8.Fault)
  | notJson (fault : Json.Fault)
  deriving Repr, DecidableEq

/-- The load fault of a text fault. -/
def TextFault.loadFault : TextFault → LoadFault
  | .file trouble => .file trouble
  | .notUtf8 fault => .notUtf8 fault
  | .notJson fault => .notJson fault

/-- The value of the octets of a file: UTF-8, with line endings made equal. -/
def parseOctets (octets : List UInt8) : Except TextFault Json :=
  match Text.Utf8.decode octets with
  | .error fault => .error (.notUtf8 fault)
  | .ok text =>
    match Json.ofText (Text.unifyNewlines text) with
    | .error fault => .error (.notJson fault)
    | .ok v => .ok v

/-- **Reading a file** as a JSON value. -/
def Tree.readJson (tree : Tree) (path : Path) : Except TextFault Json :=
  match tree.readFile path with
  | .error trouble => .error (.file trouble)
  | .ok octets => parseOctets octets

/-- A tree of files and the documents served from it so far. -/
structure Shelf where
  tree : Tree
  served : Entries (Entries Json) := []
  deriving Inhabited

namespace Shelf

/-- The document at a path, read afresh. -/
def fetch (shelf : Shelf) (path : Path) : Except LoadFault (Entries Json) :=
  match shelf.tree.readJson path with
  | .error fault => .error fault.loadFault
  | .ok (.obj fields) => .ok fields
  | .ok _ => .error .notObject

/-- Loading from a path that is one. -/
def loadPath (shelf : Shelf) (path : Path) : Loaded Shelf :=
  let key := (shelf.tree.resolved path).toText
  match shelf.served.get? key with
  | some fields => { result := .ok fields, source := shelf }
  | none =>
    let events := [Event.loading path.toText]
    match shelf.fetch path with
    | .error fault => { result := .error fault, source := shelf, events }
    | .ok fields =>
      { result := .ok fields
        source := { shelf with served := shelf.served.insert key fields }
        events }

/-- **Loading**: what was served for that place before, or the document read afresh. -/
def load (shelf : Shelf) (location : String) : Loaded Shelf :=
  let path := Path.ofText location
  if path.hasNull then { result := .error (.file .nullCharacter), source := shelf }
  else shelf.loadPath path

/-- The document of a tree entry, if it is one. -/
def document? : Entry → Option Json
  | .directory => none
  | .file octets =>
    match parseOctets octets with
    | .ok (.obj fields) => some (.obj fields)
    | _ => none

instance : Source Shelf where
  load := load
  shelf shelf :=
    shelf.served.map (fun e => Json.obj e.2) ++ shelf.tree.entries.filterMap fun e => document? e.2

end Shelf

end TypeScribe.Files
