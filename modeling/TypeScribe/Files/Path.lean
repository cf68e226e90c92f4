import TypeScribe.Text.Split

/-!
# Paths

A path is a root (none, one slash or two) and the names below it. Repeated and trailing slashes and
single dots vanish when a path is read; double dots stay, since what they mean depends on the
directories on the way.

A **place** is where a path ends up: the names from the top of the file tree, without any dots.
-/

namespace TypeScribe.Files

/-- A place in the file tree: the names from the top down. -/
abbrev Place := List String

/-- A path. -/
structure Path where
  root : String
  parts : List String
  deriving Repr, DecidableEq, Inhabited

namespace Path

/-- The root that leading slashes stand for: two are kept, three or more are one. -/
def rootOf : List Char → String
  | '/' :: '/' :: '/' :: _ => "/"
  | '/' :: '/' :: _ => "//"
  | '/' :: _ => "/"
  | _ => ""

/-- **Path of a text.** -/
def ofText (text : String) : Path where
  root := rootOf text.toList
  parts := ((Text.piecesAt '/' text.toList).map String.ofList).filter fun part => part != "" && part != "."

/-- **Text of a path**; the path of no names is a dot. -/
def toText (path : Path) : String :=
  let text := path.root ++ "/".intercalate path.parts
  if text = "" then "." else text

/-- Whether a path starts at the top of the tree. -/
def isAbsolute (path : Path) : Bool := path.root != ""

/-- Whether a path holds the null character, which no name may have. -/
def hasNull (path : Path) : Bool := path.parts.any (·.toList.contains (Char.ofNat 0))

/-- **Joining**: a path seen from another one, which an absolute path replaces. -/
def join (base path : Path) : Path :=
  if path.isAbsolute then path else { base with parts := base.parts ++ path.parts }

/-- The last name; the path of no names has an empty one. -/
def name (path : Path) : String := path.parts.getLast?.getD ""

/-- The path without its last name. -/
def parent (path : Path) : Path := { path with parts := path.parts.dropLast }

/-- One name further down, or up. -/
def descend (place : Place) (part : String) : Place :=
  if part = ".." then place.dropLast else place ++ [part]

/-- **Resolving** a path from a working directory by its names alone. -/
def resolve (home : Place) (path : Path) : Place :=
  path.parts.foldl descend (if path.isAbsolute then [] else home)

end Path

/-- The absolute path of a place. -/
def Place.path (place : Place) : Path := ⟨"/", place⟩

end TypeScribe.Files
