import TypeScribe.CommandLine.Run

/-!
# What a run may touch

A run works on a file tree that is a value. To run on real files, the part of the real tree that the
run may touch is read first: the paths its arguments name, and the locations to which the documents
read so far refer. The tree is grown until nothing is missing from it. Afterwards the **changes** say
what the run has done to the tree.
-/

namespace TypeScribe.CommandLine

open Files (Place Trouble)

/-- The paths that arguments may name: every argument, and every value inside one. -/
def namedPaths (args : List String) : List Files.Path :=
  match readArguments {} args with
  | .error _ => []
  | .ok given => (given.settings.map Prod.snd ++ given.paths).map Files.Path.ofText

/-- The settings a run will use, as far as the tree tells. -/
def likelySettings (tree : Files.Tree) (args : List String) : Settings :=
  match readArguments {} args with
  | .error _ => {}
  | .ok given =>
    let absolute (value : String) : Files.Path := tree.resolved (Files.Path.ofText value)
    let settings : Settings :=
      match given.value? .config with
      | none => {}
      | some file =>
        match tree.readJson (absolute file) with
        | .ok v => (Settings.ofJson v).toOption.getD {}
        | .error _ => {}
    settings.under ((given.value? .rootDir).map fun dir => (absolute dir).toText)

/-- The locations to which the documents of a tree refer. -/
def referredPaths (tree : Files.Tree) (settings : Settings) : List Files.Path :=
  let documents := tree.entries.filterMap fun e => Files.Shelf.document? e.2
  (documents.flatMap Json.references).filterMap fun ref =>
    (settings.locate ref).toOption.map Files.Path.ofText

/-- The places a path passes, by its names alone. -/
def passedPlaces (home : Place) (path : Files.Path) : List Place :=
  (List.range (path.parts.length + 1)).map fun count =>
    Files.Path.resolve home { path with parts := path.parts.take count }

/-- **The places a run may touch**, given the tree as far as it is known. -/
def reach (tree : Files.Tree) (args : List String) : List Place :=
  let named := namedPaths args
  let paths := named ++ named.map tree.resolved ++ referredPaths tree (likelySettings tree args)
  (paths.flatMap (passedPlaces tree.home)).eraseDups

/-- **The changes** from one tree to another, in the order in which they came about. -/
def changes (before after : Files.Tree) : List (Place × Files.Entry) :=
  after.entries.filter fun e => before.entry? e.1 != some e.2

end TypeScribe.CommandLine
