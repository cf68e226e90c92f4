import TypeScribe.CommandLine.Reach

/-!
# The command

Reads the part of the file system that a run may touch, runs, prints what the run prints, and puts
the changes of the tree into effect.
-/

namespace TypeScribe.Main

open CommandLine
open Files (Place)

/-- What stands at a place of the real file system. -/
def probe (place : Place) : IO (Option Files.Entry) := do
  let text := place.path.toText
  try
    if ← (← IO.FS.realPath text).isDir then
      return some .directory
    else
      return some (.file (← IO.FS.readBinFile text).toList)
  catch _ =>
    return none

/-- Reads places into a tree, those from the top down to each of them included. -/
def readPlaces (tree : Files.Tree) (places : List Place) : IO Files.Tree := do
  let mut tree := tree
  for place in places do
    for count in List.range place.length do
      let place := place.take (count + 1)
      if (tree.entry? place).isNone then
        if let some entry ← probe place then
          tree := tree.put place entry
  return tree

/-- Grows a tree until it holds all that a run may touch. -/
partial def gather (tree : Files.Tree) (known : List Place) (args : List String) : IO Files.Tree := do
  let places := (reach tree args).filter fun place => !known.contains place
  if places.isEmpty then
    return tree
  else
    gather (← readPlaces tree places) (known ++ places) args

/-- Puts changes of the tree into effect; a file takes its place in one step. -/
def apply (changes : List (Place × Files.Entry)) : IO Unit := do
  for (place, entry) in changes do
    let text := place.path.toText
    match entry with
    | .directory => IO.FS.createDirAll text
    | .file content =>
      let beside := text ++ ".tmp"
      IO.FS.writeBinFile beside content.toByteArray
      IO.FS.rename beside text

/-- What a run that ends unforeseen says. -/
def escapeText : Escape → String
  | .reading (.file trouble) => trouble.text
  | .reading (.notUtf8 fault) => fault.message
  | .reading (.notJson fault) => fault.message
  | .failure failure => failure.message
  | .file trouble => trouble.text

end TypeScribe.Main

open TypeScribe in
/-- **The command.** -/
def main (args : List String) : IO UInt32 := do
  let home := Files.Path.resolve [] (Files.Path.ofText (← IO.currentDir).toString)
  let tree ← Main.readPlaces { home } [home]
  let tree ← Main.gather tree [] args
  let stdout ← IO.getStdout
  let stderr ← IO.getStderr
  let outcome := CommandLine.run ⟨← stdout.isTty, ← stderr.isTty⟩ tree args
  stdout.putStr outcome.stdout
  stderr.putStr outcome.stderr
  if let some escape := outcome.escaped then
    stderr.putStrLn (Main.escapeText escape)
  Main.apply (CommandLine.changes tree outcome.tree)
  return outcome.exitCode.toUInt32
