import TypeScribe.Json.Printer
import TypeScribe.Files.Tree

/-!
# The command line of a run

The comment on top of the declarations says how they were made. The command line is put together from
the values of the run's parameters: paths first, then options under their long names, and what names
an existing file is shortened to its last name.
-/

namespace TypeScribe.CommandLine

open Files (Place Trouble)

/-- The name of the command. -/
def commandName : String := "json_schema_to_ts"

/-- How a parameter is given. -/
inductive Form where
  | argument
  | option (flag : String)
  | switch (flag : String)
  deriving Repr, DecidableEq

/-- The parameters in order. -/
def parameters : List (String × Form) :=
  [("output", .option "--output"), ("root_dir", .option "--root-dir"), ("config", .option "--config"),
    ("force", .switch "--force"), ("verbose", .switch "--verbose"), ("paths", .argument)]

/-- A value as it is shown: the last name of what exists, and the plain form of anything else. -/
def formatValue (tree : Files.Tree) : Json → Except Trouble String
  | .str s => do
    let path := Files.Path.ofText s
    if ← tree.exists? path then return path.name else return s
  | v => return v.display

/-- The values of an argument, which may be one or several. -/
def argumentTexts (tree : Files.Tree) : Json → Except Trouble (List String)
  | .arr items => items.mapM (formatValue tree)
  | v => return [← formatValue tree v]

/-- What a parameter adds to the arguments and to the options. Vacant values add nothing. -/
def parameterTexts (tree : Files.Tree) (params : Entries Json) (parameter : String × Form) :
    Except Trouble (List String × List String) :=
  match params.get? parameter.1 with
  | none => return ([], [])
  | some v =>
    if v.isVacant then return ([], [])
    else
      match parameter.2 with
      | .argument => return (← argumentTexts tree v, [])
      | .option flag => return ([], [flag, ← formatValue tree v])
      | .switch flag => return ([], [flag])

/-- **The command line** that the given parameter values come from. -/
def reconstruct (tree : Files.Tree) (params : Entries Json) : Except Trouble String := do
  let texts ← parameters.mapM (parameterTexts tree params)
  return " ".intercalate (commandName :: (texts.flatMap Prod.fst ++ texts.flatMap Prod.snd))

end TypeScribe.CommandLine
