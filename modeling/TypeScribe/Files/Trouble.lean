/-!
# Trouble with files

The ways in which a file cannot be opened, made or replaced.
-/

namespace TypeScribe.Files

/-- Why an operation on a path fails. -/
inductive Trouble where
  | missing
  | isDirectory
  | notDirectory
  | present
  | nameTooLong
  | busy
  /-- The path holds the null character. -/
  | nullCharacter
  deriving Repr, DecidableEq

namespace Trouble

/-- The wording of a trouble. -/
def text : Trouble → String
  | .missing => "No such file or directory"
  | .isDirectory => "Is a directory"
  | .notDirectory => "Not a directory"
  | .present => "File exists"
  | .nameTooLong => "File name too long"
  | .busy => "Device or resource busy"
  | .nullCharacter => "Invalid argument"

/-- The number by which a trouble is reported. -/
def number : Trouble → Nat
  | .missing => 2
  | .isDirectory => 21
  | .notDirectory => 20
  | .present => 17
  | .nameTooLong => 36
  | .busy => 16
  | .nullCharacter => 22

end Trouble

end TypeScribe.Files
