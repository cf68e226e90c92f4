import TypeScribe.Text.Split
import TypeScribe.Text.Word

/-!
# Checking the output

Before declarations replace a file they are checked: some line has to **open a declaration**, and
outside string literals there have to be as many opening as closing braces.
-/

namespace TypeScribe.Output

/-- What is wrong with a text that should be declarations. -/
inductive Fault where
  | noDeclaration
  | unbalanced (opening closing : Nat)
  deriving Repr, DecidableEq

/-- The wording of a fault. -/
def Fault.message : Fault → String
  | .noDeclaration => "Generated code has no type declarations"
  | .unbalanced opening closing =>
    "Generated code has unbalanced braces: " ++ opening.repr ++ " open, " ++ closing.repr ++ " close"

/-- Whether a line is a word followed by a space and a word character. -/
def leads (word : String) (line : List Char) : Bool :=
  word.toList.isPrefixOf line &&
    match line.drop word.toList.length with
    | ' ' :: c :: _ => Text.isWord c
    | _ => false

/-- Whether a line opens a declaration. -/
def opensDeclaration (line : List Char) : Bool := leads "interface" line || leads "type" line

/-- Whether some line of a text opens a declaration. -/
def declares (text : List Char) : Bool := (Text.piecesAt '\n' text).any opensDeclaration

/-- The length of a string literal behind its opening quote, with the closing one. A backslash takes
the next character with it, which must not be a line feed. -/
def literalLength? : List Char → Option Nat
  | [] => none
  | '"' :: _ => some 1
  | '\\' :: c :: rest => if c = '\n' then none else (literalLength? rest).map (· + 2)
  | ['\\'] => none
  | _ :: rest => (literalLength? rest).map (· + 1)

/-- A text without its string literals; the first `skip` characters belong to one. A quote that opens
no literal stays. -/
def withoutLiterals : (skip : Nat) → List Char → List Char
  | _, [] => []
  | skip + 1, _ :: rest => withoutLiterals skip rest
  | 0, c :: rest =>
    match if c = '"' then literalLength? rest else none with
    | some length => withoutLiterals length rest
    | none => c :: withoutLiterals 0 rest

/-- **The check** of a text. -/
def check (text : String) : Except Fault Unit :=
  if !declares text.toList then .error .noDeclaration
  else
    let code := withoutLiterals 0 text.toList
    let opening := code.count '\x7b'
    let closing := code.count '\x7d'
    if opening = closing then .ok () else .error (.unbalanced opening closing)

end TypeScribe.Output
