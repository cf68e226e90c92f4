/-!
# Plain text

What a run says to a person may end up on a terminal or in a file, so it is said in **plain** text:
the sequences that steer a terminal are left out. Such a sequence is an escape character, an opening
bracket, any number of digits, semicolons and question marks, and the letter that ends it.
-/

namespace TypeScribe.Text

/-- The character that opens a steering sequence. -/
def escapeChar : Char := Char.ofNat 0x1B

/-- Whether a character may stand between the bracket and the last letter of a steering sequence. -/
def isParameter (c : Char) : Bool := c.isDigit || c == ';' || c == '?'

/-- The length of what follows the bracket of a steering sequence, its last letter included. -/
def parametersLength? : List Char → Option Nat
  | [] => none
  | c :: rest =>
    if isParameter c then (parametersLength? rest).map (· + 1)
    else if c.isAlpha then some 1
    else none

/-- The length of what follows the first character of a steering sequence. -/
def steeringLength? (c : Char) (rest : List Char) : Option Nat :=
  if c = escapeChar then
    match rest with
    | '[' :: more => (parametersLength? more).map (· + 1)
    | _ => none
  else none

/-- A text without its steering sequences; the first `skip` characters belong to one. -/
def plainFrom : (skip : Nat) → List Char → List Char
  | _, [] => []
  | skip + 1, _ :: rest => plainFrom skip rest
  | 0, c :: rest =>
    match steeringLength? c rest with
    | some length => plainFrom length rest
    | none => c :: plainFrom 0 rest

/-- **Plain text.** -/
def plain (text : String) : String := String.ofList (plainFrom 0 text.toList)

end TypeScribe.Text
