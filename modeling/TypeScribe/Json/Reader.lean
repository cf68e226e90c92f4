import TypeScribe.Json.Basic
import TypeScribe.Text.Hex

/-!
# Reading JSON texts

A reader that either gives the value of a text or says **what** is wrong and **where**. A number
ends where it stops being one, so that `01` is a number followed by something unexpected, and a whole
number may not be too long (`numeralLimit`); the words `NaN`, `Infinity` and `-Infinity` are numbers; of several fields
with one key the last value stands where the first one stood.

Every step leaves a shorter rest, and the rest of the text says where the reader is, so faults carry
the rest at which they were noticed.
-/

namespace TypeScribe.Json

open Number (Binary64)

/-- What can be wrong with a text. -/
inductive Flaw where
  | value
  | propertyName
  | colon
  | comma
  | extraData
  | unterminated
  | control
  | escape
  | unicodeEscape
  | byteOrderMark
  | numeralTooLong
  deriving Repr, DecidableEq

/-- The wording of a flaw. -/
def Flaw.text : Flaw → String
  | .value => "Expecting value"
  | .propertyName => "Expecting property name enclosed in double quotes"
  | .colon => "Expecting ':' delimiter"
  | .comma => "Expecting ',' delimiter"
  | .extraData => "Extra data"
  | .unterminated => "Unterminated string starting at"
  | .control => "Invalid control character at"
  | .escape => "Invalid \\escape"
  | .unicodeEscape => "Invalid \\uXXXX escape"
  | .byteOrderMark => "Unexpected UTF-8 BOM (decode using utf-8-sig)"
  | .numeralTooLong => "Too many digits"

/-- A flaw and the place it is reported at, counted in characters. -/
structure Fault where
  flaw : Flaw
  line : Nat
  column : Nat
  position : Nat
  deriving Repr, DecidableEq

/-- The wording of a fault. -/
def Fault.message (f : Fault) : String :=
  f.flaw.text ++ ": line " ++ f.line.repr ++ " column " ++ f.column.repr ++ " (char " ++
    f.position.repr ++ ")"

namespace Reader

/-- A flaw noticed in front of a rest of the text. -/
structure Stop where
  flaw : Flaw
  rest : List Char

/-- What was read, and the rest behind it. -/
abbrev Step (α : Type) := Except Stop (α × List Char)

/-- Blanks between the parts of a text. -/
def isSpace (c : Char) : Bool := c == ' ' || c == '\t' || c == '\n' || c == '\r'

/-- The rest behind leading blanks. -/
def skip (cs : List Char) : List Char := cs.dropWhile isSpace

/-- The value of four hexadecimal digits that lead a text. -/
def fourHex? : List Char → Option (Nat × List Char)
  | a :: b :: c :: d :: rest => do
    let a ← Text.hexValue? a
    let b ← Text.hexValue? b
    let c ← Text.hexValue? c
    let d ← Text.hexValue? d
    return (((a * 16 + b) * 16 + c) * 16 + d, rest)
  | _ => none

/-- The character of a short escape. -/
def shortEscape? (c : Char) : Option Char :=
  match c with
  | '"' => some '"'
  | '\\' => some '\\'
  | '/' => some '/'
  | 'b' => some (Char.ofNat 0x08)
  | 'f' => some (Char.ofNat 0x0C)
  | 'n' => some '\n'
  | 'r' => some '\r'
  | 't' => some '\t'
  | _ => none

/-- Whether a UTF-16 unit is the first of a pair. -/
def isHigh (n : Nat) : Bool := 0xD800 ≤ n && n < 0xDC00

/-- Whether a UTF-16 unit is the second of a pair. -/
def isLow (n : Nat) : Bool := 0xDC00 ≤ n && n < 0xE000

/-- The character of a pair of UTF-16 units. -/
def paired (high low : Nat) : Char := Char.ofNat (0x10000 + (high - 0xD800) * 0x400 + (low - 0xDC00))

/-- Reads the character of a unit escape, given what follows `\u`. The escape has to be followed by
something; a first unit of a pair takes the second one with it. A unit of a pair that stands alone is no
character, and is read as the null character. The rest `start` begins with the `u`. -/
def unitEscape (start cs : List Char) : Step Char :=
  match fourHex? cs with
  | none => .error ⟨.unicodeEscape, start⟩
  | some (_, []) => .error ⟨.unicodeEscape, start⟩
  | some (unit, rest) =>
    match isHigh unit, rest with
    | true, '\\' :: 'u' :: more =>
      if more.length ≤ 4 then .ok (Char.ofNat unit, rest)
      else
        match fourHex? more with
        | none => .error ⟨.unicodeEscape, 'u' :: more⟩
        | some (second, behind) =>
          if isLow second then .ok (paired unit second, behind) else .ok (Char.ofNat unit, rest)
    | _, _ => .ok (Char.ofNat unit, rest)

/-- Reads a string behind its opening quote; `start` begins with that quote, and `done` holds the
characters so far, last one first. -/
def string (start : List Char) : (fuel : Nat) → (done cs : List Char) → Step String
  | 0, _, _ => .error ⟨.unterminated, start⟩
  | _ + 1, _, [] => .error ⟨.unterminated, start⟩
  | fuel + 1, done, c :: rest =>
    if c = '"' then .ok (String.ofList done.reverse, rest)
    else if c = '\\' then
      match rest with
      | [] => .error ⟨.unterminated, start⟩
      | 'u' :: more =>
        match unitEscape rest more with
        | .error stop => .error stop
        | .ok (d, behind) => string start fuel (d :: done) behind
      | e :: more =>
        match shortEscape? e with
        | none => .error ⟨.escape, c :: rest⟩
        | some d => string start fuel (d :: done) more
    else if c.toNat ≤ 0x1F then .error ⟨.control, c :: rest⟩
    else string start fuel (c :: done) rest

/-- The digits that lead a text, and the rest. -/
def digits (cs : List Char) : List Char × List Char := cs.span Char.isDigit

/-- The number that a row of digits stands for. -/
def numeral (ds : List Char) : Nat := ds.foldl (fun n d => n * 10 + (d.toNat - '0'.toNat)) 0

/-- The whole part of a number: a zero, or digits that do not start with one. -/
def wholePart? (cs : List Char) : Option (List Char × List Char) :=
  match cs with
  | '0' :: rest => some (['0'], rest)
  | c :: _ => if c.isDigit then some (digits cs) else none
  | [] => none

/-- The fraction of a number, if there is one with a digit. -/
def fraction (cs : List Char) : Option (List Char) × List Char :=
  match cs with
  | '.' :: rest =>
    match digits rest with
    | ([], _) => (none, cs)
    | (ds, behind) => (some ds, behind)
  | _ => (none, cs)

/-- A signed row of digits. -/
def signed (cs : List Char) : Option Int × List Char :=
  let read (negative : Bool) (rest : List Char) : Option Int × List Char :=
    match digits rest with
    | ([], _) => (none, cs)
    | (ds, behind) => (some (if negative then -(numeral ds : Int) else numeral ds), behind)
  match cs with
  | '-' :: rest => read true rest
  | '+' :: rest => read false rest
  | _ => read false cs

/-- The exponent of a number, if there is one with a digit. -/
def exponent (cs : List Char) : Option Int × List Char :=
  match cs with
  | c :: rest =>
    if c = 'e' ∨ c = 'E' then
      match signed rest with
      | (none, _) => (none, cs)
      | (some n, behind) => (some n, behind)
    else (none, cs)
  | [] => (none, cs)

/-- The whole number of a row of digits. -/
def wholeNumber (negative : Bool) (ds : List Char) : Json :=
  .int (if negative then -(numeral ds : Int) else numeral ds)

/-- Reads a number behind its sign; `start` begins with the sign, if there is one. A number with
neither fraction nor exponent is whole. -/
def number (negative : Bool) (start cs : List Char) : Step Json :=
  match wholePart? cs with
  | none => .error ⟨.value, start⟩
  | some (whole, rest) =>
    let (part, rest) := fraction rest
    let (power, rest) := exponent rest
    match part, power with
    | none, none =>
      if whole.length > numeralLimit then .error ⟨.numeralTooLong, start⟩
      else .ok (wholeNumber negative whole, rest)
    | _, _ =>
      let ds := part.getD []
      let x := Binary64.ofDecimal negative (numeral (whole ++ ds)) (power.getD 0 - ds.length)
      .ok (.real x, rest)

/-- The rest behind a word that leads a text. -/
def word? : (word cs : List Char) → Option (List Char)
  | [], cs => some cs
  | w :: word, c :: cs => if w = c then word? word cs else none
  | _ :: _, [] => none

/-- The words that are values. -/
def words : List (List Char × Json) :=
  [("null".toList, .null), ("true".toList, .bool true), ("false".toList, .bool false),
    ("NaN".toList, .real .nan), ("Infinity".toList, .real (.infinite false)),
    ("-Infinity".toList, .real (.infinite true))]

/-- Reads a value that is neither a string nor compound. -/
def scalar (cs : List Char) : Step Json :=
  match words.findSome? fun (word, v) => (word? word cs).map (v, ·) with
  | some done => .ok done
  | none =>
    match cs with
    | '-' :: rest => number true cs rest
    | _ => number false cs cs

mutual

/-- Reads a value. -/
def value : (fuel : Nat) → List Char → Step Json
  | 0, cs => .error ⟨.value, cs⟩
  | fuel + 1, cs =>
    match cs with
    | '"' :: rest => (string cs fuel [] rest).map fun (s, behind) => (.str s, behind)
    | '[' :: rest =>
      match skip rest with
      | ']' :: behind => .ok (.arr [], behind)
      | inner => items fuel [] inner
    | '\x7b' :: rest =>
      match skip rest with
      | '\x7d' :: behind => .ok (.obj [], behind)
      | inner => fields fuel [] inner
    | _ => scalar cs

/-- Reads the items of a list from one item on; `done` holds the items before, last one first. -/
def items : (fuel : Nat) → (done : List Json) → List Char → Step Json
  | 0, _, cs => .error ⟨.value, cs⟩
  | fuel + 1, done, cs =>
    match value fuel cs with
    | .error stop => .error stop
    | .ok (v, rest) =>
      match skip rest with
      | ']' :: behind => .ok (.arr (v :: done).reverse, behind)
      | ',' :: behind => items fuel (v :: done) (skip behind)
      | rest => .error ⟨.comma, rest⟩

/-- Reads the fields of an object from one field on, after those in `done`. -/
def fields : (fuel : Nat) → (done : Entries Json) → List Char → Step Json
  | 0, _, cs => .error ⟨.propertyName, cs⟩
  | fuel + 1, done, cs =>
    match cs with
    | '"' :: rest =>
      match string cs fuel [] rest with
      | .error stop => .error stop
      | .ok (key, rest) =>
        match skip rest with
        | ':' :: rest =>
          match value fuel (skip rest) with
          | .error stop => .error stop
          | .ok (v, rest) =>
            match skip rest with
            | '\x7d' :: behind => .ok (.obj (done.insert key v), behind)
            | ',' :: behind => fields fuel (done.insert key v) (skip behind)
            | rest => .error ⟨.comma, rest⟩
        | rest => .error ⟨.colon, rest⟩
    | _ => .error ⟨.propertyName, cs⟩

end

/-- Reads a text that is one value and nothing else. A level of nesting takes one character and two
steps, so twice the length of the text is fuel enough. -/
def document (cs : List Char) : Except Stop Json :=
  if cs.head? = some (Char.ofNat 0xFEFF) then .error ⟨.byteOrderMark, cs⟩
  else
    match value (2 * cs.length + 2) (skip cs) with
    | .error stop => .error stop
    | .ok (v, rest) =>
      match skip rest with
      | [] => .ok v
      | rest => .error ⟨.extraData, rest⟩

/-- The fault of a flaw noticed in a text. -/
def locate (cs : List Char) (stop : Stop) : Fault :=
  let before := cs.take (cs.length - stop.rest.length)
  { flaw := stop.flaw
    line := before.count '\n' + 1
    column := (before.reverse.takeWhile (· != '\n')).length + 1
    position := before.length }

end Reader

/-- **Reading** a text. -/
def ofText (text : List Char) : Except Fault Json :=
  match Reader.document text with
  | .ok v => .ok v
  | .error stop => .error (Reader.locate text stop)

end TypeScribe.Json
