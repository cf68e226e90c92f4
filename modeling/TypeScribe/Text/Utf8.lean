import TypeScribe.Text.Hex

/-!
# UTF-8

Decoding of octets, with an account of the first fault: **where** it starts, **how many** octets it
covers (the longest part that could still have begun a character) and **why** it is one.
-/

namespace TypeScribe.Text.Utf8

/-- Why a sequence of octets begins no character. -/
inductive Why where
  /-- The first octet begins no character at all. -/
  | invalidStart
  /-- An octet that should continue the character does not. -/
  | invalidContinuation
  /-- The octets end inside the character. -/
  | truncated
  deriving Repr, DecidableEq

/-- The wording of a reason. -/
def Why.text : Why → String
  | .invalidStart => "invalid start byte"
  | .invalidContinuation => "invalid continuation byte"
  | .truncated => "unexpected end of data"

/-- A place where decoding fails. -/
structure Fault where
  octet : UInt8
  position : Nat
  length : Nat
  why : Why
  deriving Repr, DecidableEq

/-- The wording of a fault. -/
def Fault.message (f : Fault) : String :=
  if f.length = 1 then
    "'utf-8' codec can't decode byte 0x" ++ String.ofList (hex 2 f.octet.toNat) ++ " in position " ++
      f.position.repr ++ ": " ++ f.why.text
  else
    "'utf-8' codec can't decode bytes in position " ++ f.position.repr ++ "-" ++
      (f.position + f.length - 1).repr ++ ": " ++ f.why.text

/-- Whether an octet continues a character. -/
def isTail (b : UInt8) : Bool := 0x80 ≤ b && b ≤ 0xBF

/-- Whether `b` may follow the first octet `a` of a three-octet character: no longer form than
needed, and no surrogate. -/
def follows3 (a b : UInt8) : Bool :=
  if a = 0xE0 then 0xA0 ≤ b && b ≤ 0xBF else if a = 0xED then 0x80 ≤ b && b ≤ 0x9F else isTail b

/-- Whether `b` may follow the first octet `a` of a four-octet character: no longer form than
needed, and nothing beyond the last code point. -/
def follows4 (a b : UInt8) : Bool :=
  if a = 0xF0 then 0x90 ≤ b && b ≤ 0xBF else if a = 0xF4 then 0x80 ≤ b && b ≤ 0x8F else isTail b

/-- The character with the given payload bits. -/
def char2 (a b : UInt8) : Char := Char.ofNat ((a.toNat - 0xC0) * 64 + (b.toNat - 0x80))

@[inherit_doc char2]
def char3 (a b c : UInt8) : Char :=
  Char.ofNat (((a.toNat - 0xE0) * 64 + (b.toNat - 0x80)) * 64 + (c.toNat - 0x80))

@[inherit_doc char2]
def char4 (a b c d : UInt8) : Char :=
  Char.ofNat ((((a.toNat - 0xF0) * 64 + (b.toNat - 0x80)) * 64 + (c.toNat - 0x80)) * 64 +
    (d.toNat - 0x80))

/-- Decodes the octets from `position` on; `done` holds the characters before, last one first. -/
def decodeFrom (position : Nat) (done : List Char) : List UInt8 → Except Fault (List Char)
  | [] => .ok done.reverse
  | a :: rest =>
    let fault (length : Nat) (why : Why) : Except Fault (List Char) :=
      .error ⟨a, position, length, why⟩
    if a < 0x80 then
      decodeFrom (position + 1) (Char.ofNat a.toNat :: done) rest
    else if a < 0xC2 then
      fault 1 .invalidStart
    else if a < 0xE0 then
      match rest with
      | [] => fault 1 .truncated
      | b :: rest =>
        if isTail b then decodeFrom (position + 2) (char2 a b :: done) rest
        else fault 1 .invalidContinuation
    else if a < 0xF0 then
      match rest with
      | [] => fault 1 .truncated
      | [b] => if follows3 a b then fault 2 .truncated else fault 1 .invalidContinuation
      | b :: c :: rest =>
        if !follows3 a b then fault 1 .invalidContinuation
        else if !isTail c then fault 2 .invalidContinuation
        else decodeFrom (position + 3) (char3 a b c :: done) rest
    else if a < 0xF5 then
      match rest with
      | [] => fault 1 .truncated
      | [b] => if follows4 a b then fault 2 .truncated else fault 1 .invalidContinuation
      | [b, c] =>
        if !follows4 a b then fault 1 .invalidContinuation
        else if isTail c then fault 3 .truncated
        else fault 2 .invalidContinuation
      | b :: c :: d :: rest =>
        if !follows4 a b then fault 1 .invalidContinuation
        else if !isTail c then fault 2 .invalidContinuation
        else if !isTail d then fault 3 .invalidContinuation
        else decodeFrom (position + 4) (char4 a b c d :: done) rest
    else
      fault 1 .invalidStart

/-- **Decoding**: the characters, or the first fault. -/
def decode (octets : List UInt8) : Except Fault (List Char) := decodeFrom 0 [] octets

end TypeScribe.Text.Utf8
