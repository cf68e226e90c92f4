import TypeScribe.Json.Printer

/-!
# Indents

What stands in front of the fields of an object type: a text, or a count of spaces. A setting for the
indent is judged when it is used, and `Indent.Fault` says what is wrong with one that cannot be.
-/

namespace TypeScribe

/-- What stands in front of the fields of an object type. A count of spaces moves the lines of a
field's type, while the field itself shows the count. -/
inductive Indent where
  | text (margin : String)
  | count (spaces : Int)
  | flag (set : Bool)
  deriving Repr, DecidableEq

namespace Indent

/-- Why a setting is no indent. -/
inductive Fault where
  /-- It is neither a text nor a count. -/
  | unusable
  /-- It is a count that does not fit a machine word. -/
  | uncountable
  /-- It is a count of more spaces than there is room for. -/
  | unwieldy
  deriving Repr, DecidableEq

/-- The wording of a fault. -/
def Fault.message : Fault → String
  | .unusable => "indent is neither a text nor a count"
  | .uncountable => "indent is beyond counting"
  | .unwieldy => "indent has no room"

/-- The least and the first too large of the counts that fit a signed word of 64 bits. -/
def countRange : Int × Int := (-9223372036854775808, 9223372036854775808)

/-- The most spaces there is room for. -/
def roomLimit : Int := 68719476736

/-- The indent of a count of spaces. A negative count stands for none. -/
def ofCount (spaces : Int) : Except Fault Indent :=
  if spaces < countRange.1 ∨ countRange.2 ≤ spaces then .error .uncountable
  else if roomLimit < spaces then .error .unwieldy
  else .ok (.count spaces)

/-- **Indent of a setting.** -/
def ofJson : Json → Except Fault Indent
  | .str s => .ok (.text s)
  | .int n => ofCount n
  | .bool b => .ok (.flag b)
  | _ => .error .unusable

/-- What is written in front of a field. -/
def shown : Indent → String
  | .text margin => margin
  | .count spaces => (Json.int spaces).display
  | .flag set => (Json.bool set).display

/-- What the further lines of a field's type are moved by. -/
def margin : Indent → List Char
  | .text margin => margin.toList
  | .count spaces => List.replicate spaces.toNat ' '
  | .flag true => [' ']
  | .flag false => []

end Indent

end TypeScribe
