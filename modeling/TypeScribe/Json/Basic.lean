import TypeScribe.Table
import TypeScribe.Number.Binary64

/-!
# JSON values

Documents as values: whole numbers are kept apart from binary ones, and objects keep the order of
their fields. Two views of a value are used throughout: the text it is, if it is one, and whether it
is **vacant**, that is, counts as absent where a setting or an argument is asked for.
-/

namespace TypeScribe

open Number (Binary64)

/-- A JSON value. -/
inductive Json where
  | null
  | bool (value : Bool)
  | int (value : Int)
  | real (value : Binary64)
  | str (value : String)
  | arr (items : List Json)
  | obj (fields : List (String × Json))
  deriving Repr, Inhabited

namespace Json

/-- The fields of an object. -/
def fields? : Json → Option (Entries Json)
  | .obj fields => some fields
  | _ => none

/-- The items of a list. -/
def items? : Json → Option (List Json)
  | .arr items => some items
  | _ => none

/-- The text of a string. -/
def text? : Json → Option String
  | .str s => some s
  | _ => none

/-- The text of a string that has one. -/
def filledText? : Json → Option String
  | .str s => if s = "" then none else some s
  | _ => none

/-- A field of an object. -/
def field? (v : Json) (key : String) : Option Json := v.fields?.bind (·.get? key)

/-- **Vacant** values: null, false, zero, and whatever is empty. -/
def isVacant : Json → Bool
  | .null => true
  | .bool b => !b
  | .int n => n == 0
  | .real x => x.isZero
  | .str s => s == ""
  | .arr items => items.isEmpty
  | .obj fields => fields.isEmpty

/-- The most digits with which a whole number is read or written. -/
def numeralLimit : Nat := 4300

/-- Whether a whole number has no more digits than it may be written with. -/
def isShort (n : Int) : Bool := n.natAbs < Number.Binary64.tenPow numeralLimit

/-- Whether a value is a list or an object. -/
def isCompound : Json → Bool
  | .arr _ | .obj _ => true
  | _ => false

mutual

/-- Every text that stands under a key somewhere in a value. -/
def textsUnder (key : String) : Json → List String
  | .arr items => textsUnderItems key items
  | .obj fields => textsUnderFields key fields
  | _ => []

@[inherit_doc textsUnder]
def textsUnderItems (key : String) : List Json → List String
  | [] => []
  | v :: rest => textsUnder key v ++ textsUnderItems key rest

@[inherit_doc textsUnder]
def textsUnderFields (key : String) : List (String × Json) → List String
  | [] => []
  | (k, v) :: rest =>
    (if k = key then v.text?.toList else []) ++ textsUnder key v ++ textsUnderFields key rest

end

/-- Every reference in a value, and whatever else stands in its place. -/
def references (v : Json) : List String := v.textsUnder "$ref"

/-- Every id in a value, and whatever else stands in its place. -/
def ids (v : Json) : List String := v.textsUnder "id"

end Json

end TypeScribe
