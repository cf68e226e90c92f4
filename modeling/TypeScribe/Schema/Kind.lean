import TypeScribe.Json.Basic

/-!
# Kinds of schemas

Ten keywords of an object decide what it means as a schema. The **kind** of a fragment is found by
asking in a fixed order, since one object may fit several kinds: a reference first, then a list of
types, a plain type, an array, an object, and last a mere composition.
-/

namespace TypeScribe

/-- The types that have no parts. -/
inductive Scalar where
  | string
  | number
  | boolean
  | null
  deriving Repr, DecidableEq, Inhabited

namespace Scalar

/-- The scalar that a `type` names. -/
def ofName? : String → Option Scalar
  | "string" => some .string
  | "number" => some .number
  | "integer" => some .number
  | "boolean" => some .boolean
  | "null" => some .null
  | _ => none

/-- The text of a scalar. The null type has none, and so contributes nothing to a union. -/
def text : Scalar → String
  | .string => "string"
  | .number => "number"
  | .boolean => "boolean"
  | .null => ""

end Scalar

/-- The keywords that compose schemas. -/
inductive Keyword where
  | allOf
  | anyOf
  | oneOf
  deriving Repr, DecidableEq, Inhabited

namespace Keyword

/-- The keywords in the order in which they take effect. -/
def all : List Keyword := [.allOf, .anyOf, .oneOf]

/-- The key of a keyword. -/
def key : Keyword → String
  | .allOf => "allOf"
  | .anyOf => "anyOf"
  | .oneOf => "oneOf"

/-- The operator between the members of a keyword. -/
def operator : Keyword → String
  | .allOf => "&"
  | .anyOf => "|"
  | .oneOf => "|"

end Keyword

/-- The kind of a schema fragment. -/
inductive Kind where
  | reference
  | choice
  | scalar (scalar : Scalar)
  | array
  | object
  | composite
  deriving Repr, DecidableEq, Inhabited

namespace Kind

/-- Whether an object has a composing keyword. -/
def hasComposite (fields : Entries Json) : Bool := Keyword.all.any fun k => fields.has k.key

/-- **Kind of an object**: the first that fits. -/
def ofFields? (fields : Entries Json) : Option Kind :=
  if fields.has "$ref" then some .reference
  else
    let type := fields.get? "type"
    if (type.bind Json.items?).isSome then some .choice
    else
      match (type.bind Json.text?).bind Scalar.ofName? with
      | some s => some (.scalar s)
      | none =>
        if type.bind Json.text? = some "array" ∨ fields.has "items" then some .array
        else if type.bind Json.text? = some "object" ∨ fields.has "properties" then some .object
        else if hasComposite fields then some .composite
        else none

/-- The kind of a value; only objects have one. -/
def ofJson? (v : Json) : Option Kind := v.fields?.bind ofFields?

end Kind

end TypeScribe
