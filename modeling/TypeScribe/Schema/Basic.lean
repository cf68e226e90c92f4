import TypeScribe.Schema.Kind

/-!
# Schemas

A schema fragment as a tree: what it says **about itself** (`Facts`), its **body** by kind, and the
**groups** of members under its composing keywords. Whatever in a document is malformed has its own
place in the tree, because a malformed part is reported only when construction reaches it.

`Schema.ofJson` reads the tree off a document. A value plays different parts depending on where it
stands: a fragment, the members of a group, the entries of a type list, the properties of an object.
Each value is read in all these parts at once, from the inside out.
-/

namespace TypeScribe

/-- What a fragment says about itself: its source, and its id and title where these are texts with at
least one character. -/
structure Facts where
  source : Json
  id : Option String := none
  title : Option String := none
  deriving Repr, Inhabited

/-- Why an object cannot be built. -/
inductive Defect where
  | requiredCompound
  | propertiesNotObject
  deriving Repr, DecidableEq

mutual

/-- A schema fragment. -/
inductive Schema where
  /-- A fragment of no kind. -/
  | unsupported (facts : Facts)
  /-- A fragment with a body and groups of members. -/
  | fragment (facts : Facts) (body : Body) (groups : List Group)

/-- The part of a fragment that its kind decides. -/
inductive Body where
  | scalar (scalar : Scalar)
  | choice (alternatives : List Schema)
  | array (items : Schema)
  | object (required : List String) (properties : List (String × Schema))
  | broken (defect : Defect)
  | composite
  /-- A reference; none if it is no text. -/
  | reference (ref : Option String)

/-- A composing keyword with its members. -/
inductive Group where
  | members (keyword : Keyword) (schemas : List Schema)
  | malformed (keyword : Keyword)

end

instance : Inhabited Schema := ⟨.unsupported default⟩

/-- A body of objects, whole or broken. -/
def Body.isObject : Body → Bool
  | .object _ _ => true
  | .broken _ => true
  | _ => false

/-- A body of mere compositions. -/
def Body.isComposite : Body → Bool
  | .composite => true
  | _ => false

/-- A value in the parts it can play inside a schema. -/
structure Part where
  value : Json
  fragment : Schema
  members : Option (List Schema) := none
  entries : Option (List Schema) := none
  properties : Option (List (String × Schema)) := none
  deriving Inhabited

/-- A value in all the parts it can play, the last one being an entry of a type list. -/
structure Reading extends Part where
  entry : Schema
  deriving Inhabited

namespace Schema

/-- What the fields of an object say about it. -/
def factsOf (fields : Entries Json) : Facts where
  source := .obj fields
  id := (fields.get? "id").bind Json.filledText?
  title := (fields.get? "title").bind Json.filledText?

/-- A fragment of no kind from an empty object: the items of an array that names none. -/
def empty : Schema := .unsupported (factsOf [])

/-- The names among the required ones, or nothing if one of them is compound. Anything but a list
requires nothing. -/
def requiredNames (required : Option Json) : Except Defect (List String) :=
  match required.bind Json.items? with
  | none => .ok []
  | some items =>
    if items.any Json.isCompound then .error .requiredCompound else .ok (items.filterMap Json.text?)

/-- The body of an object, given the parts of its fields. -/
def objectBody (fields : Entries Json) (parts : Entries Part) : Body :=
  match requiredNames (fields.get? "required") with
  | .error defect => .broken defect
  | .ok required =>
    match parts.get? "properties" with
    | none => .object required []
    | some part =>
      match part.properties with
      | none => .broken .propertiesNotObject
      | some properties => .object required properties

/-- The body of a fragment of a given kind. -/
def bodyOf (kind : Kind) (fields : Entries Json) (parts : Entries Part) : Body :=
  match kind with
  | .reference => .reference ((fields.get? "$ref").bind Json.text?)
  | .choice => .choice (((parts.get? "type").bind Part.entries).getD [])
  | .scalar s => .scalar s
  | .array => .array (((parts.get? "items").map Part.fragment).getD empty)
  | .object => objectBody fields parts
  | .composite => .composite

/-- The groups of a fragment, in the order in which the keywords take effect. -/
def groupsOf (parts : Entries Part) : List Group :=
  Keyword.all.filterMap fun keyword =>
    (parts.get? keyword.key).map fun part =>
      match part.members with
      | some schemas => .members keyword schemas
      | none => .malformed keyword

/-- A fragment from the fields of an object and the parts of their values. -/
def assemble (fields : Entries Json) (parts : Entries Part) : Schema :=
  match Kind.ofFields? fields with
  | none => .unsupported (factsOf fields)
  | some kind => .fragment (factsOf fields) (bodyOf kind fields parts) (groupsOf parts)

/-- A value in all its parts: as an entry of a type list it is an object with that type alone. -/
def complete (part : Part) : Reading :=
  { part with entry := assemble [("type", part.value)] [("type", part)] }

mutual

/-- Reads a value in all its parts. -/
def read : Json → Reading
  | .arr items =>
    let readings := readItems items
    complete
      { value := .arr items
        fragment := .unsupported ⟨.arr items, none, none⟩
        members := some (readings.map fun r => r.fragment)
        entries := some (readings.map fun r => r.entry) }
  | .obj fields =>
    let readings := readFields fields
    complete
      { value := .obj fields
        fragment := assemble fields (readings.map fun r => (r.1, r.2.toPart))
        properties := some (readings.map fun r => (r.1, r.2.fragment)) }
  | v => complete { value := v, fragment := .unsupported ⟨v, none, none⟩ }

@[inherit_doc read]
def readItems : List Json → List Reading
  | [] => []
  | v :: rest => read v :: readItems rest

@[inherit_doc read]
def readFields : List (String × Json) → List (String × Reading)
  | [] => []
  | (key, v) :: rest => (key, read v) :: readFields rest

end

/-- **Schema of a document.** -/
def ofJson (v : Json) : Schema := (read v).fragment

end Schema

end TypeScribe
