import TypeScribe.Schema.Basic

/-!
# The graph of schemas

Construction turns fragments into **nodes** that refer to each other by number. The graph only
grows: a node keeps its number for ever, and the **table** of ids and locations says which node a
key stands for. Children come by number, references by key, so that a schema may refer to itself.
-/

namespace TypeScribe

/-- The number of a node. -/
abbrev NodeId := Nat

/-- A field of an object node. -/
structure Field where
  name : String
  type : NodeId
  required : Bool
  deriving Repr, DecidableEq, Inhabited

/-- What a node is made of. Parts that are not built yet are missing. -/
inductive Shape where
  | scalar (scalar : Scalar)
  | choice (alternatives : List NodeId)
  | array (item : Option NodeId)
  | object (fields : List Field)
  | composite
  /-- A reference as written and the key it leads to; both are empty until it is resolved. -/
  | reference (ref target : String)
  deriving Repr, DecidableEq, Inhabited

namespace Shape

/-- The kind of a shape. -/
def kind : Shape → Kind
  | .scalar s => .scalar s
  | .choice _ => .choice
  | .array _ => .array
  | .object _ => .object
  | .composite => .composite
  | .reference _ _ => .reference

/-- The nodes a shape holds, in order. -/
def children : Shape → List NodeId
  | .choice alternatives => alternatives
  | .array item => item.toList
  | .object fields => fields.map Field.type
  | _ => []

/-- The shape of a body before its parts are built. -/
def unbuilt : Body → Shape
  | .scalar s => .scalar s
  | .choice _ => .choice []
  | .array _ => .array none
  | .object _ _ => .object []
  | .broken _ => .object []
  | .composite => .composite
  | .reference _ => .reference "" ""

end Shape

/-- The members of a composing keyword. -/
structure Augmentation where
  keyword : Keyword
  members : List NodeId
  deriving Repr, DecidableEq, Inhabited

/-- A node: the fragment it stands for and where it was found, the name it would be declared by,
whether it is **declared**, and its parts. -/
structure Node where
  source : Json
  path : String
  name : String
  declared : Bool
  shape : Shape
  augmentations : List Augmentation := []
  deriving Repr, Inhabited

/-- The nodes a node holds: those of its shape, then the members of its augmentations. -/
def Node.children (node : Node) : List NodeId :=
  node.shape.children ++ node.augmentations.flatMap Augmentation.members

/-- The nodes by number, and the table of keys. -/
structure Graph where
  nodes : Array Node := #[]
  table : Entries NodeId := []
  deriving Repr, Inhabited

namespace Graph

/-- The node of a number. -/
def node? (g : Graph) (id : NodeId) : Option Node := g.nodes[id]?

/-- The count of nodes. -/
def size (g : Graph) : Nat := g.nodes.size

/-- The number a key stands for. -/
def find? (g : Graph) (key : String) : Option NodeId := g.table.get? key

/-- Whether a key stands for a node. -/
def knows (g : Graph) (key : String) : Bool := (g.find? key).isSome

/-- Adds a node, whose number is the count of those before. -/
def push (g : Graph) (node : Node) : Graph := { g with nodes := g.nodes.push node }

/-- Changes one node. -/
def adjust (g : Graph) (id : NodeId) (f : Node → Node) : Graph :=
  { g with nodes := g.nodes.modify id f }

/-- Lets a key stand for a node. -/
def bind (g : Graph) (key : String) (id : NodeId) : Graph :=
  { g with table := g.table.insert key id }

end Graph

end TypeScribe
