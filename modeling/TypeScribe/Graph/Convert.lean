import TypeScribe.Graph.Draft

/-!
# Conversion

Conversion writes the draft of a graph that no longer changes.

* **Once a node.** A node whose conversion has started is left alone.
* **Names first.** A declared node puts its name on its page before anything else, which is what lets
  a cycle of references end.
* **Members, then parts.** The members of the composing keywords come before the parts of the shape.

A failed conversion leaves behind the pages written so far.
-/

namespace TypeScribe

/-- A step of conversion. -/
abbrev Write := EStateM Failure Draft

namespace Write

/-- The page of a node. -/
def page (id : NodeId) : Write Page := return (← get).page id

/-- The text of a node where a union or an intersection may leave it out. -/
def inlineText (id : NodeId) : Write String := return ((← page id).inline).getD ""

/-- The text of a node where there has to be one. -/
def embedded (id : NodeId) : Write String := return Layout.orNull (← inlineText id)

/-- Marks the conversion of a node as started; a declared node is known by its name from here on. -/
def start (id : NodeId) (node : Node) : Write Unit := do
  if node.declared then
    modify fun d => (d.turn id fun p => { p with started := true, inline := some node.name }).emit id
  else
    modify fun d => d.turn id fun p => { p with started := true }

/-- Writes what a node comes to: a block if it is declared, its inline text otherwise. -/
def finish (id : NodeId) (node : Node) (expression augmentation : String) : Write Unit :=
  if node.declared then
    let text :=
      match node.shape with
      | .object _ =>
        if augmentation = "" then Layout.interfaceDecl node.name expression
        else Layout.splitDecl node.name expression augmentation
      | .composite => Layout.aliasDecl node.name (Layout.orNull expression)
      | _ => Layout.aliasDecl node.name (Layout.orNull (Layout.augmented expression augmentation))
    modify fun d => d.turn id fun p => { p with block := some text }
  else
    let text :=
      match node.shape with
      | .composite => expression
      | _ => Layout.augmented expression augmentation
    modify fun d => d.turn id fun p => { p with inline := some text }

end Write

section

variable (convert : NodeId → Write Unit)

/-- Converts nodes in turn and gives their texts, each taken right after its own conversion. Empty
texts are left out. -/
def Write.texts : List NodeId → Write (List String)
  | [] => pure []
  | id :: rest => do
    convert id
    let text ← Write.inlineText id
    let more ← Write.texts rest
    return if text = "" then more else text :: more

/-- The text of each keyword that has members with a text. -/
def Write.groups : List Augmentation → Write (List String)
  | [] => pure []
  | augmentation :: rest => do
    let texts ← Write.texts convert augmentation.members
    let more ← Write.groups rest
    return if texts.isEmpty then more
      else (" " ++ augmentation.keyword.operator ++ " ").intercalate texts :: more

/-- Converts the types of fields in turn. -/
def Write.fields : List Field → Write (List Layout.FieldText)
  | [] => pure []
  | field :: rest => do
    convert field.type
    let type ← Write.embedded field.type
    let more ← Write.fields rest
    return ⟨field.name, type, field.required⟩ :: more

/-- The text of a node by its shape alone. -/
def Write.expression (graph : Graph) (indent : Json) (node : Node) (augmentation : String) :
    Write String :=
  match node.shape with
  | .scalar s => pure s.text
  | .choice alternatives => return " | ".intercalate (← Write.texts convert alternatives)
  | .array none => throw .itemsUnbuilt
  | .array (some item) => do
    convert item
    return Layout.element (← Write.embedded item) ++ "[]"
  | .object fields => do
    match Layout.objectTypeUnder indent (← Write.fields convert fields) with
    | .ok text => return text
    | .error fault => throw (.indent fault)
  | .composite => pure augmentation
  | .reference _ target => do
    match graph.find? target with
    | none => throw (.keyUnknown target)
    | some id =>
      convert id
      match (← Write.page id).inline with
      | some text => return Layout.orNull text
      | none =>
        match graph.node? id with
        | some node => throw (.unnamed node.source node.path)
        | none => throw .nodeUnknown

/-- Converts the parts of a node that has just been started, and finishes it. -/
def Write.body (graph : Graph) (indent : Json) (id : NodeId) (node : Node) : Write Unit := do
  let augmentation := Layout.intersected (← Write.groups convert node.augmentations)
  let expression ← Write.expression convert graph indent node augmentation
  Write.finish id node expression augmentation

end

/-- **Conversion** of a node, entering at most `depth` nodes one inside the other. When as many nodes
are being converted as there are, none is left to start. -/
def Graph.convertWithin (graph : Graph) (indent : Json) : (depth : Nat) → NodeId → Write Unit
  | 0, _ => pure ()
  | depth + 1, id => do
    if (← Write.page id).started then return ()
    match graph.node? id with
    | none => throw .nodeUnknown
    | some node =>
      Write.start id node
      Write.body (Graph.convertWithin graph indent depth) graph indent id node

/-- **Conversion** of a node. -/
def Graph.convert (graph : Graph) (indent : Json) (id : NodeId) : Write Unit :=
  graph.convertWithin indent graph.size id

end TypeScribe
