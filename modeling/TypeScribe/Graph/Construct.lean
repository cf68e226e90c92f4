import TypeScribe.Graph.Basic
import TypeScribe.Naming
import TypeScribe.Settings
import TypeScribe.Source

/-!
# Construction

Construction walks a schema and builds its nodes. A step that fails leaves behind what it has built
so far, so the monad keeps the state of a failed step.

* **Registration before building.** A node is entered under its id, and under the location its
  document came from, before its parts are built: a reference back into a schema under construction
  finds it.
* **One node an id.** A fragment whose id is known already is that node, whatever else it says.
* **References.** `Schema.build` is given the way to resolve a reference; `resolve` ties the knot,
  with one unit of budget for each document it loads.
-/

namespace TypeScribe

/-- What construction works on: the source of documents, the graph so far, and the log. -/
structure Workshop (σ : Type) where
  source : σ
  graph : Graph := {}
  log : Array Event := #[]

/-- A step of construction. -/
abbrev Build (σ : Type) := EStateM Failure (Workshop σ)

/-- A resolved reference: as it is written, and the key it leads to. -/
structure Link where
  ref : String
  target : String
  deriving Repr, DecidableEq

namespace Build

variable {σ : Type}

/-- Reports an event. -/
def report (event : Event) : Build σ Unit := modify fun w => { w with log := w.log.push event }

/-- The graph so far. -/
def graph : Build σ Graph := return (← get).graph

/-- Changes the graph. -/
def onGraph (f : Graph → Graph) : Build σ Unit := modify fun w => { w with graph := f w.graph }

/-- The node an id stands for already. -/
def known? (id : Option String) : Build σ (Option NodeId) :=
  return id.bind (← graph).find?

/-- Adds a node and gives its number. -/
def add (node : Node) : Build σ NodeId := do
  let id := (← graph).size
  onGraph (·.push node)
  return id

/-- Enters a node under a key; the empty key is no key. -/
def register (id : NodeId) (path key : String) : Build σ Unit :=
  if key = "" then pure ()
  else do
    onGraph (·.bind key id)
    report (.registered path key)

/-- Enters a node under several keys in turn. -/
def registerAll (id : NodeId) (path : String) : List String → Build σ Unit
  | [] => pure ()
  | key :: rest => do
    register id path key
    registerAll id path rest

/-- Sets the shape of a node. -/
def reshape (id : NodeId) (shape : Shape) : Build σ Unit :=
  onGraph (·.adjust id fun node => { node with shape })

/-- Adds a field to an object node. -/
def addField (id : NodeId) (field : Field) : Build σ Unit :=
  onGraph (·.adjust id fun node =>
    match node.shape with
    | .object fields => { node with shape := .object (fields ++ [field]) }
    | _ => node)

/-- Sets the augmentations of a node. -/
def augment (id : NodeId) (augmentations : List Augmentation) : Build σ Unit :=
  onGraph (·.adjust id fun node => { node with augmentations })

end Build

/-- **Declared or not.** A schema with a usable title is declared. One that has only the name of its
property is declared if it is an object or composed. -/
def Schema.isDeclared (facts : Facts) (body : Body) (groups : List Group) (name : Option String) : Bool :=
  Naming.typeName? facts.title != "" ||
    (Naming.typeName? name != "" && (body.isObject || body.isComposite || !groups.isEmpty))

/-- The node of a fragment before its parts are built. A title comes before an inherited name. -/
def Schema.node (facts : Facts) (body : Body) (groups : List Group) (name : Option String)
    (path : String) : Node where
  source := facts.source
  path := path
  name := Naming.typeName? (facts.title.orElse fun _ => name)
  declared := isDeclared facts body groups name
  shape := .unbuilt body

/-- The failure of a broken object. -/
def Defect.failure : Defect → Failure
  | .requiredCompound => .requiredCompound
  | .propertiesNotObject => .propertiesNotObject

section

variable {σ : Type} (link : String → Build σ Link)

mutual

/-- **Builds a fragment**, found at `path` and, if it is a property or stands inside one, named
`name`. The node is also entered under the given keys. -/
def Schema.build : Schema → (name : Option String) → (path : String) → (keys : List String) →
    Build σ NodeId
  | .unsupported facts, _, path, _ => do
    match ← Build.known? facts.id with
    | some id => return id
    | none => throw (.unsupported facts.source path)
  | .fragment facts body groups, name, path, keys => do
    match ← Build.known? facts.id with
    | some id => return id
    | none =>
      let id ← Build.add (Schema.node facts body groups name path)
      Build.registerAll id path (facts.id.toList ++ keys)
      body.build id facts name path
      Build.augment id (← Group.buildAll groups facts path)
      return id

/-- Builds the parts of a node. Fields are added one by one, other parts once all are built. -/
def Body.build : Body → (id : NodeId) → Facts → (name : Option String) → (path : String) →
    Build σ Unit
  | .scalar _, _, _, _, _ => pure ()
  | .choice alternatives, id, _, _, path => do
    Build.reshape id (.choice (← Schema.buildAll alternatives (path ++ "/type/") 0))
  | .array items, id, _, name, path => do
    Build.reshape id (.array (some (← items.build name (path ++ "/items") [])))
  | .object required properties, id, _, _, path => Body.buildFields required properties id path
  | .broken defect, _, _, _, _ => throw defect.failure
  | .composite, _, _, _, _ => pure ()
  | .reference none, _, facts, _, path => throw (.unsupported facts.source path)
  | .reference (some ref), id, _, _, _ => do
    let resolved ← link ref
    Build.reshape id (.reference resolved.ref resolved.target)

/-- Builds the properties of an object node, each under its own name. -/
def Body.buildFields (required : List String) : List (String × Schema) → (id : NodeId) →
    (path : String) → Build σ Unit
  | [], _, _ => pure ()
  | (name, schema) :: rest, id, path => do
    let type ← schema.build (some name) (path ++ "/properties/" ++ name) []
    Build.addField id ⟨name, type, required.contains name⟩
    Body.buildFields required rest id path

/-- Builds nameless fragments one after the other, counted from `index`. -/
def Schema.buildAll : List Schema → (path : String) → (index : Nat) → Build σ (List NodeId)
  | [], _, _ => pure []
  | schema :: rest, path, index => do
    let id ← schema.build none (path ++ index.repr) []
    return id :: (← Schema.buildAll rest path (index + 1))

/-- Builds the members of all groups. -/
def Group.buildAll : List Group → Facts → (path : String) → Build σ (List Augmentation)
  | [], _, _ => pure []
  | .malformed keyword :: _, facts, path =>
    throw (.unsupported facts.source (path ++ "/" ++ keyword.key))
  | .members keyword schemas :: rest, facts, path => do
    let members ← Schema.buildAll schemas (path ++ "/" ++ keyword.key ++ "/") 0
    return ⟨keyword, members⟩ :: (← Group.buildAll rest facts path)

end

end

section

variable {σ : Type} [Source σ]

/-- The key of a reference: the reference itself if it is known, and its location otherwise. -/
def Build.keyOf (settings : Settings) (ref : String) : Build σ String := do
  if (← Build.graph).knows ref then return ref
  else
    match settings.locate ref with
    | .ok location => return location
    | .error failure => throw failure

/-- Asks the source for a document. -/
def Build.load (location : String) : Build σ (Entries Json) := do
  let w ← get
  let loaded := Source.load w.source location
  set { w with source := loaded.source, log := w.log ++ loaded.events.toArray }
  match loaded.result with
  | .ok fields => return fields
  | .error fault => throw (fault.failure location)

/-- Lets a key stand for a node unless it stands for one already. -/
def Build.bindNew (key : String) (id : NodeId) : Build σ Unit :=
  Build.onGraph fun g => if g.knows key then g else g.bind key id

/-- The link to a known key, whose node has to have a name. -/
def Build.linkTo (ref key : String) : Build σ Link := do
  match (← Build.graph).find? key with
  | none => throw (.keyUnknown key)
  | some id =>
    match (← Build.graph).node? id with
    | none => throw .nodeUnknown
    | some node => if node.name = "" then throw (.unnamed node.source node.path) else return ⟨ref, key⟩

/-- **Resolves a reference**, loading and building its document if its location is not known yet.
Nested loads are bounded by the budget. -/
def Build.resolve (settings : Settings) : (budget : Nat) → (ref : String) → Build σ Link
  | 0, ref => do
    let key ← Build.keyOf settings ref
    if (← Build.graph).knows key then Build.linkTo ref key else throw .endless
  | budget + 1, ref => do
    let key ← Build.keyOf settings ref
    unless (← Build.graph).knows key do
      Build.report (.resolving ref key)
      let fields ← Build.load key
      let id ← (Schema.ofJson (.obj fields)).build (Build.resolve settings budget) none (key ++ "#") [key]
      Build.bindNew key id
    Build.linkTo ref key

/-- **Builds a document** or fragment with as much budget as its source can call for. -/
def Build.root (settings : Settings) (schema : Json) (name : Option String) (path : String)
    (keys : List String) : Build σ NodeId := do
  let budget := Source.budget (← get).source schema
  (Schema.ofJson schema).build (Build.resolve settings budget) name path keys

end

end TypeScribe
