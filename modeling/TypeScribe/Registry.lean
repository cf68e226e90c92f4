import TypeScribe.Graph.Construct
import TypeScribe.Graph.Convert

/-!
# The registry

A registry takes root schemas, builds their graph, converts it and renders the declarations. Its
steps may be taken one by one and in any order, and a step that fails leaves the registry as it was
when the failure arose. `compile` is the usual course: queue all roots, then build all of them,
convert them in turn, and render.
-/

namespace TypeScribe

/-- Everything a compilation works on. -/
structure Registry (σ : Type) where
  settings : Settings
  commandLine : String
  pending : List Json := []
  workshop : Workshop σ
  draft : Draft := {}

/-- A step on a registry. -/
abbrev Session (σ : Type) := EStateM Failure (Registry σ)

namespace Registry

variable {σ : Type}

/-- A registry to which nothing has happened yet. -/
def new (settings : Settings) (source : σ) (commandLine : String) : Registry σ where
  settings := settings
  commandLine := commandLine
  workshop := { source }

/-- The graph built so far. -/
def graph (r : Registry σ) : Graph := r.workshop.graph

/-- Adds events to the log. -/
def report (r : Registry σ) (events : List Event) : Registry σ :=
  { r with workshop := { r.workshop with log := r.workshop.log ++ events.toArray } }

/-- A step of construction as a step on the registry. -/
def building {α : Type} (step : Build σ α) : Session σ α := fun r =>
  match step r.workshop with
  | .ok a workshop => .ok a { r with workshop }
  | .error failure workshop => .error failure { r with workshop }

/-- The event of a node that is declared. -/
def declaring (graph : Graph) (id : NodeId) : Option Event :=
  (graph.node? id).map fun node => .declaring node.name node.path

/-- The event of a node that is dropped. -/
def dropping (graph : Graph) (id : NodeId) : Option Event :=
  (graph.node? id).map fun node => .dropping node.name node.path

/-- The draft after a step of conversion; what was newly declared is reported. -/
def withDraft (r : Registry σ) (draft : Draft) : Registry σ :=
  let fresh := draft.emission.toList.drop r.draft.emission.size
  { r.report (fresh.filterMap (declaring r.graph)) with draft }

/-- A step of conversion as a step on the registry. -/
def writing {α : Type} (step : Graph → Write α) : Session σ α := fun r =>
  match step r.graph r.draft with
  | .ok a draft => .ok a (r.withDraft draft)
  | .error failure draft => .error failure (r.withDraft draft)

/-- A root under a title of its own, unless that is vacant. -/
def titled (schema title : Json) : Except Failure Json :=
  if title.isVacant then .ok schema
  else
    match schema with
    | .obj fields => .ok (.obj (Table.insert fields "title" title))
    | _ => .error .rootNotObject

/-- **Queues a root**, under a title of its own unless that is vacant. -/
def add (schema title : Json) : Session σ Unit := do
  match titled schema title with
  | .error failure => throw failure
  | .ok schema =>
    modify fun r =>
      let pending := r.pending ++ [schema]
      { r with pending }.report [.queued pending.length]

/-- **Converts** a node. -/
def convert (id : NodeId) : Session σ Unit := do
  let indent := (← get).settings.indent
  writing fun graph => graph.convert indent id

/-- Converts nodes in turn. -/
def convertAll : List NodeId → Session σ Unit
  | [] => pure ()
  | id :: rest => do
    convert id
    convertAll rest

/-- Converts the node a key stands for. -/
def convertKey (key : String) : Session σ Unit := do
  match (← get).graph.find? key with
  | some id => convert id
  | none => throw (.keyUnknown key)

/-- **Renders** what has been converted. -/
def render : Session σ String := do
  modify fun r => r.report ((r.draft.dropped r.graph).filterMap (dropping r.graph))
  let r ← get
  match r.draft.render r.graph r.settings r.commandLine with
  | .ok text => return text
  | .error failure => throw failure

variable [Source σ]

/-- **Builds** a fragment. -/
def build (schema : Json) (name : Option String) (path : String) (keys : List String) :
    Session σ NodeId := do
  let settings := (← get).settings
  building (Build.root settings schema name path keys)

/-- Builds the given roots, each of which leaves the queue before it is built and has to have a
name. -/
def buildRoots : List Json → Session σ (List NodeId)
  | [] => pure []
  | schema :: rest => do
    modify fun r => { r with pending := rest }
    let id ← build schema none "#" []
    match (← get).graph.node? id with
    | none => throw .nodeUnknown
    | some node =>
      if node.name = "" then throw (.unnamed schema node.path)
      else
        let more ← buildRoots rest
        return id :: more

/-- **Compiles the queue**: builds all roots, converts them in turn, and renders. -/
def parse : Session σ String := do
  let roots ← buildRoots (← get).pending
  convertAll roots
  render

/-- Queues roots in turn. -/
def addAll : List Json → Session σ Unit
  | [] => pure ()
  | schema :: rest => do
    add schema .null
    addAll rest

/-- **Compiles roots** from the start. -/
def compileAll (roots : List Json) : Session σ String := do
  addAll roots
  parse

end Registry

/-- **Compilation** of roots with the documents of a source: the declarations, or the first failure. -/
def compile {σ : Type} [Source σ] (settings : Settings) (source : σ) (commandLine : String)
    (roots : List Json) : Except Failure String :=
  match Registry.compileAll roots (Registry.new settings source commandLine) with
  | .ok text _ => .ok text
  | .error failure _ => .error failure

end TypeScribe
