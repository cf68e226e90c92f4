import TypeScribe.Proofs.Resolving

/-!
# A diary of construction

What happens **during** a construction cannot be read off the graph it leaves. A **diary** notes every
fragment that is reached, every change of the graph, and every reference that is resolved, each with the
graph as it is right behind it.

`Schema.trace` is construction with a diary. Clause by clause it takes the steps of `Schema.build`, and
notes. That it comes to the same is part of what is shown about it: `Follows` relates the outcome of a step
to the outcome of the step with a diary, and says in one what holds of the diary.
-/

namespace TypeScribe

/-- What is noted. -/
inductive Deed where
  /-- A fragment is reached. -/
  | reached (fragment : Json)
  /-- A node is added, entered under a key, or given parts. -/
  | changed
  /-- The reference of a node is resolved, and the node given its link. -/
  | linked (id : NodeId) (link : Link)
  deriving Repr

/-- A deed, and the graph right behind it. -/
structure Moment where
  deed : Deed
  graph : Graph
  deriving Repr

/-- A workshop, and all that was noted in it. -/
structure Diary (σ : Type) where
  workshop : Workshop σ
  past : List Moment := []

/-- The graph so far. -/
def Diary.graph {σ : Type} (d : Diary σ) : Graph := d.workshop.graph

/-- A diary with one more deed, and the workshop behind it. -/
def Diary.after {σ : Type} (d : Diary σ) (deed : Deed) (w : Workshop σ) : Diary σ :=
  ⟨w, d.past ++ [⟨deed, w.graph⟩]⟩

/-- A diary in which a fragment is reached and a node is added for it. -/
def Diary.add {σ : Type} (d : Diary σ) (fragment : Json) (node : Node) : Diary σ :=
  (d.after (.reached fragment) d.workshop).after .changed
    { d.workshop with graph := d.graph.push node }

/-- A step with a diary. -/
abbrev Traced (σ : Type) := EStateM Failure (Diary σ)

namespace Traced

variable {σ α : Type}

/-- A step that leaves the graph alone, and is not noted. -/
def step (m : Build σ α) : Traced σ α := fun d =>
  match m d.workshop with
  | .ok a workshop => .ok a { d with workshop }
  | .error failure workshop => .error failure { d with workshop }

/-- Notes a deed. -/
def note (deed : Deed) : Traced σ Unit := modify fun d => d.after deed d.workshop

/-- A step that is noted once it is taken. -/
def noted (deed : Deed) (m : Build σ α) : Traced σ α := do
  let a ← step m
  note deed
  return a

/-- Enters a node under several keys in turn. -/
def registerAll (id : NodeId) (path : String) : List String → Traced σ Unit
  | [] => pure ()
  | key :: rest => do
    noted .changed (Build.register id path key)
    registerAll id path rest

end Traced

section

variable {σ : Type} (link : String → Traced σ Link)

mutual

/-- **Builds a fragment** and keeps the diary. -/
def Schema.trace : Schema → (name : Option String) → (path : String) → (keys : List String) →
    Traced σ NodeId
  | .unsupported facts, _, path, _ => do
    Traced.note (.reached facts.source)
    match ← Traced.step (Build.known? facts.id) with
    | some id => return id
    | none => throw (.unsupported facts.source path)
  | .fragment facts body groups, name, path, keys => do
    Traced.note (.reached facts.source)
    match ← Traced.step (Build.known? facts.id) with
    | some id => return id
    | none =>
      let id ← Traced.noted .changed (Build.add (Schema.node facts body groups name path))
      Traced.registerAll id path (facts.id.toList ++ keys)
      body.trace id facts name path
      Traced.noted .changed (Build.augment id (← Group.traceAll groups facts path))
      return id

/-- Builds the parts of a node. -/
def Body.trace : Body → (id : NodeId) → Facts → (name : Option String) → (path : String) →
    Traced σ Unit
  | .scalar _, _, _, _, _ => pure ()
  | .choice alternatives, id, _, _, path => do
    Traced.noted .changed
      (Build.reshape id (.choice (← Schema.traceAll alternatives (path ++ "/type/") 0)))
  | .array items, id, _, name, path => do
    Traced.noted .changed
      (Build.reshape id (.array (some (← items.trace name (path ++ "/items") []))))
  | .object required properties, id, _, _, path => Body.traceFields required properties id path
  | .broken defect, _, _, _, _ => throw defect.failure
  | .composite, _, _, _, _ => pure ()
  | .reference none, _, facts, _, path => throw (.unsupported facts.source path)
  | .reference (some ref), id, _, _, _ => do
    let resolved ← link ref
    Traced.noted (.linked id resolved) (Build.reshape id (.reference resolved.ref resolved.target))

/-- Builds the properties of an object node. -/
def Body.traceFields (required : List String) : List (String × Schema) → (id : NodeId) →
    (path : String) → Traced σ Unit
  | [], _, _ => pure ()
  | (name, schema) :: rest, id, path => do
    let type ← schema.trace (some name) (path ++ "/properties/" ++ name) []
    Traced.noted .changed (Build.addField id ⟨name, type, required.contains name⟩)
    Body.traceFields required rest id path

/-- Builds nameless fragments one after the other. -/
def Schema.traceAll : List Schema → (path : String) → (index : Nat) → Traced σ (List NodeId)
  | [], _, _ => pure []
  | schema :: rest, path, index => do
    let id ← schema.trace none (path ++ index.repr) []
    return id :: (← Schema.traceAll rest path (index + 1))

/-- Builds the members of all groups. -/
def Group.traceAll : List Group → Facts → (path : String) → Traced σ (List Augmentation)
  | [], _, _ => pure []
  | .malformed keyword :: _, facts, path =>
    throw (.unsupported facts.source (path ++ "/" ++ keyword.key))
  | .members keyword schemas :: rest, facts, path => do
    let members ← Schema.traceAll schemas (path ++ "/" ++ keyword.key ++ "/") 0
    return ⟨keyword, members⟩ :: (← Group.traceAll rest facts path)

end

end

namespace Build

variable {σ : Type} [Source σ]

/-- **Resolves a reference** and keeps the diary. -/
def trace (settings : Settings) : (budget : Nat) → (ref : String) → Traced σ Link
  | 0, ref => Traced.step (resolve settings 0 ref)
  | budget + 1, ref => do
    let key ← Traced.step (keyOf settings ref)
    if (← Traced.step graph).knows key then Traced.step (linkTo ref key)
    else
      let fields ← Traced.step (do report (.resolving ref key); load key)
      let id ← (Schema.ofJson (.obj fields)).trace (trace settings budget) none (key ++ "#") [key]
      Traced.noted .changed (bindNew key id)
      Traced.step (linkTo ref key)

/-- **Builds a document** and keeps the diary. -/
def traceRoot (settings : Settings) (schema : Json) : Traced σ NodeId := do
  let budget := Source.budget (← get).workshop.source schema
  (Schema.ofJson schema).trace (trace settings budget) none "#" []

/-- Builds roots in turn, each of which has to have a name. -/
def traceRoots (settings : Settings) : List Json → Traced σ (List NodeId)
  | [] => pure []
  | schema :: rest => do
    let id ← traceRoot settings schema
    match (← Traced.step graph).node? id with
    | none => throw .nodeUnknown
    | some node =>
      if node.name = "" then throw (.unnamed schema node.path)
      else
        let more ← traceRoots settings rest
        return id :: more

end Build

/-! ## Steps with a diary and without -/

namespace Traced

variable {σ α : Type} {d : Diary σ} {m : Build σ α} {w : Workshop σ}

theorem step_ok {a : α} (h : m d.workshop = .ok a w) : step m d = .ok a { d with workshop := w } := by
  rw [step, h]

theorem step_error {failure : Failure} (h : m d.workshop = .error failure w) :
    step m d = .error failure { d with workshop := w } := by
  rw [step, h]

/-- A fragment is reached, and its id looked up. -/
theorem reached_apply (fragment : Json) (id : Option String) (k : Option NodeId → Traced σ α) :
    (note (.reached fragment) >>= fun _ => step (Build.known? id) >>= k) d =
      k (id.bind d.graph.find?) (d.after (.reached fragment) d.workshop) := rfl

end Traced

/-- **A step with a diary follows a step**: it has the same outcome in the same workshop, and something
holds of the diary. -/
inductive Follows {σ α : Type} (good : α → Diary σ → Prop) (bad : Failure → Diary σ → Prop) :
    EStateM.Result Failure (Workshop σ) α → EStateM.Result Failure (Diary σ) α → Prop where
  | ok {a : α} {d : Diary σ} (holds : good a d) : Follows good bad (.ok a d.workshop) (.ok a d)
  | error {failure : Failure} {d : Diary σ} (holds : bad failure d) :
      Follows good bad (.error failure d.workshop) (.error failure d)

namespace Follows

variable {σ α β : Type} {good : α → Diary σ → Prop} {bad : Failure → Diary σ → Prop} {d : Diary σ}

/-- Steps that follow their traces one after the other follow them as a whole. -/
theorem bind {m : Build σ α} {t : Traced σ α} {k : α → Build σ β} {l : α → Traced σ β}
    {good' : β → Diary σ → Prop} (h : Follows good bad (m d.workshop) (t d))
    (hrest : ∀ a d', good a d' → Follows good' bad (k a d'.workshop) (l a d')) :
    Follows good' bad ((m >>= k) d.workshop) ((t >>= l) d) := by
  rw [bind_apply, bind_apply]
  generalize m d.workshop = r at h
  generalize t d = q at h
  cases h with
  | ok holds => exact hrest _ _ holds
  | error holds => exact .error holds

theorem imp {good' : α → Diary σ → Prop} {r : EStateM.Result Failure (Workshop σ) α}
    {q : EStateM.Result Failure (Diary σ) α} (h : Follows good bad r q)
    (himp : ∀ a d', good a d' → good' a d') : Follows good' bad r q := by
  cases h with
  | ok holds => exact .ok (himp _ _ holds)
  | error holds => exact .error holds

/-- A step that succeeds, and is noted. -/
theorem noted {m : Build σ α} {a : α} {w : Workshop σ} {deed : Deed} (hm : m d.workshop = .ok a w)
    (h : good a (d.after deed w)) : Follows good bad (m d.workshop) (Traced.noted deed m d) := by
  rw [hm, Traced.noted, bind_ok _ (Traced.step_ok hm)]
  exact .ok h

end Follows

section

variable {σ : Type} {link : String → Traced σ Link} {name : Option String} {path : String}
  {keys : List String} {d : Diary σ} {id : NodeId}

/-- A fragment whose id is known is the node it stands for. -/
theorem Schema.trace_known (s : Schema) (hs : s.facts.id.bind d.graph.find? = some id) :
    s.trace link name path keys d = .ok id (d.after (.reached s.facts.source) d.workshop) := by
  cases s with
  | unsupported facts =>
    rw [Schema.trace, Traced.reached_apply, show facts.id.bind d.graph.find? = some id from hs]
    rfl
  | fragment facts body groups =>
    rw [Schema.trace, Traced.reached_apply, show facts.id.bind d.graph.find? = some id from hs]
    rfl

variable {facts : Facts} {body : Body} {groups : List Group}

/-- A fragment of no kind whose id is not known cannot be built. -/
theorem Schema.trace_unsupported (hs : facts.id.bind d.graph.find? = none) :
    (Schema.unsupported facts).trace link name path keys d =
      .error (.unsupported facts.source path) (d.after (.reached facts.source) d.workshop) := by
  rw [Schema.trace, Traced.reached_apply, hs]
  rfl

/-- The parts and the members of a node that has been entered. -/
def Schema.traceFill (link : String → Traced σ Link) (facts : Facts) (body : Body)
    (groups : List Group) (name : Option String) (path : String) (id : NodeId) : Traced σ NodeId := do
  body.trace link id facts name path
  Traced.noted .changed (Build.augment id (← Group.traceAll link groups facts path))
  return id

/-- Any other fragment gets a node, which is entered under its keys, and then its parts are built. -/
theorem Schema.trace_new (hs : facts.id.bind d.graph.find? = none) :
    (Schema.fragment facts body groups).trace link name path keys d =
      (Traced.registerAll d.graph.size path (facts.id.toList ++ keys) >>= fun _ =>
        Schema.traceFill link facts body groups name path d.graph.size)
        (d.add facts.source (Schema.node facts body groups name path)) := by
  rw [Schema.trace, Traced.reached_apply, hs]
  rfl

/-- The same without a diary. -/
theorem Schema.build_added {link : String → Build σ Link} {w : Workshop σ}
    (hs : facts.id.bind w.graph.find? = none) :
    (Schema.fragment facts body groups).build link name path keys w =
      (Build.registerAll w.graph.size path (facts.id.toList ++ keys) >>= fun _ =>
        Schema.fill link facts body groups name path w.graph.size)
        { w with graph := w.graph.push (Schema.node facts body groups name path) } := by
  rw [Schema.build, bind_ok _ (Build.known_apply ..), hs]
  rfl

end

namespace Build

variable {σ : Type} [Source σ] {settings : Settings} {ref key : String} {failure : Failure} {d : Diary σ}

/-- What follows on the load of a document, with a diary. -/
def traceDocument (settings : Settings) (budget : Nat) (ref key : String) (fields : Entries Json) :
    Traced σ Link := do
  let id ← (Schema.ofJson (.obj fields)).trace (trace settings budget) none (key ++ "#") [key]
  Traced.noted .changed (bindNew key id)
  Traced.step (linkTo ref key)

/-- A reference without a key fails with nothing written in the diary. -/
theorem trace_failed (budget : Nat) (h : d.graph.keyOf settings ref = .error failure) :
    trace settings budget ref d = .error failure d := by
  cases budget with
  | zero => exact Traced.step_error (resolve_failed 0 h)
  | succ budget =>
    have hkey : keyOf settings ref d.workshop = .error failure d.workshop := by
      rw [keyOf_apply, show d.workshop.graph.keyOf settings ref = .error failure from h]
    exact bind_error _ (Traced.step_error hkey)

/-- A reference whose key is known is linked, and nothing is asked for. -/
theorem trace_known (budget : Nat) (h : d.graph.keyOf settings ref = .ok key)
    (hknown : d.graph.knows key = true) :
    trace settings budget ref d = Traced.step (linkTo ref key) d := by
  cases budget with
  | zero => rw [trace, Traced.step, Traced.step, resolve_known 0 h hknown]
  | succ budget =>
    have hkey : keyOf settings ref d.workshop = .ok key d.workshop := by
      rw [keyOf_apply, show d.workshop.graph.keyOf settings ref = .ok key from h]
    rw [trace, bind_ok _ (Traced.step_ok hkey), bind_ok _ (Traced.step_ok (graph_apply _))]
    simp only [show d.workshop.graph.knows key = true from hknown, if_true]

theorem trace_endless (h : d.graph.keyOf settings ref = .ok key) (hnew : d.graph.knows key = false) :
    trace settings 0 ref d = .error .endless d :=
  Traced.step_error (resolve_endless h hnew)

/-- Asking the source for a key that is not known. -/
theorem trace_new (budget : Nat) (h : d.graph.keyOf settings ref = .ok key)
    (hnew : d.graph.knows key = false) :
    trace settings (budget + 1) ref d =
      match (Source.load d.workshop.source key).result with
      | .error fault => .error (fault.failure key) { d with workshop := d.workshop.asking ref key }
      | .ok fields =>
        traceDocument settings budget ref key fields { d with workshop := d.workshop.asking ref key } := by
  have hkey : keyOf settings ref d.workshop = .ok key d.workshop := by
    rw [keyOf_apply, show d.workshop.graph.keyOf settings ref = .ok key from h]
  rw [trace, bind_ok _ (Traced.step_ok hkey), bind_ok _ (Traced.step_ok (graph_apply _))]
  simp only [show d.workshop.graph.knows key = false from hnew, Bool.false_eq_true, if_false]
  have hasked := load_reported ref key d.workshop
  cases hload : (Source.load d.workshop.source key).result with
  | error fault =>
    rw [hload] at hasked
    exact bind_error _ (Traced.step_error hasked)
  | ok fields =>
    rw [hload] at hasked
    exact bind_ok _ (Traced.step_ok hasked)

/-- Building roots in turn, told from the first. -/
theorem traceRoots_apply (settings : Settings) (schema : Json) (rest : List Json) (d : Diary σ) :
    traceRoots settings (schema :: rest) d =
      match traceRoot settings schema d with
      | .error failure d' => .error failure d'
      | .ok id d' =>
        match d'.graph.node? id with
        | none => .error .nodeUnknown d'
        | some node =>
          if node.name = "" then .error (.unnamed schema node.path) d'
          else (traceRoots settings rest >>= fun more => pure (id :: more) : Traced σ (List NodeId)) d' := by
  rw [traceRoots]
  cases hroot : traceRoot settings schema d with
  | error failure d' => exact bind_error _ hroot
  | ok id d' =>
    rw [bind_ok _ hroot, bind_ok _ (Traced.step_ok (graph_apply _))]
    cases hnode : d'.workshop.graph.node? id with
    | none =>
      simp only [Diary.graph, hnode]
      rfl
    | some node =>
      by_cases hname : node.name = ""
      · simp only [Diary.graph, hnode, hname, if_true]
        rfl
      · simp only [Diary.graph, hnode, hname, if_false]

end Build

end TypeScribe
