import TypeScribe.Proofs.Construction

/-!
# Constructions side by side

Two constructions of the same schema, from different sources or with different ways to resolve
references, do the same as long as their references do. What the same means is left open: a **bond** is
a relation between the states of the two that every step of construction keeps, except for resolving a
reference, of which it has to be shown (`Bond.Links`). Then building any schema keeps it
(`Schema.build_together`).

A construction may be held against itself. A bond is then an invariant.
-/

namespace TypeScribe

/-! ## Outcomes -/

/-- Two outcomes **go together**: the same value, or the same failure, in states that are related. -/
inductive Together {ε α S T : Type} (good : S → T → Prop) (bad : ε → S → T → Prop) :
    EStateM.Result ε S α → EStateM.Result ε T α → Prop where
  | ok {a : α} {s : S} {t : T} (states : good s t) : Together good bad (.ok a s) (.ok a t)
  | error {e : ε} {s : S} {t : T} (states : bad e s t) : Together good bad (.error e s) (.error e t)

/-- An outcome with another state. -/
def mapState {ε α S T : Type} (f : S → T) : EStateM.Result ε S α → EStateM.Result ε T α
  | .ok a s => .ok a (f s)
  | .error e s => .error e (f s)

namespace Together

variable {ε α β S T : Type} {good good' : S → T → Prop} {bad : ε → S → T → Prop}

/-- Steps that go together one after the other go together as a whole. -/
theorem bind {m : EStateM ε S α} {n : EStateM ε T α} {k : α → EStateM ε S β} {l : α → EStateM ε T β}
    {s : S} {t : T} (h : Together good bad (m s) (n t))
    (hrest : ∀ a s t, good s t → Together good' bad (k a s) (l a t)) :
    Together good' bad ((m >>= k) s) ((n >>= l) t) := by
  rw [bind_apply, bind_apply]
  cases hm : m s with
  | ok a s' =>
    rw [hm] at h
    cases hn : n t with
    | ok b t' =>
      rw [hn] at h
      cases h with
      | ok states => exact hrest a s' t' states
    | error e t' =>
      rw [hn] at h
      cases h
  | error e s' =>
    rw [hm] at h
    cases hn : n t with
    | ok b t' =>
      rw [hn] at h
      cases h
    | error e' t' =>
      rw [hn] at h
      cases h with
      | error states => exact .error states

theorem imp {bad' : ε → S → T → Prop} {r : EStateM.Result ε S α} {q : EStateM.Result ε T α}
    (h : Together good bad r q) (hgood : ∀ s t, good s t → good' s t)
    (hbad : ∀ e s t, bad e s t → bad' e s t) : Together good' bad' r q := by
  cases h with
  | ok states => exact .ok (hgood _ _ states)
  | error states => exact .error (hbad _ _ _ states)

theorem mono {r : EStateM.Result ε S α} {q : EStateM.Result ε T α}
    (himp : ∀ s t, good s t → good' s t) (h : Together good bad r q) : Together good' bad r q :=
  h.imp himp fun _ _ _ states => states

/-- If one state is a function of the other, so is the outcome. -/
theorem eq_mapState (f : S → T) {r : EStateM.Result ε S α} {q : EStateM.Result ε T α}
    (h : Together good bad r q) (hgood : ∀ s t, good s t → t = f s)
    (hbad : ∀ e s t, bad e s t → t = f s) : q = mapState f r := by
  cases h with
  | ok states => rw [hgood _ _ states, mapState]
  | error states => rw [hbad _ _ _ states, mapState]

end Together

/-! ## Steps of construction -/

/-- What a node says about itself, which construction never changes. -/
structure Label where
  source : Json
  path : String
  name : String
  declared : Bool

/-- The label of a node. -/
def Node.label (node : Node) : Label := ⟨node.source, node.path, node.name, node.declared⟩

namespace Graph

/-- Lets keys stand for a node; the empty key is no key. -/
def bindAll (g : Graph) (id : NodeId) : List String → Graph
  | [] => g
  | key :: rest => (if key = "" then g else g.bind key id).bindAll id rest

@[simp]
theorem nodes_bindAll (id : NodeId) (keys : List String) :
    ∀ g : Graph, (g.bindAll id keys).nodes = g.nodes := by
  induction keys with
  | nil => exact fun _ => rfl
  | cons key rest ih =>
    intro g
    rw [bindAll, ih]
    split <;> rfl

theorem knows_bind (g : Graph) (key : String) (id : NodeId) (k : String) :
    (g.bind key id).knows k = true ↔ k = key ∨ g.knows k = true := by
  rw [knows, knows, find_bind]
  split <;> simp_all

/-- The keys known after some are bound are the old ones and those that are not empty. -/
theorem knows_bindAll (id : NodeId) (k : String) (keys : List String) : ∀ g : Graph,
    (g.bindAll id keys).knows k = true ↔ (k ≠ "" ∧ k ∈ keys) ∨ g.knows k = true := by
  induction keys with
  | nil => simp [bindAll]
  | cons key rest ih =>
    intro g
    rw [bindAll, ih]
    by_cases hkey : key = ""
    · rw [if_pos hkey]
      subst hkey
      constructor
      · rintro (⟨hne, hk⟩ | hk)
        · exact Or.inl ⟨hne, List.mem_cons_of_mem _ hk⟩
        · exact Or.inr hk
      · rintro (⟨hne, hk⟩ | hk)
        · exact Or.inl ⟨hne, (List.mem_cons.mp hk).resolve_left hne⟩
        · exact Or.inr hk
    · rw [if_neg hkey, knows_bind]
      constructor
      · rintro (⟨hne, hk⟩ | rfl | hk)
        · exact Or.inl ⟨hne, List.mem_cons_of_mem _ hk⟩
        · exact Or.inl ⟨hkey, List.mem_cons_self ..⟩
        · exact Or.inr hk
      · rintro (⟨hne, hk⟩ | hk)
        · rcases List.mem_cons.mp hk with rfl | hk
          · exact Or.inr (Or.inl rfl)
          · exact Or.inl ⟨hne, hk⟩
        · exact Or.inr (Or.inr hk)

end Graph

/-- The events of entering a node under keys. -/
def registrations (path : String) (keys : List String) : List Event :=
  (keys.filter (· ≠ "")).map (Event.registered path)

/-- What a schema says about itself. -/
def Schema.facts : Schema → Facts
  | .unsupported facts => facts
  | .fragment facts _ _ => facts

namespace Workshop

variable {σ : Type}

/-- A workshop with another graph, and more in its log. -/
def update (w : Workshop σ) (graph : Graph) (events : List Event) : Workshop σ :=
  { w with graph, log := w.log ++ events.toArray }

/-- A workshop with a new node, entered under keys. -/
def enter (w : Workshop σ) (node : Node) (path : String) (keys : List String) : Workshop σ :=
  w.update ((w.graph.push node).bindAll w.graph.size keys) (registrations path keys)

/-- A workshop with one node changed. -/
def adjust (w : Workshop σ) (id : NodeId) (f : Node → Node) : Workshop σ :=
  w.update (w.graph.adjust id f) []

end Workshop

namespace Build

variable {σ : Type}

theorem onGraph_apply (f : Graph → Graph) (w : Workshop σ) :
    onGraph f w = .ok () (w.update (f w.graph) []) := by
  rw [Workshop.update, Array.append_empty]
  rfl

theorem registerAll_apply (id : NodeId) (path : String) (keys : List String) : ∀ w : Workshop σ,
    registerAll id path keys w =
      .ok () (w.update (w.graph.bindAll id keys) (registrations path keys)) := by
  induction keys with
  | nil =>
    intro w
    simp [registerAll, registrations, Workshop.update, Graph.bindAll]
    rfl
  | cons key rest ih =>
    intro w
    by_cases hkey : key = ""
    · subst hkey
      exact ih w
    · have hone : register id path key w =
          .ok () { w with graph := w.graph.bind key id, log := w.log.push (.registered path key) } := by
        rw [register, if_neg hkey]
        rfl
      rw [registerAll, bind_ok _ hone, ih]
      simp [Workshop.update, Graph.bindAll, registrations, hkey]

theorem known_apply (id : Option String) (w : Workshop σ) :
    known? id w = .ok (id.bind w.graph.find?) w := rfl

theorem add_apply (node : Node) (w : Workshop σ) :
    add node w = .ok w.graph.size { w with graph := w.graph.push node } := rfl

end Build

section

variable {σ : Type} {link : String → Build σ Link} {facts : Facts} {name : Option String}
  {path : String} {keys : List String} {w : Workshop σ} {id : NodeId}

/-- A fragment whose id is known is the node it stands for. -/
theorem Schema.build_known (s : Schema) (hs : s.facts.id.bind w.graph.find? = some id) :
    s.build link name path keys w = .ok id w := by
  cases s with
  | unsupported facts =>
    rw [Schema.build, bind_ok _ (Build.known_apply ..), show facts.id.bind w.graph.find? = some id from hs]
    rfl
  | fragment facts body groups =>
    rw [Schema.build, bind_ok _ (Build.known_apply ..), show facts.id.bind w.graph.find? = some id from hs]
    rfl

/-- A fragment of no kind whose id is not known cannot be built. -/
theorem Schema.build_unsupported (hs : facts.id.bind w.graph.find? = none) :
    (Schema.unsupported facts).build link name path keys w =
      .error (.unsupported facts.source path) w := by
  rw [Schema.build, bind_ok _ (Build.known_apply ..), hs]
  rfl

/-- The parts and the members of a node that has been entered. -/
def Schema.fill (link : String → Build σ Link) (facts : Facts) (body : Body) (groups : List Group)
    (name : Option String) (path : String) (id : NodeId) : Build σ NodeId := do
  body.build link id facts name path
  Build.augment id (← Group.buildAll link groups facts path)
  return id

/-- Any other fragment gets a node, which is entered under its keys, and then its parts are built. -/
theorem Schema.build_new {body : Body} {groups : List Group}
    (hs : facts.id.bind w.graph.find? = none) :
    (Schema.fragment facts body groups).build link name path keys w =
      Schema.fill link facts body groups name path w.graph.size
        (w.enter (Schema.node facts body groups name path) path (facts.id.toList ++ keys)) := by
  rw [Schema.build, bind_ok _ (Build.known_apply ..), hs]
  change (Build.add _ >>= _) w = _
  rw [bind_ok _ (Build.add_apply _ w), bind_ok _ (Build.registerAll_apply ..)]
  rfl

end

/-! ## Bonds -/

/-- **A bond** between two constructions: a relation between their states that adding nodes, entering
them under keys and changing their parts all keep. It may depend on the keys that the next node has to be
entered under, and is then weaker as long as they are not. -/
structure Bond (σ τ : Type) where
  holds : List String → Workshop σ → Workshop τ → Prop
  failed : Failure → Workshop σ → Workshop τ → Prop
  graph : ∀ {keys : List String} {w : Workshop σ} {v : Workshop τ}, holds keys w v → w.graph = v.graph
  weaken : ∀ {keys : List String} {w w' : Workshop σ} {v v' : Workshop τ}, holds keys w v →
    holds [] w' v' → holds keys w' v'
  enter : ∀ {keys : List String} {w : Workshop σ} {v : Workshop τ} (facts : Facts) (body : Body)
    (groups : List Group) (name : Option String) (path : String),
    Schema.Assembled facts body groups → holds keys w v →
    holds [] (w.enter (Schema.node facts body groups name path) path (facts.id.toList ++ keys))
      (v.enter (Schema.node facts body groups name path) path (facts.id.toList ++ keys))
  adjust : ∀ {w : Workshop σ} {v : Workshop τ} (id : NodeId) {f : Node → Node},
    (∀ node, (f node).label = node.label) → holds [] w v → holds [] (w.adjust id f) (v.adjust id f)
  fail : ∀ {keys : List String} {w : Workshop σ} {v : Workshop τ} {failure : Failure},
    failure ≠ .endless → holds keys w v → failed failure w v

namespace Bond

variable {σ τ : Type} (B : Bond σ τ)

/-- **What is asked of resolving references** of a kind: it keeps the bond. -/
def Links (refers : String → Prop) (link : String → Build σ Link) (link' : String → Build τ Link) :
    Prop :=
  ∀ ref, refers ref → ∀ {w : Workshop σ} {v : Workshop τ}, B.holds [] w v →
    Together (B.holds []) B.failed (link ref w) (link' ref v)

variable {B} {w : Workshop σ} {v : Workshop τ}

/-- A change of parts keeps the bond. -/
theorem onGraph_adjust {id : NodeId} {f : Node → Node} (hf : ∀ node, (f node).label = node.label)
    (h : B.holds [] w v) :
    Together (B.holds []) B.failed (Build.onGraph (·.adjust id f) w) (Build.onGraph (·.adjust id f) v) := by
  rw [Build.onGraph_apply, Build.onGraph_apply]
  exact .ok (B.adjust id hf h)

theorem reshape (id : NodeId) (shape : Shape) (h : B.holds [] w v) :
    Together (B.holds []) B.failed (Build.reshape id shape w) (Build.reshape id shape v) :=
  onGraph_adjust (fun _ => rfl) h

theorem addField (id : NodeId) (field : Field) (h : B.holds [] w v) :
    Together (B.holds []) B.failed (Build.addField id field w) (Build.addField id field v) := by
  refine onGraph_adjust (fun node => ?_) h
  split <;> rfl

theorem augment (id : NodeId) (augmentations : List Augmentation) (h : B.holds [] w v) :
    Together (B.holds []) B.failed (Build.augment id augmentations w)
      (Build.augment id augmentations v) :=
  onGraph_adjust (fun _ => rfl) h

/-- A failure of construction itself keeps what the bond says of failures. -/
theorem throw {α : Type} {failure : Failure} (hne : failure ≠ .endless) {keys : List String}
    (h : B.holds keys w v) :
    Together (B.holds keys) B.failed ((throw failure : Build σ α) w) ((throw failure : Build τ α) v) :=
  .error (B.fail hne h)

end Bond

section

variable {σ τ : Type} {B : Bond σ τ} {refers : String → Prop} {link : String → Build σ Link}
  {link' : String → Build τ Link}

/-- Filling a node keeps a bond if building its parts and its members does. -/
theorem Schema.fill_together {facts : Facts} {body : Body} {groups : List Group}
    {name : Option String} {path : String} {id : NodeId}
    (hbody : ∀ {w : Workshop σ} {v : Workshop τ}, B.holds [] w v → Together (B.holds []) B.failed
      (body.build link id facts name path w) (body.build link' id facts name path v))
    (hgroups : ∀ {w : Workshop σ} {v : Workshop τ}, B.holds [] w v → Together (B.holds []) B.failed
      (Group.buildAll link groups facts path w) (Group.buildAll link' groups facts path v))
    {w : Workshop σ} {v : Workshop τ} (h : B.holds [] w v) :
    Together (B.holds []) B.failed (Schema.fill link facts body groups name path id w)
      (Schema.fill link' facts body groups name path id v) := by
  refine Together.bind (hbody h) ?_
  intro _ w₁ v₁ h₁
  refine Together.bind (hgroups h₁) ?_
  intro augmentations w₂ v₂ h₂
  refine Together.bind (Bond.augment id augmentations h₂) ?_
  exact fun _ w₃ v₃ h₃ => .ok h₃

mutual

/-- **Building a schema keeps a bond** if resolving its references does. -/
theorem Schema.build_together (hlink : B.Links refers link link') (s : Schema)
    (hs : s.Refers refers) (name : Option String) (path : String) {keys : List String}
    {w : Workshop σ} {v : Workshop τ} (h : B.holds keys w v) :
    Together (B.holds keys) B.failed (s.build link name path keys w)
      (s.build link' name path keys v) := by
  have hgraph := B.graph h
  match s with
  | .unsupported facts =>
    cases hknown : facts.id.bind w.graph.find? with
    | some id =>
      rw [Schema.build_known (.unsupported facts) hknown,
        Schema.build_known (.unsupported facts) (hgraph ▸ hknown)]
      exact .ok h
    | none =>
      rw [Schema.build_unsupported hknown, Schema.build_unsupported (hgraph ▸ hknown)]
      exact .error (B.fail (by simp) h)
  | .fragment facts body groups =>
    have .fragment ⟨hassembled, hown⟩ hparts hmembers := hs
    cases hknown : facts.id.bind w.graph.find? with
    | some id =>
      rw [Schema.build_known (.fragment facts body groups) hknown,
        Schema.build_known (.fragment facts body groups) (hgraph ▸ hknown)]
      exact .ok h
    | none =>
      rw [Schema.build_new hknown, Schema.build_new (hgraph ▸ hknown), ← hgraph]
      refine Together.mono (fun _ _ => B.weaken h) (Schema.fill_together ?_ ?_
        (B.enter facts body groups name path hassembled h))
      · exact fun h => Body.build_together hlink body hown hparts _ facts name path h
      · exact fun h => Group.buildAll_together hlink groups hmembers facts path h

/-- A body goes together with itself, as far as its references and its parts do. -/
theorem Body.build_together (hlink : B.Links refers link link') (body : Body)
    (hown : ∀ ref, body = .reference (some ref) → refers ref)
    (hparts : ∀ s ∈ body.parts, s.Refers refers) (id : NodeId) (facts : Facts)
    (name : Option String) (path : String) {w : Workshop σ} {v : Workshop τ} (h : B.holds [] w v) :
    Together (B.holds []) B.failed (body.build link id facts name path w)
      (body.build link' id facts name path v) := by
  match body with
  | .scalar s => exact .ok h
  | .composite => exact .ok h
  | .choice alternatives =>
    refine Together.bind (Schema.buildAll_together hlink alternatives hparts _ _ h) ?_
    exact fun ids w v h => Bond.reshape id _ h
  | .array items =>
    have hitems := hparts items (List.mem_singleton_self items)
    refine Together.bind (Schema.build_together hlink items hitems name _ h) ?_
    exact fun item w v h => Bond.reshape id _ h
  | .object required properties =>
    refine Body.buildFields_together hlink properties ?_ required id path h
    exact fun p hp => hparts p.2 (List.mem_map.mpr ⟨p, hp, rfl⟩)
  | .broken defect =>
    refine Bond.throw ?_ h
    cases defect <;> simp [Defect.failure]
  | .reference none => exact Bond.throw (by simp) h
  | .reference (some ref) =>
    refine Together.bind (hlink ref (hown ref rfl) h) ?_
    exact fun l w v h => Bond.reshape id _ h

theorem Body.buildFields_together (hlink : B.Links refers link link')
    (properties : List (String × Schema)) (hp : ∀ p ∈ properties, p.2.Refers refers)
    (required : List String) (id : NodeId) (path : String) {w : Workshop σ} {v : Workshop τ}
    (h : B.holds [] w v) :
    Together (B.holds []) B.failed (Body.buildFields link required properties id path w)
      (Body.buildFields link' required properties id path v) := by
  match properties with
  | [] => exact .ok h
  | (name, schema) :: rest =>
    have hschema := hp (name, schema) (List.mem_cons_self ..)
    refine Together.bind (Schema.build_together hlink schema hschema _ _ h) ?_
    intro type w v h
    refine Together.bind (Bond.addField id _ h) ?_
    intro _ w v h
    exact Body.buildFields_together hlink rest (fun p hmem => hp p (List.mem_cons_of_mem _ hmem))
      required id path h

/-- A list of fragments goes together with itself, as far as each fragment does. -/
theorem Schema.buildAll_together (hlink : B.Links refers link link') (schemas : List Schema)
    (hs : ∀ s ∈ schemas, s.Refers refers) (path : String) (index : Nat) {w : Workshop σ}
    {v : Workshop τ} (h : B.holds [] w v) :
    Together (B.holds []) B.failed (Schema.buildAll link schemas path index w)
      (Schema.buildAll link' schemas path index v) := by
  match schemas with
  | [] => exact .ok h
  | schema :: rest =>
    refine Together.bind
      (Schema.build_together hlink schema (hs schema (List.mem_cons_self ..)) none _ h) ?_
    intro id w v h
    refine Together.bind (Schema.buildAll_together hlink rest
      (fun s hmem => hs s (List.mem_cons_of_mem _ hmem)) path (index + 1) h) ?_
    exact fun ids w v h => .ok h

theorem Group.buildAll_together (hlink : B.Links refers link link') (groups : List Group)
    (hg : ∀ group ∈ groups, ∀ s ∈ group.parts, s.Refers refers) (facts : Facts) (path : String)
    {w : Workshop σ} {v : Workshop τ} (h : B.holds [] w v) :
    Together (B.holds []) B.failed (Group.buildAll link groups facts path w)
      (Group.buildAll link' groups facts path v) := by
  match groups with
  | [] => exact .ok h
  | .malformed keyword :: _ => exact Bond.throw (by simp) h
  | .members keyword schemas :: rest =>
    have hschemas := hg (.members keyword schemas) (List.mem_cons_self ..)
    refine Together.bind (Schema.buildAll_together hlink schemas hschemas _ _ h) ?_
    intro members w v h
    refine Together.bind (Group.buildAll_together hlink rest
      (fun group hmem => hg group (List.mem_cons_of_mem _ hmem)) facts path h) ?_
    exact fun more w v h => .ok h

end

end

end TypeScribe
