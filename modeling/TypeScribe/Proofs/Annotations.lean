import TypeScribe.Proofs.Appending
import TypeScribe.Proofs.Budget
import TypeScribe.Proofs.Keywords
import TypeScribe.Proofs.Shelves

/-!
# Annotations do not matter

Documents that are trimmed alike compile alike (`compile_trimmed`): whatever else stands in a fragment
beside its keywords, and in whatever order its fields come, the same declarations come out.

The nodes of a graph remember their fragments, for the sake of failures. **Bare** graphs do not. Two
constructions are held against each other whose graphs are the same when they are bare.

* **Building** a schema comes to the same as building the bare schema (`Schema.build_bare`). So the
  constructions of two schemas concur if the bare schemas are one.
* **Converting** a graph comes to the same as converting the bare graph (`Graph.convertWithin_bare`).

Failures are not compared: they show the fragment they are about.
-/

namespace TypeScribe

/-! ## Outcomes that concur -/

/-- Two outcomes **concur**: the same value, in states that are related, or two failures. -/
inductive Concur {ε α S T : Type} (good : S → T → Prop) :
    EStateM.Result ε S α → EStateM.Result ε T α → Prop where
  | ok {a : α} {s : S} {t : T} (states : good s t) : Concur good (.ok a s) (.ok a t)
  | error {e e' : ε} {s : S} {t : T} : Concur good (.error e s) (.error e' t)

namespace Concur

variable {ε α β S T : Type} {good good' : S → T → Prop}

/-- Steps that concur one after the other concur as a whole. -/
theorem bind {m : EStateM ε S α} {n : EStateM ε T α} {k : α → EStateM ε S β} {l : α → EStateM ε T β}
    {s : S} {t : T} (h : Concur good (m s) (n t))
    (hrest : ∀ a s t, good s t → Concur good' (k a s) (l a t)) :
    Concur good' ((m >>= k) s) ((n >>= l) t) := by
  rw [bind_apply, bind_apply]
  generalize m s = r at h
  generalize n t = q at h
  cases h with
  | ok states => exact hrest _ _ _ states
  | error => exact .error

/-- If the first of two outcomes that concur is a success, so is the second. -/
theorem exists_ok {r : EStateM.Result ε S α} {q : EStateM.Result ε T α} (h : Concur good r q) {a : α}
    {s : S} (hr : r = .ok a s) : ∃ t, q = .ok a t ∧ good s t := by
  cases h with
  | ok states =>
    cases hr
    exact ⟨_, rfl, states⟩
  | error => cases hr

theorem refl {good : S → S → Prop} (hgood : ∀ s, good s s) (r : EStateM.Result ε S α) :
    Concur good r r := by
  cases r with
  | ok a s => exact .ok (hgood s)
  | error e s => exact .error

/-- Two outcomes that concur with the same one concur with each other. -/
theorem join {U : Type} {goodU : S → U → Prop} {goodU' : T → U → Prop} {r : EStateM.Result ε S α}
    {q : EStateM.Result ε T α} {p : EStateM.Result ε U α} (hr : Concur goodU r p) (hq : Concur goodU' q p)
    (hgood : ∀ s t u, goodU s u → goodU' t u → good s t) : Concur good r q := by
  cases hr with
  | ok states =>
    cases hq with
    | ok states' => exact .ok (hgood _ _ _ states states')
  | error =>
    cases hq with
    | error => exact .error

end Concur

/-! ## Bare graphs -/

/-- A node without its fragment. -/
def Node.bare (node : Node) : Node := { node with source := .null }

namespace Graph

/-- **A bare graph**: the nodes forget their fragments. -/
def bare (g : Graph) : Graph := { g with nodes := g.nodes.map Node.bare }

theorem node?_bare (g : Graph) (id : NodeId) : g.bare.node? id = (g.node? id).map Node.bare :=
  Array.getElem?_map ..

theorem size_bare (g : Graph) : g.bare.size = g.size := Array.size_map ..

theorem bare_push (g : Graph) (node : Node) : (g.push node).bare = g.bare.push node.bare := by
  simp [push, bare]

theorem bare_bindAll (id : NodeId) (keys : List String) : ∀ g : Graph,
    (g.bindAll id keys).bare = g.bare.bindAll id keys := by
  induction keys with
  | nil => exact fun _ => rfl
  | cons key rest ih =>
    intro g
    rw [bindAll, bindAll, ih]
    split <;> rfl

/-- A change that does not look at fragments can be made to the bare graph. -/
theorem bare_adjust (g : Graph) (id : NodeId) {f : Node → Node}
    (hf : ∀ node, (f node).bare = f node.bare) : (g.adjust id f).bare = g.bare.adjust id f := by
  simp only [adjust, bare]
  congr 1
  apply Array.ext_getElem?
  intro i
  rw [Array.getElem?_map, Array.getElem?_modify, Array.getElem?_modify, Array.getElem?_map]
  split
  · cases g.nodes[i]? with
    | none => rfl
    | some node => exact congrArg some (hf node)
  · rfl

/-- **Graphs that are the same when they are bare** know the same keys, and their nodes differ in fragments
only. -/
structure Resembles (g g' : Graph) : Prop where
  bare : g.bare = g'.bare

namespace Resembles

variable {g g' : Graph}

theorem find (h : g.Resembles g') (key : String) : g.find? key = g'.find? key :=
  congrArg (·.find? key) h.bare

theorem knows (h : g.Resembles g') (key : String) : g.knows key = g'.knows key := by
  rw [Graph.knows, Graph.knows, h.find]

/-- A reference has the same key in graphs that resemble each other, as it depends on what is known
only. -/
theorem keyOf (h : g.Resembles g') (settings : Settings) (ref : String) :
    g.keyOf settings ref = g'.keyOf settings ref := by
  rw [Graph.keyOf, Graph.keyOf, h.knows]

theorem size (h : g.Resembles g') : g.size = g'.size := by
  rw [← size_bare g, h.bare, size_bare]

/-- Nodes of one number are the same up to their annotations. -/
theorem node (h : g.Resembles g') (id : NodeId) :
    (g.node? id).map Node.bare = (g'.node? id).map Node.bare := by
  rw [← node?_bare, h.bare, node?_bare]

/-- A node of one graph has a namesake in the other. -/
theorem exists_node (h : g.Resembles g') {id : NodeId} {node : Node} (hnode : g.node? id = some node) :
    ∃ node', g'.node? id = some node' ∧ node'.name = node.name := by
  have hbare := h.node id
  rw [hnode] at hbare
  obtain ⟨node', hnode', hsame⟩ := Option.map_eq_some_iff.mp hbare.symm
  have hname := congrArg Node.name hsame
  exact ⟨node', hnode', hname⟩

/-- Annotations have no part in the name of a node. -/
theorem nameOf (h : g.Resembles g') (id : NodeId) : g.nameOf id = g'.nameOf id := by
  have hname := congrArg (Option.map Node.name) (h.node id)
  rw [Option.map_map, Option.map_map] at hname
  exact congrArg (·.getD "") hname

end Resembles

end Graph

/-- The node of a fragment and that of the bare fragment. -/
theorem Schema.node_bare (facts : Facts) (body : Body) (groups : List Group) (name : Option String)
    (path : String) : (node facts body groups name path).bare =
      (node facts.bare body.bare (Group.bareAll groups) name path).bare := by
  have hgroups : (Group.bareAll groups).isEmpty = groups.isEmpty := by
    rw [Group.bareAll_eq, List.isEmpty_map]
  have hdeclared : isDeclared facts.bare body.bare (Group.bareAll groups) name =
      isDeclared facts body groups name := by
    rw [isDeclared, isDeclared, hgroups]
    cases body <;> rfl
  have hshape : Shape.unbuilt body.bare = Shape.unbuilt body := by cases body <;> rfl
  simp only [node, Node.bare, hdeclared, hshape]
  rfl

/-! ## Sources that serve alike -/

namespace Source

variable {σ τ : Type} [Source σ] [Source τ]

/-- The document that a source serves at a location, if it serves one. -/
def document? (source : σ) (location : String) : Option Json :=
  (Source.load source location).result.toOption.map Json.obj

/-- A source that has been asked for documents, one after the other. -/
def asked (source : σ) (locations : List String) : σ :=
  locations.foldl (fun source location => (Source.load source location).source) source

/-- **Sources that serve alike up to a view** of documents: whatever both have been asked for before, at every
location they serve documents that look the same, or both none. -/
def ServeUpTo (view : Json → Json) (s : σ) (t : τ) : Prop :=
  ∀ locations location, (document? (asked s locations) location).map view =
    (document? (asked t locations) location).map view

namespace ServeUpTo

variable {view : Json → Json} {s : σ} {t : τ}

theorem load (h : ServeUpTo view s t) (location : String) :
    ServeUpTo view (Source.load s location).source (Source.load t location).source :=
  fun locations => h (location :: locations)

theorem symm (h : ServeUpTo view s t) : ServeUpTo view t s :=
  fun locations location => (h locations location).symm

/-- Two answers of sources that serve alike. -/
theorem results (h : ServeUpTo view s t) (location : String) :
    (∃ fault fault', (Source.load s location).result = .error fault ∧
      (Source.load t location).result = .error fault') ∨
    ∃ fields fields', (Source.load s location).result = .ok fields ∧
      (Source.load t location).result = .ok fields' ∧ view (.obj fields) = view (.obj fields') := by
  have hsame := h [] location
  simp only [document?, asked, List.foldl_nil] at hsame
  cases hs : (Source.load s location).result <;> cases ht : (Source.load t location).result <;>
    rw [hs, ht] at hsame <;> simp_all [Except.toOption]

end ServeUpTo

end Source

namespace Catalog

/-- A catalog holds still everywhere. -/
theorem still (catalog : Catalog) (location : String) : Source.Still catalog location := by
  intro later hlater fields
  rw [eq_of_becomes hlater]

/-- A catalogue is not changed by being asked. -/
theorem asked_eq (catalog : Catalog) (locations : List String) : Source.asked catalog locations = catalog := by
  induction locations with
  | nil => rfl
  | cons _ _ ih => exact ih

/-- What a catalog serves, when it is viewed: the document of that name in the catalog that is viewed, if it is
an object. -/
theorem view_document {view : Json → Json} (hview : ∀ v, (view v).fields?.isSome = v.fields?.isSome)
    (catalog : Catalog) (name : String) : (Source.document? catalog name).map view =
      (Table.get? (catalog.documents.map fun e => (e.1, view e.2)) name).filter (·.fields?.isSome) := by
  have hload : (Source.load catalog name).result = catalog.find name := rfl
  have hget : Table.get? (catalog.documents.map fun e => (e.1, view e.2)) name =
      (catalog.documents.get? name).map view := by
    induction catalog.documents with
    | nil => rfl
    | cons e rest ih =>
      rw [List.map_cons, Table.get?_cons, Table.get?_cons, ih]
      split <;> rfl
  rw [Source.document?, hload, find, hget]
  cases catalog.documents.get? name with
  | none => rfl
  | some v =>
    rw [Option.map_some, Option.filter_some, hview]
    cases v <;> rfl

/-- **Catalogs whose documents look the same** serve alike. -/
theorem serveUpTo {view : Json → Json} (hview : ∀ v, (view v).fields?.isSome = v.fields?.isSome)
    {catalog catalog' : Catalog} (h : (catalog.documents.map fun e => (e.1, view e.2)) =
      catalog'.documents.map fun e => (e.1, view e.2)) : Source.ServeUpTo view catalog catalog' := by
  intro locations location
  rw [asked_eq, asked_eq, view_document hview, view_document hview, h]

/-- **Catalogs whose documents are trimmed alike** serve alike. -/
theorem serveUpTo_trim {catalog catalog' : Catalog}
    (h : Json.trimValues catalog.documents = Json.trimValues catalog'.documents) :
    Source.ServeUpTo (Json.trim .fragment) catalog catalog' := by
  rw [Json.trimValues_eq, Json.trimValues_eq] at h
  exact serveUpTo (fun v => by cases v <;> rfl) h

end Catalog

/-! ## Building -/

/-- **Workshops that resemble each other**: the graphs are the same when they are bare, and the sources serve
alike. The logs may differ. -/
structure Workshop.Resembles {σ τ : Type} [Source σ] [Source τ] (w : Workshop σ) (v : Workshop τ) :
    Prop where
  graph : w.graph.Resembles v.graph
  source : Source.ServeUpTo (Json.trim .fragment) w.source v.source

section

variable {σ τ : Type} [Source σ] [Source τ] {w : Workshop σ} {v : Workshop τ}

namespace Workshop.Resembles

theorem refl (w : Workshop σ) : w.Resembles w := ⟨⟨rfl⟩, fun _ _ => rfl⟩

theorem symm (h : w.Resembles v) : v.Resembles w := ⟨⟨h.graph.bare.symm⟩, h.source.symm⟩

theorem trans {υ : Type} [Source υ] {u : Workshop υ} (h : w.Resembles v) (h' : v.Resembles u) :
    w.Resembles u := by
  refine ⟨⟨h.graph.bare.trans h'.graph.bare⟩, ?_⟩
  exact fun locations location => (h.source locations location).trans (h'.source locations location)

/-- A node that is entered on both sides may differ in its annotations. -/
theorem enter (h : w.Resembles v) {node node' : Node} (hnode : node.bare = node'.bare) (path : String)
    (keys : List String) : (w.enter node path keys).Resembles (v.enter node' path keys) := by
  refine ⟨⟨?_⟩, h.source⟩
  simp only [Workshop.enter, update, Graph.bare_bindAll, Graph.bare_push, h.graph.bare, hnode,
    h.graph.size]

/-- A change that does not look at annotations may be made on both sides. -/
theorem adjust (h : w.Resembles v) (id : NodeId) {f : Node → Node}
    (hf : ∀ node, (f node).bare = f node.bare) : (w.adjust id f).Resembles (v.adjust id f) := by
  refine ⟨⟨?_⟩, h.source⟩
  simp only [Workshop.adjust, update, Graph.bare_adjust _ id hf, h.graph.bare]

theorem asking (h : w.Resembles v) (ref key : String) :
    (w.asking ref key).Resembles (v.asking ref key) :=
  ⟨h.graph, h.source.load key⟩

/-- A key may be bound on both sides. -/
theorem bound (h : w.Resembles v) (key : String) (id : NodeId) :
    (w.bound key id).Resembles (v.bound key id) := by
  refine ⟨⟨?_⟩, h.source⟩
  simp only [Workshop.bound, update, h.graph.knows key]
  split
  · exact h.graph.bare
  · exact congrArg (·.bind key id) h.graph.bare

/-- Changing a node in both. -/
theorem onGraph (h : w.Resembles v) (id : NodeId) {f : Node → Node}
    (hf : ∀ node, (f node).bare = f node.bare) :
    Concur Workshop.Resembles (Build.onGraph (·.adjust id f) w) (Build.onGraph (·.adjust id f) v) := by
  rw [Build.onGraph_apply, Build.onGraph_apply]
  exact .ok (h.adjust id hf)

theorem reshape (h : w.Resembles v) (id : NodeId) (shape : Shape) :
    Concur Workshop.Resembles (Build.reshape id shape w) (Build.reshape id shape v) :=
  h.onGraph id fun _ => rfl

theorem addField (h : w.Resembles v) (id : NodeId) (field : Field) :
    Concur Workshop.Resembles (Build.addField id field w) (Build.addField id field v) := by
  refine h.onGraph id fun node => ?_
  simp only [Node.bare]
  split <;> rfl

theorem augment (h : w.Resembles v) (id : NodeId) (augmentations : List Augmentation) :
    Concur Workshop.Resembles (Build.augment id augmentations w) (Build.augment id augmentations v) :=
  h.onGraph id fun _ => rfl

/-- Whether a node can be linked to does not hang on its fragment. -/
theorem linkTo (h : w.Resembles v) (ref key : String) :
    Concur Workshop.Resembles (Build.linkTo ref key w) (Build.linkTo ref key v) := by
  rw [Build.linkTo_eq, Build.linkTo_eq, ← h.graph.find key]
  cases w.graph.find? key with
  | none => exact .error
  | some id =>
    dsimp only
    cases hw : w.graph.node? id with
    | none =>
      have hnode := h.graph.node id
      rw [hw] at hnode
      rw [Option.map_eq_none_iff.mp hnode.symm]
      exact .error
    | some node =>
      obtain ⟨node', hv, hname⟩ := h.graph.exists_node hw
      rw [hv]
      dsimp only
      rw [hname]
      split
      · exact .error
      · exact .ok h

end Workshop.Resembles

/-- **Two ways to resolve references** that concur in workshops that resemble each other. -/
def LinksConcur (link : String → Build σ Link) (link' : String → Build τ Link) : Prop :=
  ∀ ref {w : Workshop σ} {v : Workshop τ}, w.Resembles v →
    Concur Workshop.Resembles (link ref w) (link' ref v)

variable {link : String → Build σ Link} {link' : String → Build τ Link}

theorem Schema.id_bare (s : Schema) : s.bare.facts.id = s.facts.id := by
  cases s <;> rw [bare] <;> rfl

mutual

/-- **Building a schema comes to the same as building the bare schema**, if resolving references does. -/
theorem Schema.build_bare (hlink : LinksConcur link link') (s : Schema) (name : Option String)
    (path : String) (keys : List String) {w : Workshop σ} {v : Workshop τ} (h : w.Resembles v) :
    Concur Workshop.Resembles (s.build link name path keys w) (s.bare.build link' name path keys v) := by
  have hids : s.bare.facts.id.bind v.graph.find? = s.facts.id.bind w.graph.find? := by
    rw [Schema.id_bare, funext h.graph.find]
  cases hknown : s.facts.id.bind w.graph.find? with
  | some id =>
    rw [Schema.build_known s hknown, Schema.build_known s.bare (hids.trans hknown)]
    exact .ok h
  | none =>
    rw [hknown] at hids
    match s with
    | .unsupported facts =>
      have hknown : facts.id.bind w.graph.find? = none := hknown
      have hids : facts.bare.id.bind v.graph.find? = none := hids
      rw [Schema.build_unsupported hknown, Schema.bare, Schema.build_unsupported hids]
      exact .error
    | .fragment facts body groups =>
      have hknown : facts.id.bind w.graph.find? = none := hknown
      have hids : facts.bare.id.bind v.graph.find? = none := hids
      rw [Schema.build_new hknown, Schema.bare, Schema.build_new hids, h.graph.size]
      have hentered := h.enter (Schema.node_bare facts body groups name path) path (facts.id.toList ++ keys)
      refine Concur.bind (Body.build_bare hlink body _ facts name path hentered) fun _ w v h => ?_
      refine Concur.bind (Group.buildAll_bare hlink groups facts path h) fun augmentations w v h => ?_
      exact Concur.bind (h.augment _ augmentations) fun _ w v h => .ok h

/-- A body and the same body without annotations add the same to a node. -/
theorem Body.build_bare (hlink : LinksConcur link link') (body : Body) (id : NodeId) (facts : Facts)
    (name : Option String) (path : String) {w : Workshop σ} {v : Workshop τ} (h : w.Resembles v) :
    Concur Workshop.Resembles (body.build link id facts name path w)
      (body.bare.build link' id facts.bare name path v) := by
  match body with
  | .scalar s => exact .ok h
  | .composite => exact .ok h
  | .broken defect => exact .error
  | .reference none => exact .error
  | .choice alternatives =>
    refine Concur.bind (Schema.buildAll_bare hlink alternatives _ _ h) ?_
    exact fun ids w v h => h.reshape id _
  | .array items =>
    refine Concur.bind (Schema.build_bare hlink items name _ [] h) ?_
    exact fun item w v h => h.reshape id _
  | .object required properties => exact Body.buildFields_bare hlink properties required id path h
  | .reference (some ref) => exact Concur.bind (hlink ref h) fun l w v h => h.reshape id _

theorem Body.buildFields_bare (hlink : LinksConcur link link') (properties : List (String × Schema))
    (required : List String) (id : NodeId) (path : String) {w : Workshop σ} {v : Workshop τ}
    (h : w.Resembles v) :
    Concur Workshop.Resembles (Body.buildFields link required properties id path w)
      (Body.buildFields link' required (Schema.bareFields properties) id path v) := by
  match properties with
  | [] => exact .ok h
  | (name, schema) :: rest =>
    refine Concur.bind (Schema.build_bare hlink schema (some name) _ [] h) fun type w v h => ?_
    refine Concur.bind (h.addField id _) fun _ w v h => ?_
    exact Body.buildFields_bare hlink rest required id path h

theorem Schema.buildAll_bare (hlink : LinksConcur link link') (schemas : List Schema) (path : String)
    (index : Nat) {w : Workshop σ} {v : Workshop τ} (h : w.Resembles v) :
    Concur Workshop.Resembles (Schema.buildAll link schemas path index w)
      (Schema.buildAll link' (Schema.bareAll schemas) path index v) := by
  match schemas with
  | [] => exact .ok h
  | schema :: rest =>
    refine Concur.bind (Schema.build_bare hlink schema none _ [] h) fun id w v h => ?_
    refine Concur.bind (Schema.buildAll_bare hlink rest path (index + 1) h) ?_
    exact fun ids w v h => .ok h

theorem Group.buildAll_bare (hlink : LinksConcur link link') (groups : List Group) (facts : Facts)
    (path : String) {w : Workshop σ} {v : Workshop τ} (h : w.Resembles v) :
    Concur Workshop.Resembles (Group.buildAll link groups facts path w)
      (Group.buildAll link' (Group.bareAll groups) facts.bare path v) := by
  match groups with
  | [] => exact .ok h
  | .malformed keyword :: _ => exact .error
  | .members keyword schemas :: rest =>
    refine Concur.bind (Schema.buildAll_bare hlink schemas _ _ h) fun members w v h => ?_
    refine Concur.bind (Group.buildAll_bare hlink rest facts path h) ?_
    exact fun more w v h => .ok h

end

/-- **Documents that are trimmed alike** are built alike. -/
theorem Schema.build_trimmed (hlink : LinksConcur link link') (hlink' : LinksConcur link' link')
    {document document' : Json} (htrim : document.trim .fragment = document'.trim .fragment)
    (name : Option String) (path : String) (keys : List String) (h : w.Resembles v) :
    Concur Workshop.Resembles ((ofJson document).build link name path keys w)
      ((ofJson document').build link' name path keys v) := by
  have hfirst := build_bare hlink (ofJson document) name path keys h
  have hsecond := build_bare hlink' (ofJson document') name path keys (.refl v)
  rw [bare_ofJson htrim] at hfirst
  exact hfirst.join hsecond fun _ _ _ h h' => h.trans h'.symm

end

/-- **Resolving a reference** comes to the same in workshops that resemble each other. -/
theorem Build.resolve_concur (settings : Settings) (budget : Nat) :
    ∀ {σ τ : Type} [Source σ] [Source τ],
      LinksConcur (resolve settings budget : String → Build σ Link)
        (resolve settings budget : String → Build τ Link) := by
  intro σ τ _ _ ref w v h
  have hkeys := h.graph.keyOf settings ref
  cases hkey : w.graph.keyOf settings ref with
  | error failure =>
    rw [resolve_failed budget hkey, resolve_failed budget (hkeys ▸ hkey)]
    exact .error
  | ok key =>
    have hknows := h.graph.knows key
    cases hknown : w.graph.knows key with
    | true =>
      rw [resolve_known budget hkey hknown, resolve_known budget (hkeys ▸ hkey) (hknows ▸ hknown)]
      exact h.linkTo ref key
    | false =>
      match budget with
      | 0 =>
        rw [resolve_endless hkey hknown, resolve_endless (hkeys ▸ hkey) (hknows ▸ hknown)]
        exact .error
      | budget + 1 =>
        rw [resolve_new budget hkey hknown, resolve_new budget (hkeys ▸ hkey) (hknows ▸ hknown)]
        rcases h.source.results key with ⟨_, _, hs, ht⟩ | ⟨fields, fields', hs, ht, htrim⟩
        · rw [hs, ht]
          exact .error
        · rw [hs, ht]
          refine Concur.bind (Schema.build_trimmed (resolve_concur settings budget)
            (resolve_concur settings budget) htrim none _ [key] (h.asking ref key)) fun id w v h => ?_
          refine Concur.bind ?_ fun _ w v (h : w.Resembles v) => h.linkTo ref key
          rw [bindNew, bindNew, onGraph_apply, onGraph_apply]
          exact .ok (h.bound key id)

/-- **A document that is built** is built from any other that is trimmed alike, in a workshop that resembles
the first. -/
theorem Build.root_trimmed {σ τ : Type} [Source σ] [Source τ] [LawfulSource τ] {settings : Settings}
    {w w' : Workshop σ} {v : Workshop τ} (h : w.Resembles v) (hstill : Source.Still v.source "")
    {document document' : Json} (htrim : document.trim .fragment = document'.trim .fragment)
    {name : Option String} {path : String} {keys : List String} {id : NodeId}
    (hroot : root settings document name path keys w = .ok id w') :
    ∃ v', root settings document' name path keys v = .ok id v' ∧ w'.Resembles v' ∧
      Source.Becomes v.source v'.source := by
  have hbuild := Schema.build_trimmed
    (resolve_concur settings (Source.budget w.source document))
    (resolve_concur settings (Source.budget w.source document)) htrim name path keys h
  obtain ⟨v', hok, hresembles⟩ := hbuild.exists_ok hroot
  obtain ⟨hroot', hbecomes⟩ := root_redone hstill hok
  exact ⟨v', hroot', hresembles, hbecomes⟩

/-! ## Converting -/

/-- Two steps of conversion **concur** if they do on every draft, and leave the same draft behind. -/
def Write.Concurs {α : Type} (m n : Write α) : Prop := ∀ d, Concur (· = ·) (m d) (n d)

namespace Write.Concurs

variable {α β : Type} {m n : Write α} {k l : α → Write β}

theorem refl (m : Write α) : m.Concurs m := fun _ => .refl (fun _ => rfl) _

theorem bind (h : m.Concurs n) (hrest : ∀ a, (k a).Concurs (l a)) : (m >>= k).Concurs (n >>= l) := by
  intro d
  refine Concur.bind (h d) ?_
  rintro a d _ rfl
  exact hrest a d

theorem throw (e e' : Failure) : (throw e : Write α).Concurs (throw e') := fun _ => .error

variable {convert convert' : NodeId → Write Unit} (h : ∀ id, (convert id).Concurs (convert' id))
include h

theorem texts (ids : List NodeId) : (texts convert ids).Concurs (texts convert' ids) := by
  induction ids with
  | nil => exact refl _
  | cons id rest ih => exact bind (h id) fun _ => bind (refl _) fun text => bind ih fun more => refl _

theorem groups (augmentations : List Augmentation) :
    (groups convert augmentations).Concurs (groups convert' augmentations) := by
  induction augmentations with
  | nil => exact refl _
  | cons a rest ih => exact bind (texts h a.members) fun texts => bind ih fun more => refl _

theorem fields (fs : List Field) : (fields convert fs).Concurs (fields convert' fs) := by
  induction fs with
  | nil => exact refl _
  | cons f rest ih => exact bind (h f.type) fun _ => bind (refl _) fun type => bind ih fun more => refl _

/-- The text of a node does not hang on its fragment. -/
theorem expression (g : Graph) (indent : Json) (node : Node) (augmentation : String) :
    (expression convert g indent node augmentation).Concurs
      (expression convert' g.bare indent node.bare augmentation) := by
  have hbare : node.bare.shape = node.shape := rfl
  rw [Write.expression, Write.expression, hbare]
  cases node.shape with
  | scalar s => exact refl _
  | composite => exact refl _
  | choice alternatives => exact bind (texts h alternatives) fun _ => refl _
  | array item =>
    cases item with
    | none => exact refl _
    | some item => exact bind (h item) fun _ => refl _
  | object fs => exact bind (fields h fs) fun _ => refl _
  | reference ref target =>
    have hfind : g.bare.find? target = g.find? target := rfl
    dsimp only
    rw [hfind]
    cases g.find? target with
    | none => exact refl _
    | some id =>
      refine bind (h id) fun _ => bind (refl _) fun page => ?_
      cases page.inline with
      | some text => exact refl _
      | none =>
        dsimp only
        rw [Graph.node?_bare]
        cases g.node? id <;> exact throw _ _

theorem body (g : Graph) (indent : Json) (id : NodeId) (node : Node) :
    (body convert g indent id node).Concurs (body convert' g.bare indent id node.bare) :=
  bind (groups h node.augmentations) fun _ => bind (expression h g indent node _) fun _ => refl _

end Write.Concurs

namespace Graph

/-- **Converting a graph comes to the same as converting the bare graph.** -/
theorem convertWithin_bare (g : Graph) (indent : Json) (depth : Nat) : ∀ id,
    (g.convertWithin indent depth id).Concurs (g.bare.convertWithin indent depth id) := by
  induction depth with
  | zero => exact fun _ => .refl _
  | succ depth ih =>
    intro id
    refine Write.Concurs.bind (.refl _) fun page => ?_
    split
    · exact .refl _
    · rw [node?_bare]
      cases g.node? id with
      | none => exact .refl _
      | some node => exact Write.Concurs.bind (.refl _) fun _ => Write.Concurs.body ih g indent id node

/-- Converting nodes one by one, without guards, does not look at annotations. -/
theorem guardedEach_bare (g : Graph) (indent : Json) (ids : List NodeId) :
    (g.guardedEach indent false ids).Concurs (g.bare.guardedEach indent false ids) := by
  induction ids with
  | nil => exact .refl _
  | cons id rest ih =>
    rw [guardedEach, guardedEach, guardedWithin_false, guardedWithin_false, size_bare]
    exact Write.Concurs.bind (convertWithin_bare g indent g.size id) fun _ => ih

namespace Resembles

variable {g g' : Graph}

/-- Graphs that are the same when they are bare are converted alike. -/
theorem guardedEach (h : g.Resembles g') (indent : Json) (ids : List NodeId) :
    (g.guardedEach indent false ids).Concurs (g'.guardedEach indent false ids) := by
  intro d
  have hfirst := guardedEach_bare g indent ids d
  rw [h.bare] at hfirst
  exact hfirst.join (guardedEach_bare g' indent ids d) fun _ _ _ hs ht => hs.trans ht.symm

/-- The final text does not depend on annotations, as it consists of blocks and names. -/
theorem render (h : g.Resembles g') (d : Draft) (settings : Settings) (commandLine : String) :
    d.render g settings commandLine = d.render g' settings commandLine := by
  have hkept : d.kept g = d.kept g' := Draft.keep_congr (fun n _ => h.nameOf n) []
  rw [Draft.render, Draft.render, hkept]

end Resembles

end Graph

/-! ## Compilations -/

namespace Registry

variable {σ τ : Type} [Source σ] [Source τ] [LawfulSource τ]

/-- **Roots that are built** are built from any others that are trimmed alike. -/
theorem buildRoots_trimmed (roots : List Json) : ∀ {roots' : List Json} {r r' : Registry σ}
    {q : Registry τ} {ids : List NodeId}, r.settings = q.settings → r.workshop.Resembles q.workshop →
    Source.Still q.workshop.source "" →
    roots.map (Json.trim .fragment) = roots'.map (Json.trim .fragment) →
    buildRoots roots r = .ok ids r' →
    ∃ q', buildRoots roots' q = .ok ids q' ∧ r'.workshop.Resembles q'.workshop := by
  induction roots with
  | nil =>
    intro roots' r r' q ids _ hresembles _ htrim h
    obtain rfl := List.map_eq_nil_iff.mp htrim.symm
    cases h
    exact ⟨q, rfl, hresembles⟩
  | cons root rest ih =>
    intro roots' r r' q ids hsettings hresembles hstill htrim h
    obtain ⟨root', rest', rfl, hroot', hrest'⟩ := List.map_eq_cons_iff.mp htrim.symm
    obtain ⟨id, w, node, more, hroot, hnode, hname, hmore, rfl⟩ := buildRoots_cons h
    obtain ⟨v, hbuild, hv, hbecomes⟩ := Build.root_trimmed hresembles hstill hroot'.symm hroot
    obtain ⟨node', hnode', hname'⟩ := hv.graph.exists_node hnode
    obtain ⟨q', hlater, hlast⟩ := ih (r := { r with pending := rest, workshop := w })
      (q := { q with pending := rest', workshop := v }) hsettings hv (hstill.becomes hbecomes) hrest'.symm
      hmore
    refine ⟨q', ?_, hlast⟩
    exact buildRoots_cons_ok (hsettings ▸ hbuild) hnode' (hname' ▸ hname) hlater

end Registry

/-- **What compiles** compiles to the same from documents that are trimmed alike. -/
theorem compile_trimmed_of_ok {σ τ : Type} [Source σ] [Source τ] [LawfulSource τ] {s : σ} {t : τ}
    (hstill : Source.Still t "") (hserve : Source.ServeUpTo (Json.trim .fragment) s t) {roots roots' : List Json}
    (htrim : roots.map (Json.trim .fragment) = roots'.map (Json.trim .fragment)) {settings : Settings}
    {commandLine text : String} (h : compile settings s commandLine roots = .ok text) :
    compile settings t commandLine roots' = .ok text := by
  obtain ⟨r', hall⟩ := compile_ok_iff.mp h
  obtain ⟨r, hr, hparse⟩ := Registry.compileAll_ready settings s commandLine roots
  obtain ⟨q, hq, hparse'⟩ := Registry.compileAll_ready settings t commandLine roots'
  have hsettings : r.settings = q.settings := hr.settings.trans hq.settings.symm
  have hline : r.commandLine = q.commandLine := hr.commandLine.trans hq.commandLine.symm
  have hresembles : r.workshop.Resembles q.workshop := by
    refine ⟨⟨?_⟩, ?_⟩
    · exact congrArg Graph.bare (hr.graph.trans hq.graph.symm)
    · rw [hr.source, hq.source]
      exact hserve
  obtain ⟨ids, r₁, hbuild, hbuilt, hrun, hrender, -⟩ := Registry.parse_steps hr.toFresh (hparse ▸ hall)
  obtain ⟨q₁, hbuild', hresembles₁⟩ := Registry.buildRoots_trimmed roots hsettings hresembles
    (hq.source ▸ hstill) htrim (hr.pending ▸ hbuild)
  have hbuilt' := Registry.buildRoots_built hq.toFresh hbuild'
  have hsettings₁ : r₁.settings = q₁.settings :=
    hbuilt.settings.trans (hsettings.trans hbuilt'.settings.symm)
  have hline₁ : r₁.commandLine = q₁.commandLine :=
    hbuilt.commandLine.trans (hline.trans hbuilt'.commandLine.symm)
  rw [hsettings₁] at hrun hrender
  obtain ⟨_, hrun', rfl⟩ := (hresembles₁.graph.guardedEach _ ids {}).exists_ok hrun
  have hrendered : r'.draft.render r₁.graph _ _ = r'.draft.render q₁.graph _ _ :=
    hresembles₁.graph.render r'.draft q₁.settings q₁.commandLine
  rw [hline₁, hrendered] at hrender
  obtain ⟨q', hlast⟩ := Registry.parse_of hq.toFresh (hq.pending ▸ hbuild') hrun' hrender
  exact compile_ok_iff.mpr ⟨q', hparse' ▸ hlast⟩

/-- **Only keywords matter.** If the roots and the documents of two sources are the same once every fragment
is trimmed to its keywords, the roots compile with both sources or with none, and to the same text. -/
theorem compile_trimmed {σ τ : Type} [Source σ] [LawfulSource σ] [Source τ] [LawfulSource τ] {s : σ} {t : τ}
    (hs : Source.Still s "") (ht : Source.Still t "") (hserve : Source.ServeUpTo (Json.trim .fragment) s t)
    {roots roots' : List Json}
    (htrim : roots.map (Json.trim .fragment) = roots'.map (Json.trim .fragment)) (settings : Settings)
    (commandLine text : String) :
    compile settings s commandLine roots = .ok text ↔ compile settings t commandLine roots' = .ok text :=
  ⟨compile_trimmed_of_ok ht hserve htrim, compile_trimmed_of_ok hs hserve.symm htrim.symm⟩

/-- A library whose documents refer to each other; the empty text is the name of one of them. -/
def library : Catalog := ⟨[
  ("book", .obj [("id", .str "B"), ("title", .str "Book"), ("type", .str "object"), ("properties", .obj [
    ("description", .obj [("type", .str "string")]),
    ("author", .obj [("$ref", .str "person")]),
    ("shelf", .obj [("$ref", .str "")])])]),
  ("", .obj [("title", .str "Shelf"), ("type", .str "array"), ("items", .obj [("$ref", .str "B")])]),
  ("person", .obj [("title", .str "Person"), ("allOf", .arr [
    .obj [("$ref", .str "B")],
    .obj [("title", .str "Works"), ("type", .str "array"), ("items", .obj [("$ref", .str "book")])]])])]⟩

/-- The same library with annotations: the fields are shuffled, and there are others in between, among them
references and ids that lead nowhere. A property may be named like an annotation. -/
def annotatedLibrary : Catalog := ⟨[
  ("book", .obj [("examples", .arr [.obj [("$ref", .str "nowhere")]]), ("type", .str "object"),
    ("properties", .obj [
      ("description", .obj [("maxLength", .int 9), ("type", .str "string")]),
      ("author", .obj [("description", .str "who wrote it"), ("$ref", .str "person")]),
      ("shelf", .obj [("$ref", .str "")])]),
    ("title", .str "Book"), ("default", .obj [("id", .str "B")]), ("id", .str "B")]),
  ("", .obj [("type", .str "array"), ("items", .obj [("$ref", .str "B")]), ("title", .str "Shelf"),
    ("definitions", .obj [("book", .obj [("$ref", .str "")])])]),
  ("person", .obj [("allOf", .arr [
      .obj [("$ref", .str "B"), ("deprecated", .bool true)],
      .obj [("items", .obj [("$ref", .str "book"), ("not", .obj [])]), ("title", .str "Works"),
        ("minItems", .int 1), ("type", .str "array")]]),
    ("$comment", .str "people"), ("title", .str "Person")])]⟩

/-- A root that refers to the library, with and without annotations. -/
def reader (annotations : Entries Json) : Json :=
  .obj (annotations ++ [("title", .str "Reader"), ("type", .str "object"), ("required", .arr [.str "reads"]),
    ("properties", .obj [("reads", .obj (annotations ++ [("$ref", .str "book")]))])])

theorem compile_trimmed_library :
    ∃ text, compile {} library "" [reader []] = .ok text ∧
      compile {} annotatedLibrary "" [reader [("$schema", .null), ("readOnly", .bool true)]] = .ok text := by
  obtain ⟨text, r, hall, -⟩ := exists_of_succeeds (Registry.compileAll [reader []] (.new {} library ""))
    (fun _ _ => true) (by decide +kernel)
  have htext : compile {} library "" [reader []] = .ok text := compile_ok_iff.mpr ⟨r, hall⟩
  have hserve : Source.ServeUpTo (Json.trim .fragment) library annotatedLibrary := Catalog.serveUpTo_trim (by cbv)
  refine ⟨text, htext, ?_⟩
  exact (compile_trimmed (library.still "") (annotatedLibrary.still "") hserve (by cbv) {} "" text).mp htext

end TypeScribe
