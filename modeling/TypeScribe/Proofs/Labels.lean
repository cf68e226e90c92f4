import TypeScribe.Proofs.Course
import TypeScribe.Proofs.Resolving

/-!
# Labels

A node keeps its **label**, that is, its source, its path, its name and whether it is declared, from the
step that adds it to the end of the construction. So what is true of the label of every new node is true
of all nodes (`Registry.Compiled.exists_typeName`), and the first root is the first node, declared and
with a name (`Registry.Compiled.first_root`).
-/

namespace TypeScribe

namespace Graph

/-- The labels of the nodes, by number. -/
def labels (g : Graph) : List Label := g.nodes.toList.map Node.label

variable {g : Graph}

@[simp]
theorem labels_push (g : Graph) (node : Node) : (g.push node).labels = g.labels ++ [node.label] := by
  simp [labels, push]

/-- A change that keeps the label of each node keeps the labels of the graph. -/
theorem labels_adjust (g : Graph) (id : NodeId) {f : Node → Node}
    (hf : ∀ node, (f node).label = node.label) : (g.adjust id f).labels = g.labels := by
  apply List.ext_getElem?
  intro n
  simp only [labels, adjust, List.getElem?_map, Array.getElem?_toList, Array.getElem?_modify]
  split
  · cases g.nodes[n]? <;> simp [hf]
  · rfl

theorem getElem?_labels (g : Graph) (id : NodeId) : g.labels[id]? = (g.node? id).map Node.label := by
  simp [labels, node?]

/-- **The labels so far stay.** -/
theorem labels_invariant (labels : List Label) : Graph.Invariant fun g => labels <+: g.labels where
  push facts body groups name path _ h := by
    rw [labels_push]
    exact h.trans (List.prefix_append ..)
  bind key id h := h
  adjust id _ hf h := by
    rw [labels_adjust _ id hf]
    exact h

/-- **Every label is that of a new node.** -/
theorem labelled_invariant : Graph.Invariant fun g => ∀ l ∈ g.labels, ∃ facts body groups name path,
    l = (Schema.node facts body groups name path).label where
  push facts body groups name path _ h := by
    intro l hl
    rw [labels_push] at hl
    rcases List.mem_append.mp hl with hl | hl
    · exact h l hl
    · exact ⟨facts, body, groups, name, path, List.mem_singleton.mp hl⟩
  bind key id h := h
  adjust id _ hf h := by
    rw [labels_adjust _ id hf]
    exact h

end Graph

/-! ## Documents -/

section

variable {σ : Type} {settings : Settings} {schema : Json} {name : Option String}
  {path : String} {keys : List String} {w w' : Workshop σ} {id : NodeId} {I : Graph → Prop}

/-- Filling a node gives the number of that node. -/
theorem Schema.fill_ok {link : String → Build σ Link} {facts : Facts} {body : Body}
    {groups : List Group} {n : NodeId}
    (h : Schema.fill link facts body groups name path n w = .ok id w') : id = n := by
  obtain ⟨_, w₁, -, h⟩ := ok_of_bind h
  obtain ⟨_, w₂, -, h⟩ := ok_of_bind h
  obtain ⟨_, w₃, -, h⟩ := ok_of_bind h
  cases h
  rfl

/-- A step that keeps an invariant leaves a graph that has it. -/
theorem Graph.Invariant.of_ok {α : Type} {hI : Graph.Invariant I} {r : EStateM.Result Failure (Workshop σ) α}
    {a : α} (h : Together ((hI.bond σ).holds keys) (hI.bond σ).failed r r) (hok : r = .ok a w') :
    I w'.graph := by
  rw [hok] at h
  cases h with
  | ok states => exact states.2

variable [Source σ]

/-- **Building a document** keeps every invariant. -/
theorem Graph.Invariant.root (hI : Graph.Invariant I) (hw : I w.graph)
    (h : Build.root settings schema name path keys w = .ok id w') : I w'.graph := by
  have hrefers : (Schema.ofJson schema).Refers fun _ => True := Schema.ofJson_refers fun _ _ => trivial
  have hholds : (hI.bond σ).holds keys w w := ⟨rfl, hw⟩
  exact of_ok (Schema.build_together (hI.links settings _) _ hrefers name path hholds) h

/-- **A document whose id is not known** gets the next number, and its node the label that its facts,
its name and its path make. -/
theorem Build.root_label (hnew : (Schema.ofJson schema).facts.id.bind w.graph.find? = none)
    (h : root settings schema name path keys w = .ok id w') :
    id = w.graph.size ∧ ∃ facts body groups,
      w'.graph.labels[id]? = some (Schema.node facts body groups name path).label := by
  have hrefers : (Schema.ofJson schema).Refers fun _ => True := Schema.ofJson_refers fun _ _ => trivial
  change (Schema.ofJson schema).build (resolve settings (Source.budget w.source schema)) name path keys w =
    .ok id w' at h
  cases hschema : Schema.ofJson schema with
  | unsupported facts =>
    rw [hschema] at h hnew
    have hnew : facts.id.bind w.graph.find? = none := hnew
    rw [Schema.build_unsupported hnew] at h
    cases h
  | fragment facts body groups =>
    rw [hschema] at h hnew hrefers
    have hnew : facts.id.bind w.graph.find? = none := hnew
    have .fragment ⟨_, hown⟩ hparts hmembers := hrefers
    rw [Schema.build_new hnew] at h
    have hI := Graph.labels_invariant
      (w.graph.labels ++ [(Schema.node facts body groups name path).label])
    have hlink := hI.links (σ := σ) settings (Source.budget w.source schema)
    have hentered : (hI.bond σ).holds []
        (w.enter (Schema.node facts body groups name path) path (facts.id.toList ++ keys))
        (w.enter (Schema.node facts body groups name path) path (facts.id.toList ++ keys)) :=
      ⟨rfl, by simp [Workshop.enter, Workshop.update, Graph.labels, Graph.push]⟩
    have hprefix := Graph.Invariant.of_ok (Schema.fill_together
      (fun h => Body.build_together hlink body hown hparts _ facts name path h)
      (fun h => Group.buildAll_together hlink groups hmembers facts path h) hentered) h
    obtain rfl := Schema.fill_ok h
    refine ⟨rfl, facts, body, groups, ?_⟩
    have hlength : w.graph.labels.length = w.graph.size := by simp [Graph.labels, Graph.size]
    obtain ⟨more, hmore⟩ := hprefix
    rw [← hmore, ← hlength]
    simp

/-- **A document whose id is not known** and that inherits no name is declared if it has a name. -/
theorem Build.root_declared {node : Node}
    (hnew : (Schema.ofJson schema).facts.id.bind w.graph.find? = none)
    (h : root settings schema none path keys w = .ok id w') (hnode : w'.graph.node? id = some node)
    (hname : node.name ≠ "") : node.declared = true := by
  obtain ⟨-, facts, body, groups, hlabel⟩ := root_label hnew h
  rw [Graph.getElem?_labels, hnode] at hlabel
  have hlabel : node.label = (Schema.node facts body groups none path).label := Option.some.inj hlabel
  have htitle : node.name = Naming.typeName? facts.title := by
    refine (congrArg Label.name hlabel).trans (congrArg Naming.typeName? ?_)
    cases facts.title <;> rfl
  have hdeclared : node.declared = Schema.isDeclared facts body groups none :=
    congrArg Label.declared hlabel
  have hnamed : Naming.typeName? facts.title ≠ "" := htitle ▸ hname
  rw [hdeclared]
  simp [Schema.isDeclared, hnamed]

/-- A label that is kept makes the name of a node, and whether it is declared. -/
theorem Graph.label_kept {g g' : Graph} {n : NodeId} {node : Node} (h : g.labels <+: g'.labels)
    (hnode : g.node? n = some node) :
    g'.isDeclared n = node.declared ∧ g'.nameOf n = node.name := by
  have hthen : g.labels[n]? = some node.label := by
    rw [getElem?_labels, hnode]
    rfl
  obtain ⟨more, hmore⟩ := h
  have hnow : g'.labels[n]? = some node.label := by
    rw [← hmore, List.getElem?_append_left (List.getElem?_eq_some_iff.mp hthen).1, hthen]
  rw [getElem?_labels] at hnow
  obtain ⟨node', hnode', hsame⟩ := Option.map_eq_some_iff.mp hnow
  exact ⟨(isDeclared_of_node hnode').trans (congrArg Label.declared hsame),
    (nameOf_of_node hnode').trans (congrArg Label.name hsame)⟩

end

/-! ## Compilations -/

namespace Registry

variable {σ : Type} [Source σ] {r₀ r : Registry σ} {ids : List NodeId} {text : String}

/-- **Building roots in turn** keeps every invariant. -/
theorem buildRoots_keeps {I : Graph → Prop} (hI : Graph.Invariant I) (roots : List Json) :
    ∀ {r r' : Registry σ} {ids : List NodeId}, I r.graph → buildRoots roots r = .ok ids r' →
      I r'.graph := by
  induction roots with
  | nil =>
    intro r r' ids hr h
    cases h
    exact hr
  | cons schema rest ih =>
    intro r r' ids hr h
    obtain ⟨id, w, node, more, hroot, -, -, hmore, -⟩ := buildRoots_cons h
    exact ih (by exact hI.root hr hroot) hmore

namespace Compiled

/-- **Every name is a type name.** -/
theorem exists_typeName (h : r₀.Compiled r ids text) (hf : r₀.Fresh) (n : NodeId) :
    ∃ title, r.graph.nameOf n = Naming.typeName? title := by
  obtain ⟨r₁, hbuild, hgraph⟩ := h.built
  have hlabelled := buildRoots_keeps Graph.labelled_invariant r₀.pending
    (by simp [hf.graph, Graph.labels]) hbuild
  rw [← hgraph] at hlabelled
  cases hnode : r.graph.node? n with
  | none => exact ⟨none, by rw [Graph.nameOf, hnode]; rfl⟩
  | some node =>
    have hmem : node.label ∈ r.graph.labels :=
      List.mem_of_getElem? (by rw [Graph.getElem?_labels, hnode]; rfl)
    obtain ⟨facts, body, groups, name, path, hlabel⟩ := hlabelled _ hmem
    refine ⟨facts.title.orElse fun _ => name, ?_⟩
    rw [Graph.nameOf_of_node hnode]
    exact congrArg Label.name hlabel

/-- **The first root is the first node**, and it is declared under a name. -/
theorem first_root (h : r₀.Compiled r ids text) (hf : r₀.Fresh) (hpending : r₀.pending ≠ []) :
    ∃ more, ids = 0 :: more ∧ r.graph.isDeclared 0 = true ∧ r.graph.nameOf 0 ≠ "" := by
  obtain ⟨r₁, hbuild, hgraph⟩ := h.built
  obtain ⟨schema, rest, hroots⟩ := List.exists_cons_of_ne_nil hpending
  rw [hroots] at hbuild
  obtain ⟨id, w, node, more, hroot, hnode, hname, hmore, rfl⟩ := buildRoots_cons hbuild
  have hempty : r₀.workshop.graph = {} := hf.graph
  have hnew : (Schema.ofJson schema).facts.id.bind r₀.workshop.graph.find? = none := by
    rw [hempty]
    cases (Schema.ofJson schema).facts.id <;> rfl
  have hdeclared := Build.root_declared hnew hroot hnode hname
  obtain ⟨rfl, -⟩ := Build.root_label hnew hroot
  have hzero : r₀.workshop.graph.size = 0 := by rw [hempty]; rfl
  rw [hzero] at hnode ⊢
  have hprefix := buildRoots_keeps (Graph.labels_invariant w.graph.labels) rest
    (by exact List.prefix_refl _) hmore
  rw [← hgraph] at hprefix
  obtain ⟨hdecl, hfirst⟩ := Graph.label_kept hprefix hnode
  exact ⟨more, rfl, hdecl.trans hdeclared, hfirst ▸ hname⟩

end Compiled

end Registry

end TypeScribe
