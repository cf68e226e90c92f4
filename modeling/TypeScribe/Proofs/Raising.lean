import TypeScribe.Proofs.Budget
import TypeScribe.Proofs.Spelling

/-!
# Constructions looked back at

When a graph is done, each of its nodes was built at some time. A schema has been **raised** at a node of a
graph (`Schema.Raised`) if some construction of it came to this node, and the graph has kept the nodes that
were new then, and the keys.

A fragment that has been raised is known by its id, or has a node of its own, and then its parts and its
members have been raised at the nodes that its node holds, and its reference was resolved
(`Schema.Raised.unfold`). Every number that the construction took belongs to the node, to one of these, or to
a document that the reference called for. So no node is left alone: whatever is new has been raised below the
node that the construction came to (`Schema.Raised.leads`).
-/

namespace TypeScribe

/-! ## Graphs that keep nodes -/

namespace Graph

/-- **The nodes of a graph are kept in another**, from the number `first` on, and so are its keys. -/
structure KeptIn (first : Nat) (g g' : Graph) : Prop where
  nodes : ∀ n, first ≤ n → n < g.size → g'.node? n = g.node? n
  table : ∀ key n, g.find? key = some n → g'.find? key = some n

variable {first first' : Nat} {g g' g'' : Graph} {but : Option NodeId}

theorem KeptIn.refl (first : Nat) (g : Graph) : g.KeptIn first g := ⟨fun _ _ _ => rfl, fun _ _ h => h⟩

/-- What is kept of a graph that has grown is kept of the one before, but for the excepted node. -/
theorem KeptIn.before (h : g'.KeptIn first g'') (hgrows : Grows but g g') (hfirst : first ≤ first')
    (hbut : ∀ id, but = some id → id < first') : g.KeptIn first' g'' where
  nodes n hn hlt := by
    have hne : but ≠ some n := fun he => Nat.not_lt.mpr hn (hbut n he)
    rw [h.nodes n (Nat.le_trans hfirst hn) (Nat.lt_of_lt_of_le hlt hgrows.size), hgrows.kept n hlt hne]
  table key n hfind := h.table key n (hgrows.table key n hfind)

/-- A node that is entered under keys is found there; the empty key is no key. -/
theorem find_bindAll {id : NodeId} {key : String} (hkey : key ≠ "") (keys : List String) :
    ∀ g : Graph, (key ∈ keys ∨ g.find? key = some id) → (g.bindAll id keys).find? key = some id := by
  induction keys with
  | nil =>
    rintro g (hmem | hfind)
    · cases hmem
    · exact hfind
  | cons k rest ih =>
    intro g h
    rw [bindAll]
    refine ih _ ?_
    by_cases hk : key = k
    · subst hk
      rw [if_neg hkey, find_bind, if_pos rfl]
      exact Or.inr rfl
    · refine h.imp (fun hmem => (List.mem_cons.mp hmem).resolve_left hk) fun hfind => ?_
      split
      · exact hfind
      · rw [find_bind, if_neg hk, hfind]

variable {node : Node} {i n : NodeId}

theorem leads_of_member (h : g.node? i = some node)
    (hn : n ∈ node.augmentations.flatMap Augmentation.members) : g.Leads i n :=
  ⟨_, arrow_of_member h (Node.mem_members.mpr (List.mem_flatMap.mp hn)), rfl⟩

theorem leads_of_child (h : g.node? i = some node) (hn : n ∈ node.shape.children) : g.Leads i n := by
  refine ⟨⟨i, n, false⟩, arrow_of_shape h ?_, rfl⟩
  cases hshape : node.shape <;> rw [hshape] at hn
  case reference => cases hn
  all_goals exact List.mem_map.mpr ⟨n, hn, rfl⟩

/-- A reference leads to the node that its key stands for. -/
theorem leads_of_target (h : g.node? i = some node) {ref key : String} (hshape : node.shape = .reference ref key)
    (hfind : g.find? key = some n) : g.Leads i n := by
  refine ⟨⟨i, n, true⟩, arrow_of_shape h ?_, rfl⟩
  rw [hshape, shapeArrows, hfind]
  exact List.mem_singleton_self _

end Graph

/-- A node that is entered is new until its parts are built. -/
theorem Workshop.enter_grows {σ : Type} {w : Workshop σ} (node : Node) (path : String) {keys : List String}
    (hkeys : ∀ key ∈ keys, w.graph.find? key = none) :
    Graph.Grows (some w.graph.size) w.graph (w.enter node path keys).graph ∧
      (w.enter node path keys).graph.node? w.graph.size = some node :=
  Build.enter_grows hkeys
    (Build.registerAll_apply w.graph.size path keys { w with graph := w.graph.push node })

/-! ## Raised schemas -/

section

variable {σ : Type} (link : String → Build σ Link) (g : Graph)

/-- **A schema has been raised** at a node: a construction came to it that took the numbers from `first` up to
`last`, and the graph has kept what was new then. -/
inductive Schema.Raised (s : Schema) (name : Option String) (keys : List String) (n : NodeId) :
    (first last : Nat) → Prop where
  | intro {path : String} {w w' : Workshop σ} (ranged : w.graph.Ranged)
      (unknown : ∀ key ∈ keys, w.graph.find? key = none)
      (built : s.build link name path keys w = .ok n w') (kept : w'.graph.KeptIn w.graph.size g) :
      Schema.Raised s name keys n w.graph.size w'.graph.size

/-- A reference has been resolved, and the numbers from `first` up to `last` were taken for it. -/
inductive Link.Made (ref : String) (l : Link) : (first last : Nat) → Prop where
  | intro {w w' : Workshop σ} (ranged : w.graph.Ranged) (made : link ref w = .ok l w')
      (kept : w'.graph.KeptIn w.graph.size g) : Link.Made ref l w.graph.size w'.graph.size

/-- **Schemas have been raised one after the other**, from `first` up to `last`: each at one of the nodes, and
each number was taken by one of them. -/
structure RaisedAll (schemas : List (Schema × Option String)) (ids : List NodeId) (first last : Nat) :
    Prop where
  each : ∀ p ∈ schemas, ∃ n ∈ ids, ∃ first' last', p.1.Raised link g p.2 [] n first' last'
  covered : ∀ k, first ≤ k → k < last → ∃ p ∈ schemas, ∃ n ∈ ids, ∃ first' last',
    p.1.Raised link g p.2 [] n first' last' ∧ first' ≤ k ∧ k < last'

end

namespace RaisedAll

variable {σ : Type} {link : String → Build σ Link} {g : Graph}

theorem nil (first : Nat) : RaisedAll link g [] [] first first :=
  ⟨by simp, fun _ hle hlt => absurd hlt (Nat.not_lt.mpr hle)⟩

/-- One schema more, in front of the others. -/
theorem cons {p : Schema × Option String} {n : NodeId} {first middle last : Nat}
    {schemas : List (Schema × Option String)} {ids : List NodeId}
    (hp : p.1.Raised link g p.2 [] n first middle) (h : RaisedAll link g schemas ids middle last) :
    RaisedAll link g (p :: schemas) (n :: ids) first last where
  each q hq := by
    rcases List.mem_cons.mp hq with rfl | hq
    · exact ⟨n, List.mem_cons_self .., first, middle, hp⟩
    · obtain ⟨m, hm, hraised⟩ := h.each q hq
      exact ⟨m, List.mem_cons_of_mem _ hm, hraised⟩
  covered k hle hlt := by
    by_cases hk : k < middle
    · exact ⟨p, List.mem_cons_self .., n, List.mem_cons_self .., first, middle, hp, hle, hk⟩
    · obtain ⟨q, hq, m, hm, hraised⟩ := h.covered k (Nat.le_of_not_lt hk) hlt
      exact ⟨q, List.mem_cons_of_mem _ hq, m, List.mem_cons_of_mem _ hm, hraised⟩

/-- Schemas after others. -/
theorem append {first middle last : Nat} {schemas schemas' : List (Schema × Option String)}
    {ids ids' : List NodeId} (h : RaisedAll link g schemas ids first middle)
    (h' : RaisedAll link g schemas' ids' middle last) :
    RaisedAll link g (schemas ++ schemas') (ids ++ ids') first last where
  each p hp := by
    rcases List.mem_append.mp hp with hp | hp
    · obtain ⟨n, hn, hraised⟩ := h.each p hp
      exact ⟨n, List.mem_append_left _ hn, hraised⟩
    · obtain ⟨n, hn, hraised⟩ := h'.each p hp
      exact ⟨n, List.mem_append_right _ hn, hraised⟩
  covered k hle hlt := by
    by_cases hk : k < middle
    · obtain ⟨p, hp, n, hn, hraised⟩ := h.covered k hle hk
      exact ⟨p, List.mem_append_left _ hp, n, List.mem_append_left _ hn, hraised⟩
    · obtain ⟨p, hp, n, hn, hraised⟩ := h'.covered k (Nat.le_of_not_lt hk) hlt
      exact ⟨p, List.mem_append_right _ hp, n, List.mem_append_right _ hn, hraised⟩

end RaisedAll

/-- The schemas right inside a body, with the names that they are built under. -/
def Body.named (name : Option String) : Body → List (Schema × Option String)
  | .choice alternatives => alternatives.map fun s => (s, none)
  | .array items => [(items, name)]
  | .object _ properties => properties.map fun p => (p.2, some p.1)
  | _ => []

/-- The members of groups, which are built without a name. -/
def Group.unnamed (groups : List Group) : List (Schema × Option String) :=
  groups.flatMap fun group => group.parts.map fun s => (s, none)

/-- Parts that take a name along are parts of the body. -/
theorem Body.mem_parts {body : Body} {name : Option String} {p : Schema × Option String}
    (h : p ∈ body.named name) : p.1 ∈ body.parts := by
  cases body <;> simp only [named, parts, List.mem_map, List.mem_singleton, List.not_mem_nil] at h ⊢
  case choice =>
    obtain ⟨s, hs, rfl⟩ := h
    exact hs
  case array => rw [h]
  case object =>
    obtain ⟨p, hp, rfl⟩ := h
    exact ⟨p, hp, rfl⟩

theorem Group.mem_parts {groups : List Group} {p : Schema × Option String} (h : p ∈ Group.unnamed groups) :
    p.2 = none ∧ ∃ group ∈ groups, p.1 ∈ group.parts := by
  obtain ⟨group, hgroup, hp⟩ := List.mem_flatMap.mp h
  obtain ⟨s, hs, rfl⟩ := List.mem_map.mp hp
  exact ⟨rfl, group, hgroup, hs⟩

/-- What is known of all fragments of a document makes it orderly. -/
theorem Schema.Every.orderly {refers : String → Prop} {s : Schema} (h : s.Refers refers) : s.Orderly := by
  induction h with
  | unsupported facts => exact .unsupported facts
  | fragment own _ _ parts members =>
    obtain ⟨⟨-, -⟩, -⟩ := own
    exact .fragment _ (Body.orderly parts) (keywords_groupsOf _) fun group hgroup =>
      Group.orderly (members group hgroup)

section

variable {σ : Type} {link : String → Build σ Link} {g : Graph}

/-- Schemas that are built one after the other are raised. -/
theorem Schema.buildAll_raised (hlink : Links link) (schemas : List Schema) :
    (∀ s ∈ schemas, s.Orderly) → ∀ {path : String} {index : Nat} {w w' : Workshop σ} {ids : List NodeId},
      w.graph.Ranged → Schema.buildAll link schemas path index w = .ok ids w' →
      w'.graph.KeptIn w.graph.size g →
      RaisedAll link g (schemas.map fun s => (s, none)) ids w.graph.size w'.graph.size := by
  induction schemas with
  | nil =>
    intro _ path index w w' ids _ h _
    cases h
    exact .nil _
  | cons s rest ih =>
    intro hs path index w w' ids hr h hkept
    obtain ⟨n, w₁, hone, h⟩ := ok_of_bind h
    obtain ⟨more, w₂, hmore, h⟩ := ok_of_bind h
    cases h
    have horderly := hs s (List.mem_cons_self ..)
    have hrest : ∀ s ∈ rest, s.Orderly := fun s hmem => hs s (List.mem_cons_of_mem _ hmem)
    obtain ⟨hgrows, -⟩ := Schema.build_grows hlink s horderly hr (by simp) hone
    obtain ⟨hgrows', -⟩ := Schema.buildAll_grows hlink rest hrest (hgrows.ranged hr) hmore
    have hkept₁ := hkept.before hgrows' (Nat.le_refl _) (by simp)
    have hkept₂ := hkept.before (.refl none _) hgrows.size (by simp)
    exact .cons (.intro hr (by simp) hone hkept₁) (ih hrest (hgrows.ranged hr) hmore hkept₂)

/-- Properties that are built one after the other are raised at the types of the fields that are added. -/
theorem Body.buildFields_raised (hlink : Links link) {required : List String} {path : String} {id : NodeId}
    (properties : List (String × Schema)) : (∀ p ∈ properties, p.2.Orderly) →
    ∀ {w w' : Workshop σ} {node : Node} {fields : List Field} {u : Unit}, w.graph.Ranged →
      w.graph.node? id = some node → node.shape = .object fields → node.augmentations = [] →
      w.graph.Complete node → Body.buildFields link required properties id path w = .ok u w' →
      w'.graph.KeptIn (id + 1) g →
      ∃ more, w'.graph.node? id = some { node with shape := .object (fields ++ more) } ∧
        RaisedAll link g (properties.map fun p => (p.2, some p.1)) (more.map Field.type) w.graph.size
          w'.graph.size := by
  induction properties with
  | nil =>
    intro _ w w' node fields u _ hnode hshape _ _ h _
    cases h
    refine ⟨[], ?_, .nil _⟩
    rw [hnode, List.append_nil, ← hshape]
  | cons p rest ih =>
    intro hp w w' node fields u hr hnode hshape haug hc h hkept
    obtain ⟨type, w₁, htype, h⟩ := ok_of_bind h
    obtain ⟨_, w₂, hfield, h⟩ := ok_of_bind h
    have horderly := hp p (List.mem_cons_self ..)
    have hrest : ∀ p ∈ rest, p.2.Orderly := fun p hmem => hp p (List.mem_cons_of_mem _ hmem)
    obtain ⟨hgrows, hlt⟩ := Schema.build_grows hlink p.2 horderly hr (by simp) htype
    obtain ⟨hgrows₂, hnode₂, hc₂⟩ := Build.addField_grows hgrows hnode hshape haug hc hlt hfield
    have hgrows₃ := (Body.buildFields_grows hlink rest hrest (hgrows₂.ranged hr) hnode₂ rfl haug hc₂ h).1
    obtain ⟨more, hnode', hraised⟩ := ih hrest (hgrows₂.ranged hr) hnode₂ rfl haug hc₂ h hkept
    have hid := Graph.lt_size_of_node hnode
    have hchange : Graph.Grows (some id) w₁.graph w₂.graph := by
      cases hfield
      exact .adjust ..
    have hsize : w₂.graph.size = w₁.graph.size := by
      cases hfield
      simp [Graph.size, Graph.adjust]
    have hkept₁ : w₁.graph.KeptIn w.graph.size g := by
      refine hkept.before (hchange.trans hgrows₃) hid ?_
      rintro n ⟨⟩
      exact hid
    refine ⟨⟨p.1, type, required.contains p.1⟩ :: more, by simpa using hnode', ?_⟩
    rw [hsize] at hraised
    exact .cons (.intro hr (by simp) htype hkept₁) hraised

/-- The members of groups are raised. -/
theorem Group.buildAll_raised (hlink : Links link) (groups : List Group) :
    (∀ group ∈ groups, group.Orderly) → ∀ {facts : Facts} {path : String} {w w' : Workshop σ}
      {augmentations : List Augmentation}, w.graph.Ranged →
      Group.buildAll link groups facts path w = .ok augmentations w' → w'.graph.KeptIn w.graph.size g →
      RaisedAll link g (Group.unnamed groups) (augmentations.flatMap Augmentation.members) w.graph.size
        w'.graph.size := by
  induction groups with
  | nil =>
    intro _ facts path w w' augmentations _ h _
    cases h
    exact .nil _
  | cons group rest ih =>
    intro hg facts path w w' augmentations hr h hkept
    cases group with
    | malformed keyword => cases h
    | members keyword schemas =>
      obtain ⟨members, w₁, hone, h⟩ := ok_of_bind h
      obtain ⟨more, w₂, hmore, h⟩ := ok_of_bind h
      cases h
      cases hg _ (List.mem_cons_self ..) with
      | members _ hschemas =>
        have hrest : ∀ group ∈ rest, group.Orderly := fun group hmem => hg group (List.mem_cons_of_mem _ hmem)
        obtain ⟨hgrows, -⟩ := Schema.buildAll_grows hlink schemas hschemas hr hone
        obtain ⟨hgrows', -⟩ := Group.buildAll_grows hlink rest hrest (hgrows.ranged hr) hmore
        have hkept₁ := hkept.before hgrows' (Nat.le_refl _) (by simp)
        have hkept₂ := hkept.before (.refl none _) hgrows.size (by simp)
        exact .append (Schema.buildAll_raised hlink schemas hschemas hr hone hkept₁)
          (ih hrest (hgrows.ranged hr) hmore hkept₂)

end

section

variable {σ : Type} (link : String → Build σ Link) (g : Graph)

/-- **A body has been raised** as a shape: its parts at the nodes that the shape holds, or its reference as the
link that it was resolved to. -/
inductive Body.Raised : Body → (name : Option String) → Shape → (first last : Nat) → Prop where
  | parts {body : Body} {name : Option String} {shape : Shape} {first last : Nat}
      (plain : ∀ ref, body ≠ .reference ref)
      (all : RaisedAll link g (body.named name) shape.children first last) : Body.Raised body name shape first last
  | reference {ref : String} {name : Option String} {l : Link} {first last : Nat}
      (made : Link.Made link g ref l first last) :
      Body.Raised (.reference (some ref)) name (.reference l.ref l.target) first last

/-- **A fragment has been raised at a node of its own**: the node is known under its keys, and holds what its
parts and its members have been raised at. -/
structure Schema.RaisedAnew (facts : Facts) (body : Body) (groups : List Group) (name : Option String)
    (keys : List String) (n : NodeId) (first last : Nat) : Prop where
  number : n = first
  keyed : ∀ key ∈ facts.id.toList ++ keys, key ≠ "" → g.find? key = some n
  node : ∃ path shape augmentations middle,
    g.node? n = some { Schema.node facts body groups name path with shape, augmentations } ∧
    body.Raised link g name shape (first + 1) middle ∧
    RaisedAll link g (Group.unnamed groups) (augmentations.flatMap Augmentation.members) middle last

end

section

variable {σ : Type} {link : String → Build σ Link} {g : Graph}

/-- The parts of a node that are built are raised as its shape. -/
theorem Body.build_raised (hlink : Links link) {body : Body} (hb : body.Orderly) {facts : Facts}
    {name : Option String} {path : String} {w w' : Workshop σ} {id : NodeId} {node : Node} {u : Unit}
    (hr : w.graph.Ranged) (hnode : w.graph.node? id = some node) (hshape : node.shape = .unbuilt body)
    (haug : node.augmentations = []) (h : body.build link id facts name path w = .ok u w')
    (hkept : w'.graph.KeptIn (id + 1) g) :
    ∃ shape, w'.graph.node? id = some { node with shape } ∧
      body.Raised link g name shape w.graph.size w'.graph.size := by
  have hid := Graph.lt_size_of_node hnode
  have hreshape : ∀ {w₁ : Workshop σ} {shape : Shape}, Graph.Grows none w.graph w₁.graph →
      Build.reshape id shape w₁ = .ok u w' → w₁.graph.KeptIn w.graph.size g ∧
        w'.graph.node? id = some { node with shape } ∧ w'.graph.size = w₁.graph.size := by
    intro w₁ shape hgrows h
    rw [← hgrows.kept id hid (by simp)] at hnode
    cases h
    refine ⟨hkept.before (.adjust _ id _) hid ?_, Graph.node_adjust hnode, by simp [Graph.size, Graph.adjust]⟩
    rintro n ⟨⟩
    exact hid
  cases body with
  | scalar s =>
    cases h
    exact ⟨node.shape, hnode, .parts (by simp) (hshape ▸ .nil _)⟩
  | composite =>
    cases h
    exact ⟨node.shape, hnode, .parts (by simp) (hshape ▸ .nil _)⟩
  | choice alternatives =>
    cases hb with
    | choice parts =>
      obtain ⟨ids, w₁, hall, h⟩ := ok_of_bind h
      obtain ⟨hkept₁, hnode', hsize⟩ := hreshape (Schema.buildAll_grows hlink alternatives parts hr hall).1 h
      refine ⟨_, hnode', .parts (by simp) ?_⟩
      rw [hsize]
      exact Schema.buildAll_raised hlink alternatives parts hr hall hkept₁
  | array items =>
    cases hb with
    | array part =>
      obtain ⟨item, w₁, hitem, h⟩ := ok_of_bind h
      obtain ⟨hkept₁, hnode', hsize⟩ := hreshape (Schema.build_grows hlink items part hr (by simp) hitem).1 h
      refine ⟨_, hnode', .parts (by simp) ?_⟩
      rw [hsize]
      exact .cons (.intro hr (by simp) hitem hkept₁) (.nil _)
  | object required properties =>
    cases hb with
    | object _ parts =>
      have hc : w.graph.Complete node := .plain haug (by simp [hshape, Shape.unbuilt, Shape.children])
        (by simp [hshape, Shape.unbuilt]) (by simp [hshape, Shape.unbuilt])
      obtain ⟨fields, hnode', hraised⟩ :=
        Body.buildFields_raised hlink properties parts hr hnode hshape haug hc h hkept
      exact ⟨_, hnode', .parts (by simp) hraised⟩
  | broken defect => cases h
  | reference ref =>
    cases ref with
    | none => cases h
    | some ref =>
      obtain ⟨l, w₁, hl, h⟩ := ok_of_bind h
      obtain ⟨hkept₁, hnode', hsize⟩ := hreshape (hlink hr hl).1 h
      refine ⟨_, hnode', ?_⟩
      rw [hsize]
      exact .reference (.intro hr hl hkept₁)

/-- The body and the groups of an orderly fragment are orderly. -/
theorem Schema.Orderly.inside {facts : Facts} {body : Body} {groups : List Group}
    (h : (Schema.fragment facts body groups).Orderly) : body.Orderly ∧ ∀ group ∈ groups, group.Orderly := by
  cases h with
  | fragment _ hbody _ hmembers => exact ⟨hbody, hmembers⟩

/-- **A fragment that has been raised** is known by its id, and took no number; or it has a node of its own. -/
theorem Schema.Raised.unfold (hlink : Links link) {facts : Facts} {body : Body} {groups : List Group}
    (hs : (Schema.fragment facts body groups).Orderly) {name : Option String} {keys : List String}
    {n : NodeId} {first last : Nat}
    (h : (Schema.fragment facts body groups).Raised link g name keys n first last) :
    (facts.id.bind g.find? = some n ∧ first = last) ∨
      Schema.RaisedAnew link g facts body groups name keys n first last := by
  obtain @⟨path, w, w', hr, hkeys, hbuilt, hkept⟩ := h
  cases hknown : facts.id.bind w.graph.find? with
  | some id =>
    rw [Schema.build_known (.fragment facts body groups) hknown] at hbuilt
    cases hbuilt
    obtain ⟨key, hid, hfind⟩ := Option.bind_eq_some_iff.mp hknown
    exact Or.inl ⟨Option.bind_eq_some_iff.mpr ⟨key, hid, hkept.table key n hfind⟩, rfl⟩
  | none =>
    obtain ⟨hbody, hmembers⟩ := hs.inside
    rw [Schema.build_new hknown] at hbuilt
    obtain ⟨_, w₁, hparts, h⟩ := ok_of_bind hbuilt
    obtain ⟨augmentations, w₂, hgroups, h⟩ := ok_of_bind h
    obtain ⟨_, w₃, haugment, h⟩ := ok_of_bind h
    cases h
    have hunknown : ∀ key ∈ facts.id.toList ++ keys, w.graph.find? key = none := by
      intro key hkey
      rcases List.mem_append.mp hkey with hkey | hkey
      · rw [Option.mem_toList.mp hkey] at hknown
        exact hknown
      · exact hkeys key hkey
    obtain ⟨henter, hnode⟩ := Workshop.enter_grows (Schema.node facts body groups name path) path hunknown
    have hr₀ := henter.ranged hr
    obtain ⟨hgrows₁, -⟩ := Body.build_grows hlink body hbody hr₀ hnode rfl rfl hparts
    have hr₁ := hgrows₁.ranged hr₀
    obtain ⟨hgrows₂, -⟩ := Group.buildAll_grows hlink groups hmembers hr₁ hgroups
    obtain ⟨hgrows₃, hsize⟩ : Graph.Grows (some w.graph.size) w₂.graph w'.graph ∧
        w'.graph.size = w₂.graph.size := by
      cases haugment
      exact ⟨.adjust .., by simp [Graph.size, Graph.adjust]⟩
    -- what comes behind the node is kept from the start
    have hentered : (w.enter (Schema.node facts body groups name path) path (facts.id.toList ++ keys)).graph.size =
        w.graph.size + 1 := by
      simp [Workshop.enter, Workshop.update, Graph.size, Graph.push]
    have hkept₂ : w₂.graph.KeptIn (w.graph.size + 1) g := by
      refine hkept.before hgrows₃ (Nat.le_succ _) ?_
      rintro n ⟨⟩
      exact Nat.lt_succ_self _
    have hkept₁ := hkept₂.before hgrows₂ (Nat.le_refl _) (by simp)
    have hbehind := hkept₂.before (.refl none _) (hentered ▸ hgrows₁.size) (by simp)
    obtain ⟨shape, hnode₁, hraised⟩ := Body.build_raised hlink hbody hr₀ hnode rfl rfl hparts hkept₁
    rw [hentered] at hraised
    refine Or.inr ⟨rfl, ?_, path, shape, augmentations, w₁.graph.size, ?_, hraised, ?_⟩
    · intro key hkey hne
      refine hkept.table key _ (hgrows₃.table key _ (hgrows₂.table key _ (hgrows₁.table key _ ?_)))
      exact Graph.find_bindAll hne _ _ (Or.inl hkey)
    · rw [← hgrows₂.kept _ (Graph.lt_size_of_node hnode₁) (by simp)] at hnode₁
      have hnode₃ : w'.graph.node? w.graph.size =
          some { Schema.node facts body groups name path with shape, augmentations } := by
        cases haugment
        exact Graph.node_adjust hnode₁
      rw [hkept.nodes _ (Nat.le_refl _) (Graph.lt_size_of_node hnode₃), hnode₃]
    · rw [hsize]
      exact Group.buildAll_raised hlink groups hmembers hr₁ hgroups hbehind

/-- A fragment of no kind is known by its id. -/
theorem Schema.Raised.of_unsupported {facts : Facts} {name : Option String} {keys : List String} {n : NodeId}
    {first last : Nat} (h : (Schema.unsupported facts).Raised link g name keys n first last) :
    facts.id.bind g.find? = some n ∧ first = last := by
  obtain @⟨path, w, w', -, -, hbuilt, hkept⟩ := h
  cases hknown : facts.id.bind w.graph.find? with
  | none =>
    rw [Schema.build_unsupported hknown] at hbuilt
    cases hbuilt
  | some id =>
    rw [Schema.build_known (.unsupported facts) hknown] at hbuilt
    cases hbuilt
    obtain ⟨key, hid, hfind⟩ := Option.bind_eq_some_iff.mp hknown
    exact ⟨Option.bind_eq_some_iff.mpr ⟨key, hid, hkept.table key n hfind⟩, rfl⟩

/-- What took a number is known under its keys. -/
theorem Schema.Raised.found (hlink : Links link) {s : Schema} (hs : s.Orderly) {name : Option String}
    {keys : List String} {n : NodeId} {first last : Nat} (h : s.Raised link g name keys n first last)
    (hlt : first < last) {key : String} (hkey : key ∈ keys) (hne : key ≠ "") : g.find? key = some n := by
  cases s with
  | unsupported facts => exact absurd h.of_unsupported.2 (Nat.ne_of_lt hlt)
  | fragment facts body groups =>
    rcases h.unfold hlink hs with ⟨-, hsame⟩ | hanew
    · exact absurd hsame (Nat.ne_of_lt hlt)
    · exact hanew.keyed key (List.mem_append_right _ hkey) hne

end

/-! ## No node is left alone -/

/-- A link is made to its key. -/
theorem Build.link_of_linkTo {σ : Type} {ref key : String} {l : Link} {w w' : Workshop σ}
    (h : linkTo ref key w = .ok l w') : l = ⟨ref, key⟩ := by
  rw [linkTo_eq] at h
  split at h
  · cases h
  · split at h
    · cases h
    · split at h <;> cases h
      rfl

section

variable {σ : Type} [Source σ] {settings : Settings} {g : Graph}

/-- The key of a link is its reference, or the location of its reference. -/
theorem Link.Made.key {budget : Nat} {ref : String} {l : Link} {first last : Nat}
    (h : l.Made (Build.resolve settings budget : String → Build σ Link) g ref first last) :
    l.ref = ref ∧ (l.target = ref ∨ settings.locate ref = .ok l.target) := by
  obtain ⟨-, hmade, -⟩ := h
  obtain ⟨key, hkey, hcases⟩ := Build.resolve_ok hmade
  have hl : l = ⟨ref, key⟩ := by
    rcases hcases with ⟨-, -, hto⟩ | ⟨-, _, _, _, _, -, -, -, -, hto⟩ <;> exact Build.link_of_linkTo hto
  subst hl
  refine ⟨rfl, ?_⟩
  rw [Graph.keyOf] at hkey
  split at hkey
  · exact Or.inl (Except.ok.inj hkey).symm
  · exact Or.inr hkey

/-- The nodes that were new when a reference was resolved are below the node that it leads to, if those of a
document are below its root. -/
theorem Link.Made.leads (hfull : ∀ ref, ¬ settings.Hollow ref) {budget : Nat}
    (hdocument : ∀ less, budget = less + 1 → ∀ {v : Json} {keys : List String} {n : NodeId} {first last : Nat},
      (Schema.ofJson v).Raised (Build.resolve settings less : String → Build σ Link) g none keys n first last →
      ∀ k, first ≤ k → k < last → Relation.ReflTransGen g.Leads n k)
    {ref : String} {l : Link} {first last : Nat}
    (h : l.Made (Build.resolve settings budget : String → Build σ Link) g ref first last) {k : NodeId}
    (hle : first ≤ k) (hlt : k < last) :
    ∃ t, g.find? l.target = some t ∧ Relation.ReflTransGen g.Leads t k := by
  obtain @⟨w, w', hr, hmade, hkept⟩ := h
  obtain ⟨key, hkey, ⟨-, rfl, -⟩ | ⟨hnew, less, fields, id, w₁, hbudget, -, hbuild, rfl, hto⟩⟩ :=
    Build.resolve_ok hmade
  · exact absurd hlt (Nat.not_lt.mpr hle)
  · have hne : key ≠ "" := by
      rintro rfl
      exact hfull ref (Graph.locate_of_keyOf hkey hnew)
    obtain rfl := Build.link_of_linkTo hto
    have hlinks : Links (Build.resolve settings less : String → Build σ Link) := Build.resolve_links settings less
    have hr : (w.asking ref key).graph.Ranged := hr
    have hunknown : ∀ k ∈ [key], (w.asking ref key).graph.find? k = none := by
      simpa [Graph.knows, Workshop.asking] using hnew
    obtain ⟨-, hid⟩ := Schema.build_grows hlinks _ (Schema.ofJson_orderly _) hr hunknown hbuild
    have hbind : Graph.Grows none w₁.graph (w₁.bound key id).graph :=
      Build.bindNew_grows hid (Build.onGraph_apply _ w₁)
    have hraised : (Schema.ofJson (.obj fields)).Raised (Build.resolve settings less) g none [key] id
        (w.asking ref key).graph.size w₁.graph.size :=
      .intro hr hunknown hbuild (hkept.before hbind (Nat.le_refl _) (by simp))
    have hlt : k < w₁.graph.size := by
      refine Nat.lt_of_lt_of_eq hlt ?_
      rw [Workshop.bound, Workshop.update]
      dsimp only
      split <;> rfl
    refine ⟨id, ?_, hdocument less hbudget hraised k hle hlt⟩
    exact hraised.found hlinks (Schema.ofJson_orderly _) (Nat.lt_of_le_of_lt hle hlt)
      (List.mem_singleton_self key) hne

/-- **No node is left alone**: what was new when a schema was built is below the node that it was raised at,
unless a reference is hollow. -/
theorem Schema.Raised.leads (hfull : ∀ ref, ¬ settings.Hollow ref) (budget : Nat) :
    ∀ {s : Schema}, s.Refers (fun _ => True) → ∀ {name : Option String} {keys : List String} {n : NodeId}
      {first last : Nat},
      s.Raised (Build.resolve settings budget : String → Build σ Link) g name keys n first last →
      ∀ k, first ≤ k → k < last → Relation.ReflTransGen g.Leads n k := by
  induction budget using Nat.strongRecOn with
  | _ budget ih =>
    intro s hs
    have hlinks : Links (Build.resolve settings budget : String → Build σ Link) :=
      Build.resolve_links settings budget
    have hdocument : ∀ less, budget = less + 1 → ∀ {v : Json} {keys : List String} {n : NodeId}
        {first last : Nat}, (Schema.ofJson v).Raised (Build.resolve settings less : String → Build σ Link) g none
          keys n first last → ∀ k, first ≤ k → k < last → Relation.ReflTransGen g.Leads n k := by
      intro less hless v
      exact ih less (by omega) (Schema.ofJson_refers fun _ _ => trivial)
    induction hs with
    | unsupported facts =>
      intro name keys n first last h k hle hlt
      exact absurd h.of_unsupported.2 (Nat.ne_of_lt (Nat.lt_of_le_of_lt hle hlt))
    | @fragment facts body groups own parts members ihparts ihmembers =>
      intro name keys n first last h k hle hlt
      have horderly := Schema.Every.orderly (.fragment own parts members)
      rcases h.unfold hlinks horderly with ⟨-, hsame⟩ | hanew
      · exact absurd hsame (Nat.ne_of_lt (Nat.lt_of_le_of_lt hle hlt))
      obtain ⟨path, shape, augmentations, middle, hnode, hbody, hgroups⟩ := hanew.node
      by_cases hk : k = first
      · rw [hk, ← hanew.number]
      by_cases hmiddle : k < middle
      · cases hbody with
        | parts _ all =>
          obtain ⟨p, hp, m, hm, first', last', hraised, hle', hlt'⟩ := all.covered k (by omega) hmiddle
          exact .head (Graph.leads_of_child hnode hm)
            (ihparts p.1 (Body.mem_parts hp) hraised k hle' hlt')
        | reference made =>
          obtain ⟨t, hfind, hpath⟩ := made.leads hfull hdocument (by omega : first + 1 ≤ k) hmiddle
          exact .head (Graph.leads_of_target hnode rfl hfind) hpath
      · obtain ⟨p, hp, m, hm, first', last', hraised, hle', hlt'⟩ := hgroups.covered k (by omega) hlt
        obtain ⟨-, group, hgroup, hpart⟩ := Group.mem_parts hp
        exact .head (Graph.leads_of_member hnode hm) (ihmembers group hgroup p.1 hpart hraised k hle' hlt')

end

end TypeScribe
