import TypeScribe.Proofs.Appending
import TypeScribe.Proofs.Raising

/-!
# A root compiled twice adds nothing

A root that has been built before is built again, and gets nodes of its own where its fragments have no id. Yet
every one of them **repeats** a node that is there (`Node.Repeats`): it would be declared in the same case and by
the same name, and whatever it holds is a repetition, or one of the nodes that the roots before lead to.

* **Fragments.** A fragment with an id is known the second time. Any other repeats the node that it was raised
  at the first time, by induction on the schema (`Schema.Raised.again`).
* **References.** A reference whose key was found the first time needs no document the second time. Its key may
  still be another one, if its text has become known in between. Then a root directory is set, so no reference
  is hollow and every node is below some root (`Territory`).
* **Names.** So all that is converted anew has a name that is there already, and is dropped
  (`compile_repeated`).
-/

namespace TypeScribe

/-! ## Repetitions -/

section

variable (g : Graph) (reached : NodeId → Prop)

/-- **A node repeats one** of those that are reached: it is declared as that one is and by the same name, and
what it holds is reached or new. -/
structure Node.Repeats (node : Node) : Prop where
  model : ∃ n model, reached n ∧ g.node? n = some model ∧ node.name = model.name ∧ node.declared = model.declared
  held : ∀ n ∈ node.children, reached n ∨ g.size ≤ n
  target : ∀ ref key n, node.shape = .reference ref key → g.find? key = some n → reached n

/-- **A graph grows by repetitions**, but for one node, and knows no more keys than before. -/
structure Graph.Repeats (but : Option NodeId) (v v' : Graph) : Prop where
  size : v.size ≤ v'.size
  table : v'.table = v.table
  kept : ∀ n, n < v.size → but ≠ some n → v'.node? n = v.node? n
  fresh : ∀ n node, v.size ≤ n → but ≠ some n → v'.node? n = some node → node.Repeats g reached

end

namespace Graph.Repeats

variable {g : Graph} {reached : NodeId → Prop} {but : Option NodeId} {v v' v'' : Graph} {id : NodeId}
  {node : Node}

theorem refl (but : Option NodeId) (v : Graph) : Graph.Repeats g reached but v v where
  size := Nat.le_refl _
  table := rfl
  kept _ _ _ := rfl
  fresh _ _ hle _ hnode := absurd (lt_size_of_node hnode) (Nat.not_lt.mpr hle)

/-- A construction that repeats what is reached may be followed by another one. -/
theorem trans (h : Graph.Repeats g reached but v v') (h' : Graph.Repeats g reached but v' v'') :
    Graph.Repeats g reached but v v'' where
  size := Nat.le_trans h.size h'.size
  table := h'.table.trans h.table
  kept n hlt hbut := by
    rw [h'.kept n (Nat.lt_of_lt_of_le hlt h.size) hbut, h.kept n hlt hbut]
  fresh n node hle hbut hnode := by
    by_cases hlt : n < v'.size
    · rw [h'.kept n hlt hbut] at hnode
      exact h.fresh n node hle hbut hnode
    · exact h'.fresh n node (Nat.le_of_not_lt hlt) hbut hnode

/-- An exception may be made for nothing. -/
theorem weaken (h : Graph.Repeats g reached none v v') (but : Option NodeId) :
    Graph.Repeats g reached but v v' where
  size := h.size
  table := h.table
  kept n hlt _ := h.kept n hlt (by simp)
  fresh n node hle _ hnode := h.fresh n node hle (by simp) hnode

/-- **The exception ends** when the node, a new one, is a repetition. -/
theorem complete (h : Graph.Repeats g reached (some id) v v') (hnew : v.size ≤ id)
    (hnode : v'.node? id = some node) (hrepeats : node.Repeats g reached) :
    Graph.Repeats g reached none v v' where
  size := h.size
  table := h.table
  kept n hlt _ := by
    refine h.kept n hlt ?_
    rintro ⟨⟩
    exact absurd hlt (Nat.not_lt.mpr hnew)
  fresh n m hle _ hm := by
    by_cases hn : n = id
    · subst hn
      obtain rfl : node = m := Option.some.inj (hnode.symm.trans hm)
      exact hrepeats
    · exact h.fresh n m hle (by simpa using Ne.symm hn) hm

/-- Growth that is told by the nodes alone. -/
theorem of_grows (h : Grows but v v') (htable : v'.table = v.table)
    (hfresh : ∀ n, v.size ≤ n → but ≠ some n → v'.node? n = none) : Graph.Repeats g reached but v v' where
  size := h.size
  table := htable
  kept := h.kept
  fresh n node hle hbut hnode := by
    rw [hfresh n hle hbut] at hnode
    cases hnode

theorem push (v : Graph) (node : Node) : Graph.Repeats g reached (some v.size) v (v.push node) := by
  refine .of_grows (.push v node) rfl ?_
  intro n hle hbut
  have hne : n ≠ v.size := fun he => hbut (he ▸ rfl)
  exact Array.getElem?_eq_none (by simp only [Graph.push, Array.size_push]; exact Nat.lt_of_le_of_ne hle hne.symm)

theorem adjust (v : Graph) (id : NodeId) (f : Node → Node) :
    Graph.Repeats g reached (some id) v (v.adjust id f) := by
  refine .of_grows (.adjust v id f) rfl ?_
  intro n hle _
  exact Array.getElem?_eq_none (by simpa [Graph.adjust] using (show v.nodes.size ≤ n from hle))

end Graph.Repeats

/-- A graph **goes on** from another one, if it has at least as many nodes and the same keys. -/
structure Graph.GoesOn (g v : Graph) : Prop where
  size : g.size ≤ v.size
  table : v.table = g.table

namespace Graph.GoesOn

variable {g v v' : Graph} {reached : NodeId → Prop} {but : Option NodeId}

theorem find (h : g.GoesOn v) (key : String) : v.find? key = g.find? key := by
  rw [find?, find?, h.table]

/-- A graph that was gone on from is still gone on from after a repetition. -/
theorem repeats (h : g.GoesOn v) (h' : Graph.Repeats g reached but v v') : g.GoesOn v' :=
  ⟨Nat.le_trans h.size h'.size, h'.table.trans h.table⟩

end Graph.GoesOn

/-! ## Building again -/

section

variable {σ : Type} (link : String → Build σ Link) (g : Graph) (reached : NodeId → Prop)

/-- **A schema is built again**: only repetitions are new, and it comes to a node that is reached or new. -/
def Schema.Again (s : Schema) (name : Option String) : Prop :=
  ∀ ⦃path : String⦄ ⦃v v' : Workshop σ⦄ ⦃n : NodeId⦄, g.GoesOn v.graph →
    s.build link name path [] v = .ok n v' →
    Graph.Repeats g reached none v.graph v'.graph ∧ (reached n ∨ g.size ≤ n)

/-- A reference is resolved again: it needs no document, and leads to a node that is reached. -/
def Link.Again (ref : String) : Prop :=
  ∀ ⦃v v' : Workshop σ⦄ ⦃l : Link⦄, g.GoesOn v.graph → link ref v = .ok l v' →
    v' = v ∧ ∀ n, g.find? l.target = some n → reached n

end

section

variable {σ : Type} {link : String → Build σ Link} {g : Graph} {reached : NodeId → Prop}

/-- A list of fragments that were built before repeats what is reached. -/
theorem Schema.buildAll_again (schemas : List Schema) :
    (∀ s ∈ schemas, s.Again link g reached none) → ∀ {path : String} {index : Nat} {v v' : Workshop σ}
      {ids : List NodeId}, g.GoesOn v.graph → Schema.buildAll link schemas path index v = .ok ids v' →
      Graph.Repeats g reached none v.graph v'.graph ∧ ∀ n ∈ ids, reached n ∨ g.size ≤ n := by
  induction schemas with
  | nil =>
    intro _ path index v v' ids _ h
    cases h
    exact ⟨.refl _ _, by simp⟩
  | cons s rest ih =>
    intro hs path index v v' ids hv h
    obtain ⟨n, v₁, hone, h⟩ := ok_of_bind h
    obtain ⟨more, v₂, hmore, h⟩ := ok_of_bind h
    cases h
    obtain ⟨hrepeats, hn⟩ := hs s (List.mem_cons_self ..) hv hone
    obtain ⟨hrepeats', hmore⟩ := ih (fun s hmem => hs s (List.mem_cons_of_mem _ hmem)) (hv.repeats hrepeats) hmore
    refine ⟨hrepeats.trans hrepeats', ?_⟩
    intro m hm
    rcases List.mem_cons.mp hm with rfl | hm
    · exact hn
    · exact hmore m hm

theorem Body.buildFields_again {required : List String} {path : String} {id : NodeId}
    (properties : List (String × Schema)) : (∀ p ∈ properties, p.2.Again link g reached (some p.1)) →
    ∀ {v v' : Workshop σ} {node : Node} {fields : List Field} {u : Unit}, g.GoesOn v.graph →
      v.graph.node? id = some node → node.shape = .object fields →
      (∀ n ∈ fields.map Field.type, reached n ∨ g.size ≤ n) →
      Body.buildFields link required properties id path v = .ok u v' →
      Graph.Repeats g reached (some id) v.graph v'.graph ∧ ∃ fields',
        v'.graph.node? id = some { node with shape := .object fields' } ∧
        ∀ n ∈ fields'.map Field.type, reached n ∨ g.size ≤ n := by
  induction properties with
  | nil =>
    intro _ v v' node fields u _ hnode hshape hfields h
    cases h
    exact ⟨.refl _ _, fields, hshape ▸ hnode, hfields⟩
  | cons p rest ih =>
    intro hp v v' node fields u hv hnode hshape hfields h
    obtain ⟨type, v₁, htype, h⟩ := ok_of_bind h
    obtain ⟨_, v₂, hfield, h⟩ := ok_of_bind h
    obtain ⟨hrepeats, hn⟩ := hp p (List.mem_cons_self ..) hv htype
    rw [← hrepeats.kept id (Graph.lt_size_of_node hnode) (by simp)] at hnode
    let field : Field := ⟨p.1, type, required.contains p.1⟩
    obtain ⟨hadded, hnode₂⟩ : Graph.Repeats g reached (some id) v₁.graph v₂.graph ∧
        v₂.graph.node? id = some { node with shape := .object (fields ++ [field]) } := by
      cases hfield
      refine ⟨.adjust .., ?_⟩
      rw [Graph.node_adjust hnode]
      simp only [hshape, field]
    have hrepeats := (hrepeats.weaken (some id)).trans hadded
    have hfields₂ : ∀ n ∈ (fields ++ [field]).map Field.type, reached n ∨ g.size ≤ n := by
      intro m hm
      rw [List.map_append] at hm
      rcases List.mem_append.mp hm with hm | hm
      · exact hfields m hm
      · rw [List.mem_singleton.mp hm]
        exact hn
    obtain ⟨hrepeats', hdone⟩ := ih (fun p hmem => hp p (List.mem_cons_of_mem _ hmem)) (hv.repeats hrepeats)
      hnode₂ rfl hfields₂ h
    exact ⟨hrepeats.trans hrepeats', hdone⟩

theorem Group.buildAll_again (groups : List Group) :
    (∀ p ∈ Group.unnamed groups, p.1.Again link g reached p.2) → ∀ {facts : Facts} {path : String}
      {v v' : Workshop σ} {augmentations : List Augmentation}, g.GoesOn v.graph →
      Group.buildAll link groups facts path v = .ok augmentations v' →
      Graph.Repeats g reached none v.graph v'.graph ∧
        ∀ n ∈ augmentations.flatMap Augmentation.members, reached n ∨ g.size ≤ n := by
  induction groups with
  | nil =>
    intro _ facts path v v' augmentations _ h
    cases h
    exact ⟨.refl _ _, by simp⟩
  | cons group rest ih =>
    intro hg facts path v v' augmentations hv h
    cases group with
    | malformed keyword => cases h
    | members keyword schemas =>
      obtain ⟨members, v₁, hone, h⟩ := ok_of_bind h
      obtain ⟨more, v₂, hmore, h⟩ := ok_of_bind h
      cases h
      have hschemas : ∀ s ∈ schemas, s.Again link g reached none := fun s hs =>
        hg (s, none) (List.mem_append_left _ (List.mem_map.mpr ⟨s, hs, rfl⟩))
      have hrest : ∀ p ∈ Group.unnamed rest, p.1.Again link g reached p.2 := fun p hp =>
        hg p (List.mem_append_right _ hp)
      obtain ⟨hrepeats, hmembers⟩ := Schema.buildAll_again schemas hschemas hv hone
      obtain ⟨hrepeats', hmore⟩ := ih hrest (hv.repeats hrepeats) hmore
      refine ⟨hrepeats.trans hrepeats', ?_⟩
      intro n hn
      rw [List.flatMap_cons] at hn
      rcases List.mem_append.mp hn with hn | hn
      · exact hmembers n hn
      · exact hmore n hn

/-- What is known by its id is known the second time. -/
theorem Schema.again_known (s : Schema) {name : Option String} {n : NodeId}
    (h : s.facts.id.bind g.find? = some n) (hn : reached n) : s.Again link g reached name := by
  intro path v v' m hv hagain
  have hfind : v.graph.find? = g.find? := funext hv.find
  rw [Schema.build_known s (hfind ▸ h)] at hagain
  cases hagain
  exact ⟨.refl _ _, Or.inl hn⟩

/-- The parts of a node are built again. -/
theorem Body.build_again {body : Body} {name : Option String}
    (hparts : ∀ p ∈ body.named name, p.1.Again link g reached p.2)
    (href : ∀ ref, body = .reference (some ref) → Link.Again link g reached ref) {facts : Facts}
    {path : String} {v v' : Workshop σ} {id : NodeId} {node : Node} {u : Unit} (hv : g.GoesOn v.graph)
    (hnode : v.graph.node? id = some node) (hshape : node.shape = .unbuilt body)
    (h : body.build link id facts name path v = .ok u v') :
    Graph.Repeats g reached (some id) v.graph v'.graph ∧ ∃ shape,
      v'.graph.node? id = some { node with shape } ∧ (∀ n ∈ shape.children, reached n ∨ g.size ≤ n) ∧
      ∀ ref key n, shape = .reference ref key → g.find? key = some n → reached n := by
  have hreshape : ∀ {v₁ : Workshop σ} {shape : Shape}, Graph.Repeats g reached none v.graph v₁.graph →
      Build.reshape id shape v₁ = .ok u v' →
      Graph.Repeats g reached (some id) v.graph v'.graph ∧ v'.graph.node? id = some { node with shape } := by
    intro v₁ shape hrepeats h
    rw [← hrepeats.kept id (Graph.lt_size_of_node hnode) (by simp)] at hnode
    cases h
    exact ⟨(hrepeats.weaken (some id)).trans (.adjust v₁.graph id _), Graph.node_adjust hnode⟩
  cases body with
  | scalar s =>
    cases h
    exact ⟨.refl _ _, node.shape, hnode, by simp [hshape, Shape.unbuilt, Shape.children],
      by simp [hshape, Shape.unbuilt]⟩
  | composite =>
    cases h
    exact ⟨.refl _ _, node.shape, hnode, by simp [hshape, Shape.unbuilt, Shape.children],
      by simp [hshape, Shape.unbuilt]⟩
  | choice alternatives =>
    obtain ⟨ids, v₁, hall, h⟩ := ok_of_bind h
    have halternatives : ∀ s ∈ alternatives, s.Again link g reached none := fun s hs =>
      hparts (s, none) (List.mem_map.mpr ⟨s, hs, rfl⟩)
    obtain ⟨hrepeats, hids⟩ := Schema.buildAll_again alternatives halternatives hv hall
    obtain ⟨hrepeats, hnode'⟩ := hreshape hrepeats h
    exact ⟨hrepeats, _, hnode', hids, by simp⟩
  | array items =>
    obtain ⟨item, v₁, hitem, h⟩ := ok_of_bind h
    obtain ⟨hrepeats, hn⟩ := hparts (items, name) (List.mem_singleton_self _) hv hitem
    obtain ⟨hrepeats, hnode'⟩ := hreshape hrepeats h
    exact ⟨hrepeats, _, hnode', by simpa [Shape.children] using hn, by simp⟩
  | object required properties =>
    obtain ⟨hrepeats, fields, hnode', hfields⟩ := Body.buildFields_again properties
      (fun p hp => hparts (p.2, some p.1) (List.mem_map.mpr ⟨p, hp, rfl⟩)) hv hnode hshape (by simp) h
    exact ⟨hrepeats, _, hnode', hfields, by simp⟩
  | broken defect => cases h
  | reference ref =>
    cases ref with
    | none => cases h
    | some ref =>
      obtain ⟨l, v₁, hl, hset⟩ := ok_of_bind h
      obtain ⟨rfl, htarget⟩ := href ref rfl hv hl
      obtain ⟨hrepeats, hnode'⟩ := hreshape (.refl _ _) hset
      refine ⟨hrepeats, _, hnode', by simp [Shape.children], ?_⟩
      rintro _ _ n ⟨⟩
      exact htarget n

/-- **A fragment without an id is built again as a new node**, like the one in the territory, if all that it is made
of is built again. -/
theorem Schema.again_new {facts : Facts} {body : Body} {groups : List Group}
    {name : Option String} (hid : facts.id = none)
    (hparts : ∀ p ∈ body.named name, p.1.Again link g reached p.2)
    (href : ∀ ref, body = .reference (some ref) → Link.Again link g reached ref)
    (hmembers : ∀ p ∈ Group.unnamed groups, p.1.Again link g reached p.2) {n : NodeId} {path₁ : String}
    {shape₁ : Shape} {augmentations₁ : List Augmentation} (hn : reached n)
    (hnode₁ : g.node? n = some { Schema.node facts body groups name path₁ with
      shape := shape₁, augmentations := augmentations₁ }) :
    (Schema.fragment facts body groups).Again link g reached name := by
  intro path v v' m hv hagain
  have hnew : facts.id.bind v.graph.find? = none := by
    rw [hid]
    rfl
  rw [Schema.build_new hnew, hid] at hagain
  obtain ⟨_, v₁, hfill, hagain⟩ := ok_of_bind hagain
  obtain ⟨augmentations, v₂, hgroups, hagain⟩ := ok_of_bind hagain
  obtain ⟨_, v₃, haugment, hagain⟩ := ok_of_bind hagain
  cases hagain
  let node := Schema.node facts body groups name path
  have hpush : Graph.Repeats g reached (some v.graph.size) v.graph (v.enter node path []).graph := .push ..
  have hnode : (v.enter node path []).graph.node? v.graph.size = some node := Array.getElem?_push_size
  obtain ⟨hrepeats₁, shape, hnode, hheld, htarget⟩ :=
    Body.build_again hparts href (hv.repeats hpush) hnode rfl hfill
  have hrepeats₁ := hpush.trans hrepeats₁
  obtain ⟨hrepeats₂, hheld'⟩ := Group.buildAll_again groups hmembers (hv.repeats hrepeats₁) hgroups
  rw [← hrepeats₂.kept _ (Graph.lt_size_of_node hnode) (by simp)] at hnode
  obtain ⟨hrepeats₃, hnode⟩ : Graph.Repeats g reached (some v.graph.size) v₂.graph v'.graph ∧
      v'.graph.node? v.graph.size = some { node with shape, augmentations } := by
    cases haugment
    exact ⟨.adjust .., Graph.node_adjust hnode⟩
  have hrepeats := (hrepeats₁.trans (hrepeats₂.weaken _)).trans hrepeats₃
  refine ⟨hrepeats.complete (Nat.le_refl _) hnode ?_, Or.inr hv.size⟩
  refine ⟨⟨n, _, hn, hnode₁, rfl, rfl⟩, ?_, htarget⟩
  intro k hk
  rcases List.mem_append.mp hk with hk | hk
  · exact hheld k hk
  · exact hheld' k hk

end

section

variable {σ : Type} [Source σ]

/-- **The territory of roots**: closed under arrows, and with every node that a reference may come to name which
was located elsewhere before. -/
structure Territory (settings : Settings) (g : Graph) (reached : NodeId → Prop) : Prop where
  closed : ∀ m n, reached m → g.Leads m n → reached n
  stray : ∀ ref key n, settings.locate ref = .ok key → key ≠ ref → g.find? ref = some n → reached n

variable {settings : Settings} {g : Graph} {reached : NodeId → Prop} {budget : Nat}

/-- **A reference that was resolved before is resolved again**: its key is known by now. -/
theorem Link.Made.again (ht : Territory settings g reached) (budget' : Nat) {ref : String} {l : Link}
    {first last : Nat}
    (h : l.Made (Build.resolve settings budget : String → Build σ Link) g ref first last)
    (hl : ∀ n, g.find? l.target = some n → reached n) :
    Link.Again (Build.resolve settings budget' : String → Build σ Link) g reached ref := by
  intro v v' l' hv hagain
  obtain ⟨-, hkey⟩ := h.key
  obtain ⟨hr, hmade, hkept⟩ := h
  obtain ⟨-, t, hfind⟩ := Build.resolve_links settings budget hr hmade
  have hfind := hkept.table _ t hfind
  obtain ⟨key, hkeyOf, n, hknown, hn⟩ :
      ∃ key, v.graph.keyOf settings ref = .ok key ∧ ∃ n, g.find? key = some n ∧ reached n := by
    rw [Graph.keyOf, Graph.knows, hv.find]
    cases href : g.find? ref with
    | some n =>
      refine ⟨ref, if_pos rfl, n, href, ?_⟩
      by_cases htarget : l.target = ref
      · exact hl n (htarget ▸ href)
      · exact ht.stray ref l.target n (hkey.resolve_left htarget) htarget href
    | none =>
      have htarget : l.target ≠ ref := by
        intro he
        rw [he, href] at hfind
        cases hfind
      exact ⟨l.target, (if_neg (by simp)).trans (hkey.resolve_left htarget), t, hfind, hl t hfind⟩
  have hknows : v.graph.knows key = true := by
    rw [Graph.knows, hv.find, hknown]
    rfl
  rw [Build.resolve_known budget' hkeyOf hknows] at hagain
  obtain ⟨rfl, -⟩ := Build.linkTo_ok hagain
  obtain rfl := Build.link_of_linkTo hagain
  refine ⟨rfl, ?_⟩
  intro m hm
  obtain rfl : n = m := Option.some.inj (hknown.symm.trans hm)
  exact hn

/-- The ids of fragments have at least one character. -/
theorem Schema.Assembled.id_ne {facts : Facts} {body : Body} {groups : List Group} {key : String}
    (h : Schema.Assembled facts body groups) (hid : facts.id = some key) : key ≠ "" := by
  cases h
  obtain ⟨v, -, hv⟩ := Option.bind_eq_some_iff.mp hid
  exact (Json.filledText?_eq_some.mp hv).2

/-- **A schema that has been raised in the territory is built again.** -/
theorem Schema.Raised.again (ht : Territory settings g reached) (budget' : Nat) {s : Schema}
    (hs : s.Refers fun _ => True) :
    ∀ {name : Option String} {keys : List String} {n : NodeId} {first last : Nat},
      s.Raised (Build.resolve settings budget : String → Build σ Link) g name keys n first last → reached n →
      s.Again (Build.resolve settings budget' : String → Build σ Link) g reached name := by
  have hlinks : Links (Build.resolve settings budget : String → Build σ Link) :=
    Build.resolve_links settings budget
  induction hs with
  | unsupported facts =>
    intro name keys n first last h hn
    exact Schema.again_known (.unsupported facts) h.of_unsupported.1 hn
  | @fragment facts body groups own parts members ihparts ihmembers =>
    intro name keys n first last h hn
    have horderly := Schema.Every.orderly (.fragment own parts members)
    rcases h.unfold hlinks horderly with ⟨hknown, -⟩ | hanew
    · exact Schema.again_known (.fragment facts body groups) hknown hn
    cases hid : facts.id with
    | some key =>
      have hfind := hanew.keyed key (by simp [hid]) (own.1.id_ne hid)
      exact Schema.again_known (.fragment facts body groups) (Option.bind_eq_some_iff.mpr ⟨key, hid, hfind⟩) hn
    | none =>
      obtain ⟨path₁, shape₁, augmentations₁, middle, hnode₁, hbody₁, hgroups₁⟩ := hanew.node
      have hparts : ∀ p ∈ body.named name,
          p.1.Again (Build.resolve settings budget' : String → Build σ Link) g reached p.2 := by
        intro p hp
        cases hbody₁ with
        | parts _ all =>
          obtain ⟨m, hm, first', last', hraised⟩ := all.each p hp
          exact ihparts p.1 (Body.mem_parts hp) hraised (ht.closed n m hn (Graph.leads_of_child hnode₁ hm))
        | reference _ => cases hp
      have hmembers : ∀ p ∈ Group.unnamed groups,
          p.1.Again (Build.resolve settings budget' : String → Build σ Link) g reached p.2 := by
        intro p hp
        obtain ⟨-, group, hgroup, hpart⟩ := Group.mem_parts hp
        obtain ⟨m, hm, first', last', hraised⟩ := hgroups₁.each p hp
        exact ihmembers group hgroup p.1 hpart hraised (ht.closed n m hn (Graph.leads_of_member hnode₁ hm))
      have href : ∀ ref, body = .reference (some ref) →
          Link.Again (Build.resolve settings budget' : String → Build σ Link) g reached ref := by
        rintro ref rfl
        cases hbody₁ with
        | parts plain _ => exact absurd rfl (plain (some ref))
        | reference made =>
          exact made.again ht budget' fun t hfind => ht.closed n t hn (Graph.leads_of_target hnode₁ rfl hfind)
      exact Schema.again_new hid hparts href hmembers hn hnode₁

end

/-! ## Roots that are built again -/

/-- A reference that is located elsewhere tells that a root directory is set, and then none is hollow. -/
theorem Settings.not_hollow {settings : Settings} {ref key : String} (h : settings.locate ref = .ok key)
    (hne : key ≠ ref) (ref' : String) : ¬ settings.Hollow ref' := by
  rw [locate] at h
  rw [Hollow, locate]
  split at h
  · exact absurd (Except.ok.inj h).symm hne
  · rename_i hset
    rw [if_neg hset]
    split
    · exact fun he => Files.Path.toText_ne _ (Except.ok.inj he)
    · exact fun he => by cases he

/-- A root has been raised at one of the given nodes. -/
def RaisedRoot (σ : Type) [Source σ] (settings : Settings) (g : Graph) (ids : List NodeId) (root : Json)
    (first last : Nat) : Prop :=
  ∃ n ∈ ids, ∃ budget, (Schema.ofJson root).Raised (Build.resolve settings budget : String → Build σ Link) g none
    [] n first last

namespace Registry

variable {σ : Type} [Source σ] {g : Graph}

/-- **Roots that are built are raised**, and each number was taken by one of them. -/
theorem buildRoots_raised (roots : List Json) : ∀ {r r' : Registry σ} {ids : List NodeId},
    r.graph.Ranged → buildRoots roots r = .ok ids r' → r'.graph.KeptIn r.graph.size g →
    (∀ root ∈ roots, ∃ first last, RaisedRoot σ r.settings g ids root first last) ∧
      ∀ k, r.graph.size ≤ k → k < r'.graph.size →
        ∃ root first last, RaisedRoot σ r.settings g ids root first last ∧ first ≤ k ∧ k < last := by
  induction roots with
  | nil =>
    intro r r' ids _ h _
    cases h
    exact ⟨by simp, fun k hle hlt => absurd hlt (Nat.not_lt.mpr hle)⟩
  | cons schema rest ih =>
    intro r r' ids hr h hkept
    obtain ⟨id, w, node, more, hroot, -, -, hmore, rfl⟩ := buildRoots_cons h
    obtain ⟨hgrows, -⟩ := Build.root_grows hr hroot
    have hr' : w.graph.Ranged := hgrows.ranged hr
    obtain ⟨hgrows', -⟩ := buildRoots_grows rest (r := { r with pending := rest, workshop := w }) hr' hmore
    obtain ⟨heach, hcovered⟩ := ih (r := { r with pending := rest, workshop := w }) hr' hmore
      (hkept.before (.refl none _) hgrows.size (by simp))
    have hfirst : RaisedRoot σ r.settings g (id :: more) schema r.graph.size w.graph.size :=
      ⟨id, List.mem_cons_self .., _, .intro hr (by simp) hroot (hkept.before hgrows' (Nat.le_refl _) (by simp))⟩
    have hlater : ∀ {root first last}, RaisedRoot σ r.settings g more root first last →
        RaisedRoot σ r.settings g (id :: more) root first last := by
      rintro root first last ⟨n, hn, hraised⟩
      exact ⟨n, List.mem_cons_of_mem _ hn, hraised⟩
    constructor
    · intro root hroot
      rcases List.mem_cons.mp hroot with rfl | hroot
      · exact ⟨_, _, hfirst⟩
      · obtain ⟨first, last, hraised⟩ := heach root hroot
        exact ⟨first, last, hlater hraised⟩
    · intro k hle hlt
      by_cases hk : k < w.graph.size
      · exact ⟨schema, _, _, hfirst, hle, hk⟩
      · obtain ⟨root, first, last, hraised, hrange⟩ := hcovered k (Nat.le_of_not_lt hk) hlt
        exact ⟨root, first, last, hlater hraised, hrange⟩

/-- **The territory of roots that have been built**: the nodes that they lead to. -/
theorem buildRoots_territory {roots : List Json} {r r' : Registry σ} {ids : List NodeId} (hf : r.Fresh)
    (h : buildRoots roots r = .ok ids r') : Territory r.settings r'.graph (r'.graph.Reachable ids) where
  closed m n := by
    rintro ⟨i, hi, hpath⟩ hleads
    exact ⟨i, hi, hpath.tail hleads⟩
  stray ref key n hlocate hne hfind := by
    have hempty : r.graph.size = 0 := by
      rw [hf.graph]
      rfl
    have hranged : r.graph.Ranged := by
      rw [hf.graph]
      intro key id hfind
      cases hfind
    have hlt := (buildRoots_grows roots hranged h).1.ranged hranged ref n hfind
    obtain ⟨root, first, last, ⟨i, hi, budget, hraised⟩, hle, hlast⟩ :=
      (buildRoots_raised roots hranged h (.refl _ _)).2 n (by omega) hlt
    exact ⟨i, hi, hraised.leads (Settings.not_hollow hlocate hne) budget
      (Schema.ofJson_refers fun _ _ => trivial) n hle hlast⟩

end Registry

/-! ## Names that are there already -/

namespace Graph.Repeats

variable {g g' : Graph} {reached : NodeId → Prop} {m n : NodeId}

/-- Arrows lead from what is reached or new to what is reached or new. -/
theorem leads (h : Graph.Repeats g reached none g g') (hclosed : ∀ m n, reached m → g.Leads m n → reached n)
    (hm : reached m ∨ g.size ≤ m) (hleads : g'.Leads m n) : reached n ∨ g.size ≤ n := by
  have hfind : ∀ key, g'.find? key = g.find? key := fun key => by rw [find?, find?, h.table]
  obtain ⟨a, ha, rfl⟩ := hleads
  by_cases hlt : m < g.size
  · have hm := hm.resolve_right (Nat.not_le.mpr hlt)
    have hsame : g'.arrows m = g.arrows m := by
      have hshapes : g'.shapeArrows m = g.shapeArrows m := by
        funext shape
        cases shape <;> simp only [shapeArrows, hfind]
      rw [arrows, arrows, h.kept m hlt (by simp), hshapes]
    exact Or.inl (hclosed m _ hm ⟨a, hsame ▸ ha, rfl⟩)
  · rw [arrows] at ha
    cases hnode : g'.node? m with
    | none =>
      rw [hnode] at ha
      cases ha
    | some node =>
      rw [hnode] at ha
      have hrepeats := h.fresh m node (Nat.le_of_not_lt hlt) (by simp) hnode
      rcases List.mem_append.mp ha with ha | ha
      · obtain ⟨t, ht, rfl⟩ := List.mem_map.mp ha
        refine hrepeats.held t (List.mem_append_right _ ?_)
        exact List.mem_flatMap.mpr (Node.mem_members.mp ht)
      · obtain ⟨-, ⟨-, ref, key, hshape, htarget⟩ | ⟨-, hchild⟩⟩ := mem_shapeArrows ha
        · exact Or.inl (hrepeats.target ref key _ hshape (hfind key ▸ htarget))
        · exact hrepeats.held _ (List.mem_append_left _ hchild)

/-- Paths from what is reached, or from what is new, do not lead out of either. -/
theorem reaches (h : Graph.Repeats g reached none g g') (hclosed : ∀ m n, reached m → g.Leads m n → reached n)
    (hm : reached m ∨ g.size ≤ m) (hpath : Relation.ReflTransGen g'.Leads m n) : reached n ∨ g.size ≤ n := by
  induction hpath with
  | refl => exact hm
  | tail _ hleads ih => exact h.leads hclosed ih hleads

/-- **What is declared is named like a node that is reached**, which is declared, too. -/
theorem named (h : Graph.Repeats g reached none g g')
    (hn : reached n ∨ g.size ≤ n) (hdeclared : g'.isDeclared n = true) :
    ∃ m, reached m ∧ g.isDeclared m = true ∧ g.nameOf m = g'.nameOf n := by
  by_cases hlt : n < g.size
  · refine ⟨n, hn.resolve_right (Nat.not_le.mpr hlt), ?_, ?_⟩
    · rw [isDeclared, ← h.kept n hlt (by simp)]
      exact hdeclared
    · rw [nameOf, nameOf, h.kept n hlt (by simp)]
  · cases hnode : g'.node? n with
    | none => simp [isDeclared, hnode] at hdeclared
    | some node =>
      obtain ⟨m, model, hm, hmodel, hname, hsame⟩ :=
        (h.fresh n node (Nat.le_of_not_lt hlt) (by simp) hnode).model
      refine ⟨m, hm, ?_, ?_⟩
      · simpa [isDeclared, hnode, hmodel, hsame] using hdeclared
      · simp [nameOf, hnode, hmodel, hname]

end Graph.Repeats

namespace Draft

variable {g g' : Graph} {d d' : Draft}

/-- What is named like something before is dropped. -/
theorem keep_dropped {more : List NodeId} (order : List NodeId) : ∀ seen : List String,
    (∀ n ∈ more, g.nameOf n ∈ seen ∨ ∃ m ∈ order, g.nameOf m = g.nameOf n) →
    (keep g seen (order ++ more)).1 = (keep g seen order).1 := by
  induction order with
  | nil =>
    intro seen h
    induction more with
    | nil => rfl
    | cons n rest ih =>
      have hn : g.nameOf n ∈ seen := by simpa using h n (List.mem_cons_self ..)
      rw [List.nil_append, keep_cons, if_pos hn]
      exact ih fun m hm => h m (List.mem_cons_of_mem _ hm)
  | cons id rest ih =>
    intro seen h
    rw [List.cons_append, keep_cons, keep_cons]
    split
    · rename_i hid
      refine ih seen fun n hn => ?_
      rcases h n hn with hseen | ⟨m, hm, hname⟩
      · exact Or.inl hseen
      · rcases List.mem_cons.mp hm with rfl | hm
        · exact Or.inl (hname ▸ hid)
        · exact Or.inr ⟨m, hm, hname⟩
    · rw [ih (g.nameOf id :: seen) fun n hn => ?_]
      rcases h n hn with hseen | ⟨m, hm, hname⟩
      · exact Or.inl (List.mem_cons_of_mem _ hseen)
      · rcases List.mem_cons.mp hm with rfl | hm
        · exact Or.inl (hname ▸ List.mem_cons_self ..)
        · exact Or.inr ⟨m, hm, hname⟩

/-- Drafts that keep the same declarations, with the same pages, are rendered alike. -/
theorem render_congr {settings : Settings} {commandLine : String} (hkept : d'.kept g' = d.kept g)
    (hpages : ∀ n ∈ d.kept g, d'.page n = d.page n) :
    d'.render g' settings commandLine = d.render g settings commandLine := by
  rw [render, render, hkept, blocks_congr hpages]

end Draft

/-! ## Compilations -/

namespace Registry

variable {σ : Type} [Source σ]

/-- **A root behind roots that it is one of** is built by repetitions, and comes to a node that is reached or
new. -/
theorem buildRoots_again {q q₁ r r' : Registry σ} {roots : List Json} {root : Json} {ids more : List NodeId}
    (hf : q.Fresh) (hfront : buildRoots roots q = .ok ids q₁) (hmem : root ∈ roots) (hmatch : r.Matches q₁)
    (h : buildRoots [root] r = .ok more r') :
    Graph.Repeats q₁.graph (q₁.graph.Reachable ids) none q₁.graph r'.graph ∧
      ∀ n ∈ more, q₁.graph.Reachable ids n ∨ q₁.graph.size ≤ n := by
  have hranged : q.graph.Ranged := by
    rw [hf.graph]
    intro key id hfind
    cases hfind
  have hsettings : r.settings = q.settings := hmatch.settings.trans (buildRoots_built hf hfront).settings
  have hgraph : r.workshop.graph = q₁.graph := hmatch.workshop.graph
  obtain ⟨first, last, i, hi, budget, hraised⟩ :=
    (buildRoots_raised roots hranged hfront (.refl _ _)).1 root hmem
  obtain ⟨id, w, node, rest, hroot, -, -, hrest, rfl⟩ := buildRoots_cons h
  cases hrest
  have hagain := Schema.Raised.again (buildRoots_territory hf hfront) (Source.budget r.workshop.source root)
    (Schema.ofJson_refers fun _ _ => trivial) hraised ⟨i, hi, Relation.ReflTransGen.refl⟩
  rw [hsettings] at hroot
  obtain ⟨hrepeats, hid⟩ := hagain ⟨Nat.le_of_eq (congrArg Graph.size hgraph.symm), congrArg Graph.table hgraph⟩ hroot
  exact ⟨hgraph ▸ hrepeats, by simpa using hid⟩

/-- A compilation that repeats a root keeps the declarations that it kept before. -/
theorem Staged.kept_eq {q q₁ r₁ : Registry σ} {roots : List Json} {root : Json} {ids more : List NodeId}
    {d d' : Draft} (hf : q.Fresh) (hmem : root ∈ roots) (h : Staged q roots [root] ids more q₁ r₁ d d') :
    d'.kept r₁.graph = d.kept q₁.graph := by
  obtain ⟨r, hmatch, hback⟩ := h.back
  obtain ⟨hrepeats, hmore⟩ := buildRoots_again hf h.front hmem hmatch hback
  have hterritory := buildRoots_territory hf h.front
  have ht := Graph.guardedEach_tracks h.built.whole h.built.held q₁.settings.indent false
  rw [h.run] at ht
  have ht' := Graph.guardedEach_tracks h.whole h.held q₁.settings.indent false
  rw [h.runAll] at ht'
  -- whatever is declared in the end is named like something that was declared before
  have hnamed : ∀ n ∈ d'.emission.toList, ∃ m ∈ d.emission.toList, r₁.graph.nameOf m = r₁.graph.nameOf n := by
    intro n hn
    rw [ht'.emission] at hn
    obtain ⟨hseen, hdeclared⟩ := List.mem_filter.mp hn
    obtain ⟨i, hi, hpath⟩ := (Graph.mem_preorder_iff h.whole.bounded h.held n).mp hseen
    have hstart : q₁.graph.Reachable ids i ∨ q₁.graph.size ≤ i := by
      rcases List.mem_append.mp hi with hi | hi
      · exact Or.inl ⟨i, hi, Relation.ReflTransGen.refl⟩
      · exact hmore i hi
    obtain ⟨m, hm, hmdeclared, hname⟩ :=
      hrepeats.named (hrepeats.reaches hterritory.closed hstart hpath) hdeclared
    have hmem : m ∈ d.emission.toList := by
      rw [ht.emission]
      exact List.mem_filter.mpr ⟨(Graph.mem_preorder_iff h.built.whole.bounded h.built.held m).mpr hm, hmdeclared⟩
    exact ⟨m, hmem, (h.names m hmem).trans hname⟩
  obtain ⟨later, hlater⟩ := h.emission
  rw [Draft.kept, Draft.kept, ← hlater, Draft.keep_dropped, Draft.keep_congr h.names]
  intro n hn
  exact Or.inr (hnamed n (hlater ▸ List.mem_append_right _ hn))

end Registry

/-- **A root compiled twice adds nothing.** If roots compile with one of them repeated behind them, they compile
without it, and to the same text. -/
theorem compile_repeated {σ : Type} [Source σ] {settings : Settings} {source : σ} {commandLine text : String}
    {roots : List Json} {root : Json} (hmem : root ∈ roots)
    (h : compile settings source commandLine (roots ++ [root]) = .ok text) :
    compile settings source commandLine roots = .ok text := by
  obtain ⟨r', hall⟩ := compile_ok_iff.mp h
  obtain ⟨r, hr, hparse⟩ := Registry.compileAll_ready settings source commandLine (roots ++ [root])
  obtain ⟨q, hq, hparse'⟩ := Registry.compileAll_ready settings source commandLine roots
  have hmatch : r.Matches q := by
    refine ⟨hr.settings.trans hq.settings.symm, hr.source.trans hq.source.symm, ?_⟩
    exact hr.graph.trans hq.graph.symm
  obtain ⟨ids, more, q₁, r₁, d, d', hstaged, hrender⟩ := Registry.parse_staged hr.toFresh hq.toFresh hmatch
    (hr.commandLine.trans hq.commandLine.symm) hr.pending (hparse ▸ hall)
  have hpages : ∀ n ∈ d.kept q₁.graph, d'.page n = d.page n :=
    fun n hn => hstaged.pages n ((Draft.keep_sublist q₁.graph _ []).subset hn)
  rw [Draft.render_congr (hstaged.kept_eq hq.toFresh hmem) hpages] at hrender
  obtain ⟨q', hdone⟩ := Registry.parse_of hq.toFresh (hq.pending ▸ hstaged.front) hstaged.run hrender
  exact compile_ok_iff.mpr ⟨q', hparse' ▸ hdone⟩

theorem compile_repeated_neighbour :
    neighbour ∈ [household, neighbour] ∧ ∃ text,
      compile {} village "" ([household, neighbour] ++ [neighbour]) = .ok text ∧
      compile {} village "" [household, neighbour] = .ok text := by
  have hmem : neighbour ∈ [household, neighbour] := List.mem_cons_of_mem _ (List.mem_singleton_self _)
  obtain ⟨text, r, hall, -⟩ := exists_of_succeeds
    (Registry.compileAll ([household, neighbour] ++ [neighbour]) (.new {} village "")) (fun _ _ => true)
    (by decide +kernel)
  have htext : compile {} village "" ([household, neighbour] ++ [neighbour]) = .ok text :=
    compile_ok_iff.mpr ⟨r, hall⟩
  exact ⟨hmem, text, htext, compile_repeated hmem htext⟩

end TypeScribe
