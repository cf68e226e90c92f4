import TypeScribe.Graph.Construct
import TypeScribe.Proofs.Reading
import TypeScribe.Proofs.Steps
import TypeScribe.Proofs.Whole

/-!
# Construction makes whole graphs

A graph under construction only grows (`Graph.Grows`): nodes keep their numbers, keys keep what they
stand for, and every node that is new is complete, **but for one**, the node whose parts are being
built. `Schema.build_grows` says that a construction that succeeds grows the graph with no such
exception, whatever references it had to resolve on the way.

* **Step.** `Graph.Grows.push`, `bind` and `adjust` are the changes there are.
* **Fragment.** Its node is new and has no parts, so it is excepted until its parts and its members
  are built; these grow the graph in turn.
* **Reference.** `Links` is what is asked of the way to resolve references. `Build.resolve_links`
  gives it for every budget.
-/

namespace TypeScribe

/-! ## Growing graphs -/

namespace Graph

/-- Keys stand for nodes. -/
def Ranged (g : Graph) : Prop := ∀ key id, g.find? key = some id → id < g.size

/-- **A graph grows**, but for one node that may change and need not be complete. -/
structure Grows (but : Option NodeId) (g g' : Graph) : Prop where
  size : g.size ≤ g'.size
  kept : ∀ id, id < g.size → but ≠ some id → g'.node? id = g.node? id
  table : ∀ key id, g.find? key = some id → g'.find? key = some id
  ranged : g.Ranged → g'.Ranged
  fresh : ∀ id node, g.size ≤ id → but ≠ some id → g'.node? id = some node → g'.Complete node

variable {but : Option NodeId} {g g' g'' : Graph} {node : Node} {id : NodeId}

theorem lt_size_of_node (h : g.node? id = some node) : id < g.size := by
  obtain ⟨hlt, -⟩ := Array.getElem?_eq_some_iff.mp h
  exact hlt

/-- A key that is bound leads to its node, and the others lead where they led. -/
theorem find_bind (g : Graph) (key : String) (id : NodeId) (k : String) :
    (g.bind key id).find? k = if k = key then some id else g.find? k :=
  Table.get?_insert g.table key id k

/-- A complete node stays complete when there are more nodes and more keys. -/
theorem Complete.mono (h : g.Complete node) (hsize : g.size ≤ g'.size)
    (htable : ∀ key id, g.find? key = some id → g'.find? key = some id) : g'.Complete node where
  held n hn := Nat.lt_of_lt_of_le (h.held n hn) hsize
  item := h.item
  target ref key hs := by
    obtain ⟨n, hfind, hlt⟩ := h.target ref key hs
    exact ⟨n, htable key n hfind, Nat.lt_of_lt_of_le hlt hsize⟩
  keywords := h.keywords

/-- A node is complete once its members are there, if its shape was. -/
theorem Complete.augment (h : g.Complete node) {augmentations : List Augmentation}
    (hheld : ∀ n ∈ augmentations.flatMap Augmentation.members, n < g.size)
    (hkeywords : (augmentations.map Augmentation.keyword).Sublist Keyword.all) :
    g.Complete { node with augmentations } where
  held n hn := by
    rcases List.mem_append.mp hn with hn | hn
    · exact h.held n (List.mem_append_left _ hn)
    · exact hheld n hn
  item := h.item
  target := h.target
  keywords := hkeywords

namespace Grows

theorem refl (but : Option NodeId) (g : Graph) : Grows but g g where
  size := Nat.le_refl _
  kept _ _ _ := rfl
  table _ _ h := h
  ranged h := h
  fresh _ _ hle _ hnode := absurd (lt_size_of_node hnode) (Nat.not_lt.mpr hle)

/-- Growths one after the other are a growth: a node that is new was added by the first or by the
second. -/
theorem trans (h : Grows but g g') (h' : Grows but g' g'') : Grows but g g'' where
  size := Nat.le_trans h.size h'.size
  kept id hlt hbut := by
    rw [h'.kept id (Nat.lt_of_lt_of_le hlt h.size) hbut, h.kept id hlt hbut]
  table key id hfind := h'.table key id (h.table key id hfind)
  ranged hr := h'.ranged (h.ranged hr)
  fresh id node hle hbut hnode := by
    by_cases hlt : id < g'.size
    · rw [h'.kept id hlt hbut] at hnode
      exact (h.fresh id node hle hbut hnode).mono h'.size h'.table
    · exact h'.fresh id node (Nat.le_of_not_lt hlt) hbut hnode

/-- An exception may be made for nothing. -/
theorem weaken (h : Grows none g g') (but : Option NodeId) : Grows but g g' where
  size := h.size
  kept id hlt _ := h.kept id hlt (by simp)
  table := h.table
  ranged := h.ranged
  fresh id node hle _ hnode := h.fresh id node hle (by simp) hnode

/-- **The exception ends** when the node, a new one, is complete. -/
theorem complete (h : Grows (some id) g g') (hnew : g.size ≤ id) (hnode : g'.node? id = some node)
    (hcomplete : g'.Complete node) : Grows none g g' where
  size := h.size
  kept n hlt _ := by
    refine h.kept n hlt ?_
    rintro ⟨⟩
    exact absurd hlt (Nat.not_lt.mpr hnew)
  table := h.table
  ranged := h.ranged
  fresh n m hle _ hm := by
    by_cases hn : n = id
    · subst hn
      obtain rfl : node = m := Option.some.inj (hnode.symm.trans hm)
      exact hcomplete
    · exact h.fresh n m hle (by simpa using Ne.symm hn) hm

/-- A new node comes without parts, so it is the exception. -/
theorem push (g : Graph) (node : Node) : Grows (some g.size) g (g.push node) where
  size := by simp [Graph.size, Graph.push]
  kept n hlt _ := (Array.getElem?_push_lt hlt).trans (Array.getElem?_eq_getElem hlt).symm
  table _ _ h := h
  ranged hr key n hfind := by
    refine Nat.lt_of_lt_of_le (hr key n hfind) ?_
    simp [Graph.size, Graph.push]
  fresh n m hle hbut hm := by
    have hlt : n < g.size + 1 := by simpa [Graph.size, Graph.push] using lt_size_of_node hm
    exact absurd (congrArg some (Nat.le_antisymm hle (Nat.lt_succ_iff.mp hlt))) hbut

/-- A key is bound to a node, unless it stands for another one. -/
theorem bind {key : String} (hlt : id < g.size) (hnew : ∀ n, g.find? key = some n → n = id) :
    Grows but g (g.bind key id) where
  size := Nat.le_refl _
  kept _ _ _ := rfl
  table k n hfind := by
    rw [find_bind]
    split
    · rename_i hk
      rw [hnew n (hk ▸ hfind)]
    · exact hfind
  ranged hr k n hfind := by
    rw [find_bind] at hfind
    split at hfind
    · obtain rfl : id = n := Option.some.inj hfind
      exact hlt
    · exact hr k n hfind
  fresh n m hle _ hm := absurd (lt_size_of_node hm) (Nat.not_lt.mpr hle)

/-- The excepted node may change at will. -/
theorem adjust (g : Graph) (id : NodeId) (f : Node → Node) :
    Grows (some id) g (g.adjust id f) where
  size := by simp [Graph.size, Graph.adjust]
  kept n _ hbut := by
    have hn : id ≠ n := by simpa using hbut
    rw [Graph.node?, Graph.adjust, Array.getElem?_modify, if_neg hn]
    rfl
  table _ _ h := h
  ranged hr key n hfind := by
    simpa [Graph.size, Graph.adjust] using hr key n hfind
  fresh n m hle _ hm := by
    have hlt : n < g.size := by simpa [Graph.size, Graph.adjust] using lt_size_of_node hm
    exact absurd hlt (Nat.not_lt.mpr hle)

/-- A graph that has grown from a whole one is whole. -/
theorem whole (h : Grows none g g') (hw : g.Whole) : g'.Whole := by
  intro id node hnode
  by_cases hlt : id < g.size
  · rw [h.kept id hlt (by simp)] at hnode
    exact (hw id node hnode).mono h.size h.table
  · exact h.fresh id node (Nat.le_of_not_lt hlt) (by simp) hnode

end Grows

theorem node_adjust {f : Node → Node} (h : g.node? id = some node) :
    (g.adjust id f).node? id = some (f node) := by
  have hget : g.nodes[id]? = some node := h
  rw [Graph.node?, Graph.adjust, Array.getElem?_modify, if_pos rfl, hget]
  rfl

/-- A node without members is complete if its shape is. -/
theorem Complete.plain (haug : node.augmentations = []) (hheld : ∀ n ∈ node.shape.children, n < g.size)
    (hitem : node.shape ≠ .array none)
    (htarget : ∀ ref key, node.shape = .reference ref key → ∃ n, g.find? key = some n ∧ n < g.size) :
    g.Complete node where
  held n hn := by
    refine hheld n ?_
    simpa [Node.children, haug] using hn
  item := hitem
  target := htarget
  keywords := by simp [haug]

/-- The excepted node is changed to a complete one. -/
theorem Grows.adjust_complete {f : Node → Node} {node' : Node} (h : Grows (some id) g g')
    (hnode : g'.node? id = some node) (hf : f node = node') (hc : g'.Complete node') :
    Grows (some id) g (g'.adjust id f) ∧
      (g'.adjust id f).node? id = some node' ∧ (g'.adjust id f).Complete node' :=
  ⟨h.trans (.adjust g' id f), hf ▸ node_adjust hnode,
    hc.mono (Grows.adjust g' id f).size (Grows.adjust g' id f).table⟩

end Graph

open TypeScribe.Graph (Grows)

/-! ## Building fragments -/

section

variable {σ : Type} {w w' : Workshop σ}

/-- Entering a node under keys that stand for no other node. -/
theorem Build.registerAll_grows {id : NodeId} {path : String} {u : Unit} (but : Option NodeId)
    (keys : List String) : ∀ {w w' : Workshop σ}, registerAll id path keys w = .ok u w' →
    id < w.graph.size → (∀ key ∈ keys, ∀ n, w.graph.find? key = some n → n = id) →
    Grows but w.graph w'.graph ∧ w'.graph.nodes = w.graph.nodes := by
  induction keys with
  | nil =>
    intro w w' h _ _
    cases h
    exact ⟨.refl _ _, rfl⟩
  | cons key rest ih =>
    intro w w' h hlt hkeys
    obtain ⟨_, w₁, h₁, h⟩ := ok_of_bind h
    have hkey := hkeys key (List.mem_cons_self ..)
    have hrest : ∀ k ∈ rest, ∀ n, w.graph.find? k = some n → n = id :=
      fun k hk => hkeys k (List.mem_cons_of_mem _ hk)
    rw [register] at h₁
    split at h₁
    · cases h₁
      exact ih h hlt hrest
    · cases h₁
      have hbind : Grows but w.graph (w.graph.bind key id) := .bind hlt hkey
      obtain ⟨hgrows, hnodes⟩ := ih h hlt (by
        intro k hk n hfind
        rw [show _ = (w.graph.bind key id).find? k from rfl, Graph.find_bind] at hfind
        split at hfind
        · exact (Option.some.inj hfind).symm
        · exact hrest k hk n hfind)
      exact ⟨hbind.trans hgrows, hnodes⟩

/-- An id that is known stands for a node. -/
theorem known_lt {facts : Facts} {n : NodeId} (hr : w.graph.Ranged)
    (h : facts.id.bind w.graph.find? = some n) : n < w.graph.size := by
  obtain ⟨key, -, hfind⟩ := Option.bind_eq_some_iff.mp h
  exact hr key n hfind

/-- A new node is entered under keys that stand for nothing. -/
theorem Build.enter_grows {node : Node} {path : String} {keys : List String} {u : Unit}
    (hkeys : ∀ key ∈ keys, w.graph.find? key = none)
    (h : registerAll w.graph.size path keys { w with graph := w.graph.push node } = .ok u w') :
    Grows (some w.graph.size) w.graph w'.graph ∧ w'.graph.node? w.graph.size = some node := by
  have hlt : w.graph.size < (w.graph.push node).size := by simp [Graph.size, Graph.push]
  obtain ⟨hgrows, hnodes⟩ := registerAll_grows (some w.graph.size) keys h hlt (by
    intro key hkey n hfind
    have hnone : (w.graph.push node).find? key = none := hkeys key hkey
    rw [hnone] at hfind
    cases hfind)
  refine ⟨(Grows.push w.graph node).trans hgrows, ?_⟩
  rw [Graph.node?, hnodes]
  exact Array.getElem?_push_size

/-- **What is asked of resolving references**: the graph grows, and the key of a link is known. -/
def Links (link : String → Build σ Link) : Prop :=
  ∀ {ref : String} {w w' : Workshop σ} {l : Link}, w.graph.Ranged → link ref w = .ok l w' →
    Grows none w.graph w'.graph ∧ ∃ n, w'.graph.find? l.target = some n

/-- The shape of the excepted node is set, once all it holds is built. -/
theorem Build.reshape_grows {g : Graph} {id : NodeId} {node : Node} {shape : Shape} {u : Unit}
    (hgrows : Grows none g w.graph) (hnode : g.node? id = some node) (haug : node.augmentations = [])
    (hheld : ∀ n ∈ shape.children, n < w.graph.size) (hitem : shape ≠ .array none)
    (htarget : ∀ ref key, shape = .reference ref key →
      ∃ n, w.graph.find? key = some n ∧ n < w.graph.size)
    (h : reshape id shape w = .ok u w') :
    Grows (some id) g w'.graph ∧
      ∃ node', w'.graph.node? id = some node' ∧ w'.graph.Complete node' := by
  cases h
  rw [← hgrows.kept id (Graph.lt_size_of_node hnode) (by simp)] at hnode
  refine ⟨((hgrows.weaken (some id)).trans (.adjust _ id _)), { node with shape },
    Graph.node_adjust hnode, ?_⟩
  have hc : w.graph.Complete { node with shape } := .plain haug hheld hitem htarget
  exact hc.mono (Grows.adjust _ id _).size (Grows.adjust _ id _).table

/-- A field is added to the excepted node, once its type is built. -/
theorem Build.addField_grows {g : Graph} {id : NodeId} {node : Node} {fields : List Field}
    {field : Field} {u : Unit} (hgrows : Grows none g w.graph) (hnode : g.node? id = some node)
    (hshape : node.shape = .object fields) (haug : node.augmentations = []) (hc : g.Complete node)
    (hlt : field.type < w.graph.size) (h : addField id field w = .ok u w') :
    Grows (some id) g w'.graph ∧
      w'.graph.node? id = some { node with shape := .object (fields ++ [field]) } ∧
      w'.graph.Complete { node with shape := .object (fields ++ [field]) } := by
  cases h
  rw [← hgrows.kept id (Graph.lt_size_of_node hnode) (by simp)] at hnode
  have hheld : ∀ n ∈ (Shape.object (fields ++ [field])).children, n < w.graph.size := by
    intro n hn
    rw [Shape.children, List.map_append, List.mem_append] at hn
    rcases hn with hn | hn
    · refine Nat.lt_of_lt_of_le (hc.held n (List.mem_append_left _ ?_)) hgrows.size
      rw [hshape]
      exact hn
    · obtain rfl : n = field.type := by simpa using hn
      exact hlt
  have hc' : w.graph.Complete { node with shape := .object (fields ++ [field]) } :=
    .plain haug hheld (by simp) (by simp)
  refine (hgrows.weaken (some id)).adjust_complete hnode ?_ hc'
  simp only [hshape]

/-- The members of the excepted node are set. -/
theorem Build.augment_grows {g : Graph} {id : NodeId} {node : Node}
    {augmentations : List Augmentation} {u : Unit} (hgrows : Grows (some id) g w.graph)
    (hnode : w.graph.node? id = some node) (hc : w.graph.Complete { node with augmentations })
    (h : augment id augmentations w = .ok u w') :
    Grows (some id) g w'.graph ∧ w'.graph.node? id = some { node with augmentations } ∧
      w'.graph.Complete { node with augmentations } := by
  cases h
  exact hgrows.adjust_complete hnode rfl hc

variable {link : String → Build σ Link}

mutual

/-- **Building a fragment** grows the graph. -/
theorem Schema.build_grows (hlink : Links link) (s : Schema) (hs : s.Orderly) {name : Option String}
    {path : String} {keys : List String} {w w' : Workshop σ} {id : NodeId} (hr : w.graph.Ranged)
    (hkeys : ∀ key ∈ keys, w.graph.find? key = none) (h : s.build link name path keys w = .ok id w') :
    Grows none w.graph w'.graph ∧ id < w'.graph.size := by
  match s with
  | .unsupported facts =>
    obtain ⟨known, w₁, h₁, h⟩ := ok_of_bind h
    cases h₁
    cases hknown : facts.id.bind w.graph.find? with
    | none =>
      rw [hknown] at h
      cases h
    | some n =>
      rw [hknown] at h
      cases h
      exact ⟨.refl _ _, known_lt hr hknown⟩
  | .fragment facts body groups =>
    obtain ⟨known, w₁, h₁, h⟩ := ok_of_bind h
    cases h₁
    cases hknown : facts.id.bind w.graph.find? with
    | some n =>
      rw [hknown] at h
      cases h
      exact ⟨.refl _ _, known_lt hr hknown⟩
    | none =>
      rw [hknown] at h
      have .fragment _ hbody hkeywords hmembers := hs
      obtain ⟨n, w₁, hadd, h⟩ := ok_of_bind h
      cases hadd
      obtain ⟨_, w₂, hregister, h⟩ := ok_of_bind h
      obtain ⟨_, w₃, hparts, h⟩ := ok_of_bind h
      obtain ⟨augmentations, w₄, hgroups, h⟩ := ok_of_bind h
      obtain ⟨_, w₅, haugment, h⟩ := ok_of_bind h
      cases h
      -- the new node is excepted until its parts and its members are there
      have hunknown : ∀ key ∈ facts.id.toList ++ keys, w.graph.find? key = none := by
        intro key hkey
        rcases List.mem_append.mp hkey with hkey | hkey
        · rw [Option.mem_toList.mp hkey] at hknown
          exact hknown
        · exact hkeys key hkey
      obtain ⟨henter, hnode⟩ := Build.enter_grows hunknown hregister
      obtain ⟨hpartsGrow, node, hnode, hcomplete⟩ :=
        Body.build_grows hlink body hbody (henter.ranged hr) hnode rfl rfl hparts
      have hgrows := henter.trans hpartsGrow
      obtain ⟨hgroupsGrow, hheld, hkeys'⟩ :=
        Group.buildAll_grows hlink groups hmembers (hgrows.ranged hr) hgroups
      rw [← hgroupsGrow.kept _ (Graph.lt_size_of_node hnode) (by simp)] at hnode
      have hcomplete := (hcomplete.mono hgroupsGrow.size hgroupsGrow.table).augment hheld
        (hkeys' ▸ hkeywords)
      obtain ⟨hgrows, hnode, hcomplete⟩ :=
        Build.augment_grows (hgrows.trans (hgroupsGrow.weaken _)) hnode hcomplete haugment
      exact ⟨hgrows.complete (Nat.le_refl _) hnode hcomplete, Graph.lt_size_of_node hnode⟩

/-- Building the body of a node leaves every other node as it is, and the node itself complete. -/
theorem Body.build_grows (hlink : Links link) (body : Body) (hb : body.Orderly) {facts : Facts}
    {name : Option String} {path : String} {w w' : Workshop σ} {id : NodeId} {node : Node} {u : Unit}
    (hr : w.graph.Ranged) (hnode : w.graph.node? id = some node) (hshape : node.shape = .unbuilt body)
    (haug : node.augmentations = []) (h : body.build link id facts name path w = .ok u w') :
    Grows (some id) w.graph w'.graph ∧
      ∃ node', w'.graph.node? id = some node' ∧ w'.graph.Complete node' := by
  match body with
  | .scalar s =>
    cases h
    exact ⟨.refl _ _, node, hnode, .plain haug (by simp [hshape, Shape.unbuilt, Shape.children])
      (by simp [hshape, Shape.unbuilt]) (by simp [hshape, Shape.unbuilt])⟩
  | .composite =>
    cases h
    exact ⟨.refl _ _, node, hnode, .plain haug (by simp [hshape, Shape.unbuilt, Shape.children])
      (by simp [hshape, Shape.unbuilt]) (by simp [hshape, Shape.unbuilt])⟩
  | .choice alternatives =>
    have .choice parts := hb
    obtain ⟨ids, w₁, hall, h⟩ := ok_of_bind h
    obtain ⟨hgrows, hids⟩ := Schema.buildAll_grows hlink alternatives parts hr hall
    refine Build.reshape_grows hgrows hnode haug ?_ (by simp) (by simp) h
    exact hids
  | .array items =>
    have .array part := hb
    obtain ⟨item, w₁, hitem, h⟩ := ok_of_bind h
    obtain ⟨hgrows, hlt⟩ := Schema.build_grows hlink items part hr (by simp) hitem
    refine Build.reshape_grows hgrows hnode haug ?_ (by simp) (by simp) h
    simpa [Shape.children] using hlt
  | .object required properties =>
    have .object _ parts := hb
    refine Body.buildFields_grows hlink properties parts hr hnode hshape haug ?_ h
    exact .plain haug (by simp [hshape, Shape.unbuilt, Shape.children])
      (by simp [hshape, Shape.unbuilt]) (by simp [hshape, Shape.unbuilt])
  | .broken defect => cases h
  | .reference none => cases h
  | .reference (some ref) =>
    obtain ⟨l, w₁, hl, h⟩ := ok_of_bind h
    obtain ⟨hgrows, n, hfind⟩ := hlink hr hl
    refine Build.reshape_grows hgrows hnode haug (by simp [Shape.children]) (by simp) ?_ h
    rintro ref key ⟨⟩
    exact ⟨n, hfind, hgrows.ranged hr _ n hfind⟩

theorem Body.buildFields_grows (hlink : Links link) (properties : List (String × Schema))
    (hp : ∀ p ∈ properties, p.2.Orderly) {required : List String} {path : String} {w w' : Workshop σ}
    {id : NodeId} {node : Node} {fields : List Field} {u : Unit} (hr : w.graph.Ranged)
    (hnode : w.graph.node? id = some node) (hshape : node.shape = .object fields)
    (haug : node.augmentations = []) (hc : w.graph.Complete node)
    (h : Body.buildFields link required properties id path w = .ok u w') :
    Grows (some id) w.graph w'.graph ∧
      ∃ node', w'.graph.node? id = some node' ∧ w'.graph.Complete node' := by
  match properties with
  | [] =>
    cases h
    exact ⟨.refl _ _, node, hnode, hc⟩
  | (name, schema) :: rest =>
    obtain ⟨type, w₁, htype, h⟩ := ok_of_bind h
    obtain ⟨_, w₂, hfield, h⟩ := ok_of_bind h
    obtain ⟨hgrows, hlt⟩ :=
      Schema.build_grows hlink schema (hp _ (List.mem_cons_self ..)) hr (by simp) htype
    obtain ⟨hgrows, hnode, hc⟩ := Build.addField_grows hgrows hnode hshape haug hc hlt hfield
    obtain ⟨hgrows', hrest⟩ := Body.buildFields_grows hlink rest
      (fun p hmem => hp p (List.mem_cons_of_mem _ hmem)) (hgrows.ranged hr) hnode rfl haug hc h
    exact ⟨hgrows.trans hgrows', hrest⟩

/-- Building a list of fragments lets the graph grow, and gives nodes of it. -/
theorem Schema.buildAll_grows (hlink : Links link) (schemas : List Schema)
    (hs : ∀ s ∈ schemas, s.Orderly) {path : String} {index : Nat} {w w' : Workshop σ}
    {ids : List NodeId} (hr : w.graph.Ranged)
    (h : Schema.buildAll link schemas path index w = .ok ids w') :
    Grows none w.graph w'.graph ∧ ∀ id ∈ ids, id < w'.graph.size := by
  match schemas with
  | [] =>
    cases h
    exact ⟨.refl _ _, by simp⟩
  | schema :: rest =>
    obtain ⟨id, w₁, hone, h⟩ := ok_of_bind h
    obtain ⟨ids, w₂, hmore, h⟩ := ok_of_bind h
    cases h
    obtain ⟨hgrows, hlt⟩ :=
      Schema.build_grows hlink schema (hs _ (List.mem_cons_self ..)) hr (by simp) hone
    obtain ⟨hgrows', hids⟩ := Schema.buildAll_grows hlink rest
      (fun s hmem => hs s (List.mem_cons_of_mem _ hmem)) (hgrows.ranged hr) hmore
    refine ⟨hgrows.trans hgrows', ?_⟩
    intro n hn
    rcases List.mem_cons.mp hn with rfl | hn
    · exact Nat.lt_of_lt_of_le hlt hgrows'.size
    · exact hids n hn

/-- Building composition groups lets the graph grow, and gives groups of its nodes. -/
theorem Group.buildAll_grows (hlink : Links link) (groups : List Group)
    (hg : ∀ group ∈ groups, group.Orderly) {facts : Facts} {path : String} {w w' : Workshop σ}
    {augmentations : List Augmentation} (hr : w.graph.Ranged)
    (h : Group.buildAll link groups facts path w = .ok augmentations w') :
    Grows none w.graph w'.graph ∧
      (∀ n ∈ augmentations.flatMap Augmentation.members, n < w'.graph.size) ∧
      augmentations.map Augmentation.keyword = groups.map Group.keyword := by
  match groups with
  | [] =>
    cases h
    exact ⟨.refl _ _, by simp, rfl⟩
  | .malformed keyword :: _ => cases h
  | .members keyword schemas :: rest =>
    obtain ⟨members, w₁, hone, h⟩ := ok_of_bind h
    obtain ⟨more, w₂, hmore, h⟩ := ok_of_bind h
    cases h
    have .members _ parts := hg _ (List.mem_cons_self ..)
    obtain ⟨hgrows, hlt⟩ := Schema.buildAll_grows hlink schemas parts hr hone
    obtain ⟨hgrows', hheld, hkeywords⟩ := Group.buildAll_grows hlink rest
      (fun group hmem => hg group (List.mem_cons_of_mem _ hmem)) (hgrows.ranged hr) hmore
    refine ⟨hgrows.trans hgrows', ?_, ?_⟩
    · intro n hn
      rw [List.flatMap_cons] at hn
      rcases List.mem_append.mp hn with hn | hn
      · exact Nat.lt_of_lt_of_le (hlt n hn) hgrows'.size
      · exact hheld n hn
    · rw [List.map_cons, List.map_cons, hkeywords]
      rfl

end

end

/-! ## Resolving references -/

section

variable {σ : Type} {settings : Settings} {w w' : Workshop σ}

theorem Build.keyOf_ok {ref key : String} (h : keyOf settings ref w = .ok key w') : w' = w := by
  obtain ⟨g, w₁, h₁, h⟩ := ok_of_bind h
  cases h₁
  split at h
  · cases h
    rfl
  · cases hlocate : settings.locate ref with
    | ok location =>
      rw [hlocate] at h
      cases h
      rfl
    | error failure =>
      rw [hlocate] at h
      cases h

/-- Loading a document does not touch the graph. -/
theorem Build.load_ok [Source σ] {location : String} {fields : Entries Json}
    (h : load location w = .ok fields w') : w'.graph = w.graph := by
  obtain ⟨w₀, w₁, h₁, h⟩ := ok_of_bind h
  cases h₁
  obtain ⟨_, w₂, h₂, h⟩ := ok_of_bind h
  cases h₂
  cases hload : (Source.load w.source location).result with
  | ok found =>
    rw [hload] at h
    cases h
    rfl
  | error fault =>
    rw [hload] at h
    cases h

/-- A link is made to a key that is known. -/
theorem Build.linkTo_ok {ref key : String} {l : Link} (h : linkTo ref key w = .ok l w') :
    w' = w ∧ ∃ n, w.graph.find? l.target = some n := by
  obtain ⟨g, w₁, h₁, h⟩ := ok_of_bind h
  cases h₁
  cases hfind : w.graph.find? key with
  | none =>
    rw [hfind] at h
    cases h
  | some n =>
    rw [hfind] at h
    obtain ⟨g, w₁, h₁, h⟩ := ok_of_bind h
    cases h₁
    cases hnode : w.graph.node? n with
    | none =>
      rw [hnode] at h
      cases h
    | some node =>
      rw [hnode] at h
      by_cases hname : node.name = ""
      · simp only [hname, if_true] at h
        cases h
      · simp only [hname, if_false] at h
        cases h
        exact ⟨rfl, n, hfind⟩

/-- A key that stands for nothing is bound to a node; another one is left alone. -/
theorem Build.bindNew_grows {key : String} {id : NodeId} {u : Unit} (hlt : id < w.graph.size)
    (h : bindNew key id w = .ok u w') : Grows none w.graph w'.graph := by
  cases h
  by_cases hknown : w.graph.knows key = true
  · simp only [hknown, if_true]
    exact .refl _ _
  · simp only [hknown]
    refine .bind hlt ?_
    intro n hfind
    exact absurd (by simp [Graph.knows, hfind]) hknown

variable [Source σ]

/-- **Resolving a reference** is a way to make links, whatever the budget. -/
theorem Build.resolve_links (settings : Settings) (budget : Nat) :
    Links (resolve settings budget : String → Build σ Link) := by
  induction budget with
  | zero =>
    intro ref w w' l hr hresolve
    rw [resolve] at hresolve
    obtain ⟨key, w₁, hkey, h⟩ := ok_of_bind hresolve
    obtain rfl := keyOf_ok hkey
    obtain ⟨g, w₂, h₂, h⟩ := ok_of_bind h
    cases h₂
    split at h
    · obtain ⟨rfl, hfind⟩ := linkTo_ok h
      exact ⟨.refl _ _, hfind⟩
    · cases h
  | succ budget ih =>
    intro ref w w' l hr hresolve
    rw [resolve] at hresolve
    obtain ⟨key, w₁, hkey, h⟩ := ok_of_bind hresolve
    obtain rfl := keyOf_ok hkey
    obtain ⟨g, w₂, h₂, h⟩ := ok_of_bind h
    cases h₂
    by_cases hknown : w₁.graph.knows key = true
    · simp only [hknown] at h
      obtain ⟨rfl, hfind⟩ := linkTo_ok h
      exact ⟨.refl _ _, hfind⟩
    · simp only [hknown] at h
      obtain ⟨_, w₂, hreport, h⟩ := ok_of_bind h
      cases hreport
      obtain ⟨fields, w₃, hload, h⟩ := ok_of_bind h
      obtain ⟨id, w₄, hbuild, h⟩ := ok_of_bind h
      obtain ⟨_, w₅, hbind, h⟩ := ok_of_bind h
      obtain ⟨rfl, hfind⟩ := linkTo_ok h
      have hgraph : w₃.graph = w₁.graph := (load_ok hload).trans rfl
      have hunknown : w₃.graph.find? key = none := by
        rw [hgraph]
        simpa [Graph.knows] using hknown
      obtain ⟨hgrows, hlt⟩ := Schema.build_grows ih _ (Schema.ofJson_orderly _) (hgraph ▸ hr)
        (by simpa using hunknown) hbuild
      rw [hgraph] at hgrows
      exact ⟨hgrows.trans (bindNew_grows hlt hbind), hfind⟩

/-- **Building a document** grows the graph. -/
theorem Build.root_grows {schema : Json} {name : Option String} {path : String} {id : NodeId}
    (hr : w.graph.Ranged) (h : root settings schema name path [] w = .ok id w') :
    Grows none w.graph w'.graph ∧ id < w'.graph.size := by
  obtain ⟨w₀, w₁, h₁, h⟩ := ok_of_bind h
  cases h₁
  exact Schema.build_grows (resolve_links settings _) _ (Schema.ofJson_orderly schema) hr (by simp) h

end

end TypeScribe
