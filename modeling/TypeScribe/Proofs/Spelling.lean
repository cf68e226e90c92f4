import TypeScribe.Layout
import TypeScribe.Proofs.Walk

/-!
# Spelling

The texts of nodes as a **plain recursion**, without pages and without an order of conversion. A
declared node is spelled by its name; any other by its shape and its composing keywords, from the
spellings of the nodes that its arrows lead to.

`Spelling` holds one layer of the recursion: what a node comes to, given a text for every other node.
`Graph.inlineText` ties the knot, entering as many nodes one inside the other as there can be. Nothing
is remembered from one node to the next.
-/

namespace TypeScribe

namespace Spelling

section

variable (text : NodeId → String)

/-- The texts of nodes, less the empty ones. -/
def texts (ids : List NodeId) : List String := (ids.map text).filter fun t => decide (t ≠ "")

/-- The text of a composing keyword: its members with its operator in between. -/
def group (a : Augmentation) : String :=
  (" " ++ a.keyword.operator ++ " ").intercalate (texts text a.members)

/-- The texts of the composing keywords that have a member with a text. -/
def groups (augmentations : List Augmentation) : List String :=
  (augmentations.filter fun a => !(texts text a.members).isEmpty).map (group text)

/-- **Augmentation** of a node: what its composing keywords come to. -/
def augmentation (node : Node) : String := Layout.intersected (groups text node.augmentations)

/-- The fields of an object with the texts of their types. -/
def fields (fields : List Field) : List Layout.FieldText :=
  fields.map fun f => ⟨f.name, Layout.orNull (text f.type), f.required⟩

/-- **Expression** of a node: what its shape comes to. -/
def expression (g : Graph) (indent : Indent) (node : Node) : String :=
  match node.shape with
  | .scalar s => s.text
  | .choice alternatives => " | ".intercalate (texts text alternatives)
  | .array item => Layout.element (Layout.orNull ((item.map text).getD "")) ++ "[]"
  | .object fs => Layout.objectType indent (fields text fs)
  | .composite => augmentation text node
  | .reference _ target => Layout.orNull (((g.find? target).map text).getD "")

end

/-- The text of a node that is not declared. A mere composition is its augmentation already. -/
def undeclared (node : Node) (expression augmentation : String) : String :=
  match node.shape with
  | .composite => expression
  | _ => Layout.augmented expression augmentation

/-- The declaration of a node. -/
def declaration (node : Node) (expression augmentation : String) : String :=
  match node.shape with
  | .object _ =>
    if augmentation = "" then Layout.interfaceDecl node.name expression
    else Layout.splitDecl node.name expression augmentation
  | .composite => Layout.aliasDecl node.name (Layout.orNull expression)
  | _ => Layout.aliasDecl node.name (Layout.orNull (Layout.augmented expression augmentation))

/-- **Inline text** of a node: its name if it is declared. -/
def inline (text : NodeId → String) (g : Graph) (indent : Indent) (node : Node) : String :=
  if node.declared then node.name
  else undeclared node (expression text g indent node) (augmentation text node)

/-- **Block text** of a node. -/
def block (text : NodeId → String) (g : Graph) (indent : Indent) (node : Node) : String :=
  declaration node (expression text g indent node) (augmentation text node)

section

variable (text : NodeId → String) (g : Graph) (indent : Indent) (node : Node)

/-- **The base of a node**: what stands beside its keywords. A mere composition has none, and the shape of an object
that is declared in two parts is known by its private name. -/
def base : String :=
  match node.shape with
  | .composite => ""
  | .object _ =>
    if node.declared = true ∧ augmentation text node ≠ "" then "_" ++ node.name
    else expression text g indent node
  | _ => expression text g indent node

/-- **The whole expression of a node**: its base and its keywords. -/
def whole : String := Layout.augmented (base text g indent node) (augmentation text node)

variable {text g indent node}

/-- Without a base the keywords are all there is. -/
theorem whole_composite (hshape : node.shape = .composite) : whole text g indent node = augmentation text node := by
  simp only [whole, base, hshape, Layout.augmented]
  split
  · rename_i hempty
    exact hempty.symm
  · simp

theorem whole_other (hcomposite : node.shape ≠ .composite)
    (hobject : ∀ fields, node.shape = .object fields → node.declared = false ∨ augmentation text node = "") :
    whole text g indent node = Layout.augmented (expression text g indent node) (augmentation text node) := by
  rw [whole, base]
  split
  · contradiction
  · rename_i fields hshape
    rw [if_neg]
    rintro ⟨hdeclared, hne⟩
    rcases hobject fields hshape with hnot | hempty
    · exact absurd (hdeclared.symm.trans hnot) (by decide)
    · exact hne hempty
  · rfl

/-- A declared object with an augmentation is split: its type is the intersection of its private
name and the augmentation. -/
theorem whole_split {fields : List Field} (hshape : node.shape = .object fields) (hdecl : node.declared = true)
    (hne : augmentation text node ≠ "") :
    whole text g indent node = "_" ++ node.name ++ " & " ++ Layout.parens (augmentation text node) := by
  have hbase : base text g indent node = "_" ++ node.name := by
    simp only [base, hshape]
    exact if_pos ⟨hdecl, hne⟩
  rw [whole, hbase, Layout.augmented, if_neg hne, if_neg (by simp)]

/-- **A node that is not declared** is written as its whole expression. -/
theorem inline_eq (h : node.declared = false) : inline text g indent node = whole text g indent node := by
  simp only [inline, h, Bool.false_eq_true, if_false, undeclared]
  split
  · rename_i hshape
    rw [whole_composite hshape]
    simp only [expression, hshape]
  · rename_i hshape
    exact (whole_other hshape fun _ _ => Or.inl h).symm

end

end Spelling

namespace Graph

/-- The inline text of a node, entering at most `depth` nodes one inside the other. -/
def inlineWithin (g : Graph) (indent : Indent) : (depth : Nat) → NodeId → String
  | 0, _ => ""
  | depth + 1, id =>
    match g.node? id with
    | none => ""
    | some node => Spelling.inline (g.inlineWithin indent depth) g indent node

/-- **Inline text of a node**, by plain recursion. -/
def inlineText (g : Graph) (indent : Indent) (id : NodeId) : String :=
  g.inlineWithin indent (g.size + 1) id

end Graph

/-! ## Only arrows matter -/

/-- The members of a node are those of its keywords, one with another. -/
theorem Node.mem_members {node : Node} {n : NodeId} :
    n ∈ node.members ↔ ∃ a ∈ node.augmentations, n ∈ a.members := by
  simp only [Node.members, List.mem_flatMap, List.mem_filter, decide_eq_true_eq]
  constructor
  · rintro ⟨k, -, a, ⟨ha, -⟩, hn⟩
    exact ⟨a, ha, hn⟩
  · rintro ⟨a, ha, hn⟩
    refine ⟨a.keyword, ?_, a, ⟨ha, rfl⟩, hn⟩
    cases a.keyword <;> simp [Keyword.all]

namespace Graph

variable {g : Graph} {id : NodeId} {node : Node}

theorem arrows_of_node (h : g.node? id = some node) :
    g.arrows id = (node.members.map fun t => ⟨id, t, false⟩) ++ g.shapeArrows id node.shape := by
  rw [arrows, h]

theorem arrow_of_member (h : g.node? id = some node) {n : NodeId} (hn : n ∈ node.members) :
    ⟨id, n, false⟩ ∈ g.arrows id := by
  rw [arrows_of_node h]
  exact List.mem_append_left _ (List.mem_map.mpr ⟨n, hn, rfl⟩)

/-- The arrows of the shape are arrows of the node. -/
theorem arrow_of_shape (h : g.node? id = some node) {a : Arrow}
    (ha : a ∈ g.shapeArrows id node.shape) : a ∈ g.arrows id := by
  rw [arrows_of_node h]
  exact List.mem_append_right _ ha

end Graph

namespace Spelling

variable {g : Graph} {indent : Indent} {id : NodeId} {node : Node} {text text' : NodeId → String}

theorem texts_congr {ids : List NodeId} (h : ∀ n ∈ ids, text n = text' n) :
    texts text ids = texts text' ids := by
  rw [texts, texts, List.map_congr_left h]

theorem groups_congr {augmentations : List Augmentation}
    (h : ∀ a ∈ augmentations, ∀ n ∈ a.members, text n = text' n) :
    groups text augmentations = groups text' augmentations := by
  have htexts : ∀ a ∈ augmentations, texts text a.members = texts text' a.members :=
    fun a ha => texts_congr (h a ha)
  rw [groups, groups, List.filter_congr fun a ha => by rw [htexts a ha]]
  refine List.map_congr_left fun a ha => ?_
  rw [group, group, htexts a (List.mem_filter.mp ha).1]

theorem augmentation_congr (h : ∀ n ∈ node.members, text n = text' n) :
    augmentation text node = augmentation text' node := by
  rw [augmentation, augmentation, groups_congr fun a ha n hn => h n (Node.mem_members.mpr ⟨a, ha, hn⟩)]

/-- **The spelling of a node depends on its arrows alone**: texts that agree where they lead to give
the same expression and the same augmentation. -/
theorem expression_congr (indent : Indent) (hnode : g.node? id = some node)
    (h : ∀ a ∈ g.arrows id, text a.target = text' a.target) :
    expression text g indent node = expression text' g indent node ∧
      augmentation text node = augmentation text' node := by
  have hmembers : augmentation text node = augmentation text' node :=
    augmentation_congr fun n hn => h _ (Graph.arrow_of_member hnode hn)
  have hshape : ∀ a ∈ g.shapeArrows id node.shape, text a.target = text' a.target :=
    fun a ha => h a (Graph.arrow_of_shape hnode ha)
  refine ⟨?_, hmembers⟩
  cases hs : node.shape with
  | scalar s => simp only [expression, hs]
  | composite => simpa only [expression, hs] using hmembers
  | choice alternatives =>
    simp only [hs, Graph.shapeArrows, Shape.children, List.mem_map, forall_exists_index, and_imp,
      forall_apply_eq_imp_iff₂] at hshape
    simp only [expression, hs, texts_congr hshape]
  | array item =>
    cases item with
    | none => simp only [expression, hs, Option.map_none]
    | some item =>
      have hitem := hshape ⟨id, item, false⟩ (by simp [hs, Graph.shapeArrows, Shape.children])
      simp only [expression, hs, Option.map_some, hitem]
  | object fs =>
    simp only [hs, Graph.shapeArrows, Shape.children, List.mem_map, forall_exists_index, and_imp,
      forall_apply_eq_imp_iff₂] at hshape
    have hfields : fields text fs = fields text' fs :=
      List.map_congr_left fun f hf => by rw [hshape f hf]
    simp only [expression, hs, hfields]
  | reference ref target =>
    cases ht : g.find? target with
    | none => simp only [expression, hs, ht, Option.map_none]
    | some t =>
      have htarget := hshape ⟨id, t, true⟩ (by simp [hs, Graph.shapeArrows, ht])
      simp only [expression, hs, ht, Option.map_some, htarget]

/-- What stands for a node depends on the texts at the ends of its arrows. -/
theorem inline_congr (hnode : g.node? id = some node)
    (h : ∀ a ∈ g.arrows id, text a.target = text' a.target) :
    inline text g indent node = inline text' g indent node := by
  obtain ⟨hexpr, haug⟩ := expression_congr indent hnode h
  rw [inline, inline, hexpr, haug]

/-- The block of a node depends on the texts at the ends of its arrows. -/
theorem block_congr (hnode : g.node? id = some node)
    (h : ∀ a ∈ g.arrows id, text a.target = text' a.target) :
    block text g indent node = block text' g indent node := by
  obtain ⟨hexpr, haug⟩ := expression_congr indent hnode h
  rw [block, block, hexpr, haug]

end Spelling

end TypeScribe
