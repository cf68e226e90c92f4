import TypeScribe.Proofs.Emission
import TypeScribe.Proofs.Syntax

/-!
# What is written are expressions

Every text that conversion writes is the text of a tree. A text may be empty, which stands for no
type at all, and then it is left out or taken for null where it is used (`Worded`); whatever is left is
the text of an expression (`Expressed`).

* **One layer.** If the nodes that the arrows of a node lead to have such texts, so has the node. This
  is said of `Spelling`, shape by shape, and nothing here depends on the order of conversion.
* **Pages.** A closed node reads names, texts of nodes closed before, and nothing else, so the pages of
  closed nodes have such texts (`Tracks.worded`). The names in them are the names of the declared nodes
  that the node **mentions**: those it leads to through undeclared nodes only.
* **Output.** What a compilation writes are the declarations of the nodes that are kept
  (`Registry.Compiled.written`).
-/

namespace TypeScribe

/-! ## Texts of expressions -/

/-- A text is **expressed** if it is the text of an expression with names of the given kind. -/
def Expressed (indent : Indent) (named : String → Prop) (text : String) : Prop :=
  ∃ e : Expr, text = e.text indent ∧ ∀ x ∈ e.names, named x

/-- A text is **worded** if it is empty or expressed. -/
def Worded (indent : Indent) (named : String → Prop) (text : String) : Prop :=
  text = "" ∨ Expressed indent named text

section

variable {indent : Indent} {named named' : String → Prop} {text augmentation : String}
  {texts : List String}

theorem Worded.mono (himp : ∀ x, named x → named' x) (h : Worded indent named text) :
    Worded indent named' text := by
  rcases h with h | ⟨e, he, hnames⟩
  · exact Or.inl h
  · exact Or.inr ⟨e, he, fun x hx => himp x (hnames x hx)⟩

theorem Worded.expressed (h : Worded indent named text) (hne : text ≠ "") :
    Expressed indent named text :=
  h.resolve_left hne

/-- Where there has to be a text, null stands for none. -/
theorem Worded.orNull (h : Worded indent named text) :
    Expressed indent named (Layout.orNull text) := by
  by_cases hempty : text = ""
  · exact ⟨.scalar .null, by rw [hempty]; rfl, by simp [Expr.names]⟩
  · rw [Layout.orNull, if_neg hempty]
    exact h.expressed hempty

namespace Expressed

theorem ofName {x : String} (h : named x) : Expressed indent named x :=
  ⟨.name x, rfl, by simpa [Expr.names] using h⟩

theorem parens (h : Expressed indent named text) : Expressed indent named (Layout.parens text) := by
  obtain ⟨e, rfl, hnames⟩ := h
  exact ⟨.parens e, rfl, hnames⟩

/-- An element type stands in parentheses or not, and both are expressions. -/
theorem array (h : Expressed indent named text) :
    Expressed indent named (Layout.element text ++ "[]") := by
  have hitem : Expressed indent named (Layout.element text) := by
    rw [Layout.element]
    split
    · exact h.parens
    · exact h
  obtain ⟨e, he, hnames⟩ := hitem
  exact ⟨.array e, by rw [he, Expr.text], hnames⟩

/-- Expressed texts are the texts of as many expressions. -/
theorem exists_map (h : ∀ t ∈ texts, Expressed indent named t) :
    ∃ es : List Expr, texts = es.map (Expr.text indent) ∧ ∀ e ∈ es, ∀ x ∈ e.names, named x := by
  induction texts with
  | nil => exact ⟨[], rfl, by simp⟩
  | cons t rest ih =>
    obtain ⟨e, rfl, hnames⟩ := h t (List.mem_cons_self ..)
    obtain ⟨es, rfl, hrest⟩ := ih fun t ht => h t (List.mem_cons_of_mem _ ht)
    refine ⟨e :: es, rfl, ?_⟩
    intro f hf
    rcases List.mem_cons.mp hf with rfl | hf
    · exact hnames
    · exact hrest f hf

/-- Expressed texts with an operator in between. -/
theorem intercalate (combine : Expr → Expr → Expr) {separator : String}
    (htext : ∀ l r, (combine l r).text indent = l.text indent ++ separator ++ r.text indent)
    (hnames : ∀ l r, (combine l r).names = l.names ++ r.names) (hne : texts ≠ [])
    (h : ∀ t ∈ texts, Expressed indent named t) :
    Expressed indent named (separator.intercalate texts) := by
  obtain ⟨es, rfl, hes⟩ := exists_map h
  cases es with
  | nil => exact absurd rfl hne
  | cons e rest =>
    refine ⟨Expr.joined combine e rest, (Expr.text_joined htext rest e).symm, ?_⟩
    intro x hx
    obtain ⟨f, hf, hxf⟩ := Expr.mem_names_joined hnames rest e hx
    exact hes f hf x hxf

end Expressed

/-- A union of texts, which may be none. -/
theorem Worded.union (h : ∀ t ∈ texts, Expressed indent named t) :
    Worded indent named (" | ".intercalate texts) := by
  by_cases hne : texts = []
  · exact Or.inl (by rw [hne, String.intercalate_nil])
  · exact Or.inr (Expressed.intercalate .union (fun _ _ => rfl) (fun _ _ => rfl) hne h)

/-- Groups intersected, which may be none. -/
theorem Worded.intersected (h : ∀ t ∈ texts, Expressed indent named t) :
    Worded indent named (Layout.intersected texts) := by
  match texts, h with
  | [], _ => exact Or.inl rfl
  | [group], h => exact Or.inr (h group (List.mem_singleton_self group))
  | first :: second :: rest, h =>
    refine Or.inr ?_
    rw [Layout.intersected]
    · refine Expressed.intercalate .intersection (fun _ _ => rfl) (fun _ _ => rfl)
        (by simp) ?_
      intro t ht
      obtain ⟨group, hgroup, rfl⟩ := List.mem_map.mp ht
      exact (h group hgroup).parens
    all_goals simp

/-- A base with an augmentation, each of which may be missing. -/
theorem Worded.augmented (h : Worded indent named text) (ha : Worded indent named augmentation) :
    Worded indent named (Layout.augmented text augmentation) := by
  rw [Layout.augmented]
  by_cases haug : augmentation = ""
  · rw [if_pos haug]
    exact h
  · rw [if_neg haug]
    by_cases htext : text = ""
    · rw [if_pos htext]
      exact ha
    · rw [if_neg htext]
      obtain ⟨e, rfl, hnames⟩ := h.expressed htext
      obtain ⟨a, rfl, hnames'⟩ := ha.expressed haug
      refine Or.inr ⟨.intersection e (.parens a), rfl, ?_⟩
      intro x hx
      rcases List.mem_append.mp hx with hx | hx
      · exact hnames x hx
      · exact hnames' x hx

end

/-- **Declarations of a name**, with the names they use. An object type with an augmentation is declared
in two parts, and the second uses the private name of the first. -/
inductive Declares (named : String → Prop) (name : String) : List Declaration → Prop where
  | plain {d : Declaration} (declared : d.declared = name) (uses : ∀ x ∈ d.names, named x) :
      Declares named name [d]
  | split {properties : List Property} {augmentation : Expr}
      (shape : ∀ x ∈ Expr.namesOfAll properties, named x)
      (uses : ∀ x ∈ augmentation.names, named x) :
      Declares named name [.interface ("_" ++ name) properties,
        .alias name (.intersection (.name ("_" ++ name)) (.parens augmentation))]

/-- **The names that a node declares** with the given augmentation: its own, and that of its shape where
an object has an augmentation. -/
def Node.declares (node : Node) (augmentation : String) : List String :=
  match node.shape with
  | .object _ => if augmentation = "" then [node.name] else ["_" ++ node.name, node.name]
  | _ => [node.name]

theorem Node.declares_object {node : Node} {fs : List Field} (h : node.shape = .object fs)
    (augmentation : String) : node.declares augmentation =
      if augmentation = "" then [node.name] else ["_" ++ node.name, node.name] := by
  rw [declares, h]

theorem Node.declares_other {node : Node} (h : ∀ fs, node.shape ≠ .object fs) (augmentation : String) :
    node.declares augmentation = [node.name] := by
  rw [declares]
  split
  case h_1 fs hs => exact absurd hs (h fs)
  case h_2 => rfl

/-- Whether a node is declared by an alias, with the given augmentation: an object is an interface without one. -/
def Node.isAlias (node : Node) (augmentation : String) : Bool :=
  match node.shape with
  | .object _ => decide (augmentation ≠ "")
  | _ => true

theorem Node.isAlias_object {node : Node} {fs : List Field} (h : node.shape = .object fs) (augmentation : String) :
    node.isAlias augmentation = decide (augmentation ≠ "") := by
  rw [isAlias, h]

theorem Node.isAlias_other {node : Node} (h : ∀ fs, node.shape ≠ .object fs) (augmentation : String) :
    node.isAlias augmentation = true := by
  rw [isAlias]
  split
  case h_1 fs hs => exact absurd hs (h fs)
  case h_2 => rfl

/-- **The aliases among declarations** are those of one name for one text, if there is to be one at all. -/
structure Aliases (indent : Indent) (name text : String) (isAlias : Bool) (ds : List Declaration) : Prop where
  only : ∀ {x : String} {e : Expr}, .alias x e ∈ ds → isAlias = true ∧ x = name ∧ e.text indent = text
  exists_alias : isAlias = true → ∃ e, .alias name e ∈ ds

/-! ## One layer -/

namespace Spelling

variable {g : Graph} {indent : Indent} {id : NodeId} {node : Node} {text : NodeId → String}
  {named : String → Prop}

theorem texts_expressed {ids : List NodeId} (h : ∀ n ∈ ids, Worded indent named (text n)) :
    ∀ t ∈ texts text ids, Expressed indent named t := by
  intro t ht
  obtain ⟨hmem, hne⟩ := List.mem_filter.mp ht
  obtain ⟨n, hn, rfl⟩ := List.mem_map.mp hmem
  exact (h n hn).expressed (by simpa using hne)

theorem groups_expressed (h : ∀ n ∈ node.members, Worded indent named (text n)) :
    ∀ t ∈ groups text node.augmentations, Expressed indent named t := by
  intro t ht
  obtain ⟨a, ha, rfl⟩ := List.mem_map.mp ht
  obtain ⟨ha, hne⟩ := List.mem_filter.mp ha
  refine Expressed.intercalate a.keyword.combine (a.keyword.text_combine indent)
    a.keyword.names_combine (by simpa using hne) (texts_expressed fun n hn => h n ?_)
  exact Node.mem_members.mpr ⟨a, ha, hn⟩

/-- The augmentation of a node is an expression or nothing, if the texts of its members are. -/
theorem augmentation_worded (h : ∀ n ∈ node.members, Worded indent named (text n)) :
    Worded indent named (augmentation text node) :=
  Worded.intersected (groups_expressed h)

/-- The fields of an object are properties of an object type. -/
theorem fields_eq {fs : List Field} (h : ∀ f ∈ fs, Worded indent named (text f.type)) :
    ∃ properties, fields text fs = Expr.fields indent properties ∧
      ∀ x ∈ Expr.namesOfAll properties, named x := by
  induction fs with
  | nil => exact ⟨[], rfl, by simp [Expr.namesOfAll]⟩
  | cons f rest ih =>
    obtain ⟨e, he, hnames⟩ := (h f (List.mem_cons_self ..)).orNull
    obtain ⟨properties, hrest, hnames'⟩ := ih fun f hf => h f (List.mem_cons_of_mem _ hf)
    refine ⟨⟨f.name, f.required, e⟩ :: properties, ?_, ?_⟩
    · rw [fields, List.map_cons, he, Expr.fields, ← hrest]
      rfl
    · intro x hx
      rcases List.mem_append.mp hx with hx | hx
      · exact hnames x hx
      · exact hnames' x hx

/-- An object is spelled as an object type. -/
theorem expression_object {fs : List Field} (hshape : node.shape = .object fs)
    (h : ∀ a ∈ g.shapeArrows id node.shape, Worded indent named (text a.target)) :
    ∃ properties, expression text g indent node =
        Layout.objectType indent (Expr.fields indent properties) ∧
      ∀ x ∈ Expr.namesOfAll properties, named x := by
  rw [hshape] at h
  have hparts : ∀ f ∈ fs, Worded indent named (text f.type) := fun f hf =>
    h ⟨id, f.type, false⟩ (List.mem_map.mpr ⟨f.type, List.mem_map.mpr ⟨f, hf, rfl⟩, rfl⟩)
  obtain ⟨properties, hfields, hnames⟩ := fields_eq hparts
  exact ⟨properties, by rw [expression, hshape, ← hfields], hnames⟩

/-- **The expression of a node is worded** if all it is made of is. -/
theorem expression_worded (hnode : g.node? id = some node)
    (h : ∀ a ∈ g.arrows id, Worded indent named (text a.target)) :
    Worded indent named (expression text g indent node) := by
  have hshape : ∀ a ∈ g.shapeArrows id node.shape, Worded indent named (text a.target) :=
    fun a ha => h a (Graph.arrow_of_shape hnode ha)
  cases hs : node.shape with
  | scalar s =>
    simp only [expression, hs]
    cases s with
    | null => exact Or.inl rfl
    | string => exact Or.inr ⟨.scalar .string, rfl, by simp [Expr.names]⟩
    | number => exact Or.inr ⟨.scalar .number, rfl, by simp [Expr.names]⟩
    | boolean => exact Or.inr ⟨.scalar .boolean, rfl, by simp [Expr.names]⟩
  | composite =>
    simp only [expression, hs]
    exact augmentation_worded fun n hn => h _ (Graph.arrow_of_member hnode hn)
  | choice alternatives =>
    simp only [expression, hs]
    refine Worded.union (texts_expressed fun n hn => hshape ⟨id, n, false⟩ ?_)
    rw [hs]
    exact List.mem_map.mpr ⟨n, hn, rfl⟩
  | array item =>
    simp only [expression, hs]
    refine Or.inr (Expressed.array (Worded.orNull ?_))
    cases item with
    | none => exact Or.inl rfl
    | some item => exact hshape ⟨id, item, false⟩ (by simp [hs, Graph.shapeArrows, Shape.children])
  | object fs =>
    obtain ⟨properties, hexpr, hnames⟩ := expression_object hs hshape
    exact Or.inr ⟨.object properties, by rw [hexpr, Expr.text], hnames⟩
  | reference ref target =>
    simp only [expression, hs]
    refine Or.inr (Worded.orNull ?_)
    cases ht : g.find? target with
    | none => exact Or.inl rfl
    | some t => exact hshape ⟨id, t, true⟩ (by simp [hs, Graph.shapeArrows, ht])

/-- **The inline text of a node is worded** if all it is made of is. -/
theorem inline_worded (hnode : g.node? id = some node) (hdecl : node.declared = false)
    (h : ∀ a ∈ g.arrows id, Worded indent named (text a.target)) :
    Worded indent named (inline text g indent node) := by
  have hexpr := expression_worded hnode h
  have haug : Worded indent named (augmentation text node) :=
    augmentation_worded fun n hn => h _ (Graph.arrow_of_member hnode hn)
  simp only [inline, hdecl, Bool.false_eq_true, if_false, undeclared]
  split
  · exact hexpr
  · exact hexpr.augmented haug

/-- An alias of a text that may be missing. -/
theorem aliasDecl_declares (name : String) {t : String} (h : Worded indent named t) :
    ∃ ds, Layout.aliasDecl name (Layout.orNull t) = Declaration.block indent ds ∧
      Declares named name ds ∧ ds.map Declaration.declared = [name] ∧
      Aliases indent name (Layout.orNull t) true ds := by
  obtain ⟨e, he, hnames⟩ := h.orNull
  refine ⟨[.alias name e], ?_, .plain rfl hnames, rfl, ?_, fun _ => ⟨e, List.mem_singleton_self _⟩⟩
  · rw [he, Declaration.block, List.map_singleton, String.intercalate_singleton, Declaration.text]
  · intro x e' hmem
    cases List.mem_singleton.mp hmem
    exact ⟨rfl, rfl, he.symm⟩

/-- **The block of a declared node** is the text of declarations. If one of them is an alias, it is for the whole
expression of the node. -/
theorem block_declares (hnode : g.node? id = some node) (hdecl : node.declared = true)
    (h : ∀ a ∈ g.arrows id, Worded indent named (text a.target)) :
    ∃ ds, block text g indent node = Declaration.block indent ds ∧ Declares named node.name ds ∧
      ds.map Declaration.declared = node.declares (augmentation text node) ∧
      Aliases indent node.name (Layout.orNull (whole text g indent node))
        (node.isAlias (augmentation text node)) ds := by
  have hexpr := expression_worded hnode h
  have haug : Worded indent named (augmentation text node) :=
    augmentation_worded fun n hn => h _ (Graph.arrow_of_member hnode hn)
  rw [block, declaration]
  split
  case h_1 fs hs =>
    obtain ⟨properties, hobject, hnames⟩ :=
      expression_object hs fun a ha => h a (Graph.arrow_of_shape hnode ha)
    rw [hobject, Node.declares_object hs, Node.isAlias_object hs]
    split
    case isTrue hempty =>
      refine ⟨[.interface node.name properties], ?_, .plain rfl hnames, rfl, ?_, ?_⟩
      · rw [Declaration.block, List.map_singleton, String.intercalate_singleton, Declaration.text]
      · intro x e hmem
        cases List.mem_singleton.mp hmem
      · intro hne
        exact absurd hempty (of_decide_eq_true hne)
    case isFalse hne =>
      obtain ⟨a, ha, hnames'⟩ := haug.expressed hne
      refine ⟨_, ?_, .split hnames hnames', rfl, ?_, fun _ => ?_⟩
      · rw [ha, Declaration.block, List.map_cons, List.map_singleton, String.intercalate_cons_cons,
          String.intercalate_singleton]
        rfl
      · intro x e hmem
        rcases List.mem_cons.mp hmem with hfirst | hsecond
        · cases hfirst
        · cases List.mem_singleton.mp hsecond
          refine ⟨decide_eq_true hne, rfl, ?_⟩
          rw [whole_split hs hdecl hne, Layout.orNull, if_neg (by simp), ha]
          rfl
      · exact ⟨_, List.mem_cons_of_mem _ (List.mem_singleton_self _)⟩
  case h_2 hs =>
    have hobject : ∀ fs, node.shape ≠ .object fs := by simp [hs]
    rw [Node.declares_other hobject, Node.isAlias_other hobject, whole_composite hs]
    simp only [expression, hs] at hexpr ⊢
    exact aliasDecl_declares node.name hexpr
  case h_3 hs hcomposite =>
    rw [Node.declares_other hs, Node.isAlias_other hs,
      whole_other hcomposite fun fs hobject => absurd hobject (hs fs)]
    exact aliasDecl_declares node.name (hexpr.augmented haug)

end Spelling

/-! ## Pages -/

namespace Graph

/-- **One node mentions another**, a declared one: there is a way to it through undeclared nodes. -/
inductive Mentions (g : Graph) : NodeId → NodeId → Prop where
  | direct {n m : NodeId} (leads : g.Leads n m) (declared : g.isDeclared m = true) : g.Mentions n m
  | through {n k m : NodeId} (leads : g.Leads n k) (undeclared : g.isDeclared k = false)
      (rest : g.Mentions k m) : g.Mentions n m

/-- The names of the nodes that a node mentions. -/
def Names (g : Graph) (n : NodeId) (x : String) : Prop := ∃ m, g.Mentions n m ∧ g.nameOf m = x

/-- Only declared nodes are mentioned. -/
theorem Mentions.declared {g : Graph} {n m : NodeId} (h : g.Mentions n m) : g.isDeclared m = true := by
  induction h with
  | direct _ hdecl => exact hdecl
  | through _ _ _ ih => exact ih

theorem Mentions.leads {g : Graph} {n m : NodeId} (h : g.Mentions n m) :
    Relation.ReflTransGen g.Leads n m := by
  induction h with
  | direct hleads _ => exact Relation.ReflTransGen.single hleads
  | through hleads _ _ ih => exact Relation.ReflTransGen.head hleads ih

end Graph

/-- **A node declares** the names that its block has: its block is spelled from what it knows of other
nodes, and the names are those that go with the augmentation in it. -/
def Draft.Declares (d : Draft) (g : Graph) (indent : Indent) (n : NodeId) (ds : List Declaration) : Prop :=
  ∃ node before, g.node? n = some node ∧
    (d.page n).block = some (Spelling.block (d.known g before) g indent node) ∧
    ds.map Declaration.declared = node.declares (Spelling.augmentation (d.known g before) node)

/-- **The aliases of a node** that was closed in a certain order are for the whole expression it has then. -/
def Draft.Aliases (d : Draft) (g : Graph) (indent : Indent) (order : List NodeId) (n : NodeId)
    (ds : List Declaration) : Prop :=
  ∃ node before after, order = before ++ n :: after ∧ g.node? n = some node ∧
    TypeScribe.Aliases indent node.name (Layout.orNull (Spelling.whole (d.known g before) g indent node))
      (node.isAlias (Spelling.augmentation (d.known g before) node)) ds

namespace Tracks

variable {g : Graph} {setting : Json} {guarded : Bool} {starts : List NodeId} {w : Walk} {d : Draft}

/-- **What a closed node reads is worded**, with names of whatever kind the nodes have that it leads to. The
induction is on how many nodes were closed before: an undeclared node that is read is one of them. -/
theorem known_worded_of (ht : Tracks g setting guarded d w) (hv : w.Valid g starts)
    (named : NodeId → String → Prop)
    (hname : ∀ {n m : NodeId}, g.Leads n m → g.isDeclared m = true → g.nameOf m = "" ∨ named n (g.nameOf m))
    (hthrough : ∀ {n k : NodeId} {x : String}, g.Leads n k → g.isDeclared k = false → named k x → named n x) :
    ∀ (count : Nat) {l₁ l₂ : List NodeId} {n : NodeId}, l₁.length = count →
      w.closed = l₁ ++ n :: l₂ → ∀ a ∈ g.arrows n,
        Worded (.orBlank setting) (named n) (d.known g l₁ a.target) := by
  intro count
  induction count using Nat.strongRecOn with
  | ind count ih =>
    intro l₁ l₂ n hcount hsplit a ha
    cases hdecl : g.isDeclared a.target with
    | true =>
      rw [Draft.known, if_pos hdecl]
      exact (hname ⟨a, ha, rfl⟩ hdecl).imp id Expressed.ofName
    | false =>
      by_cases hmem : a.target ∈ l₁
      · obtain ⟨node, k₁, k₂, hsplit', hfewer, hnode, hnot, hknown⟩ := ht.known_closed hv hsplit hdecl hmem
        rw [hknown]
        exact (Spelling.inline_worded hnode hnot (ih _ (hcount ▸ hfewer) rfl hsplit')).mono fun _ =>
          hthrough ⟨a, ha, rfl⟩ hdecl
      · rw [Draft.known, hdecl, if_neg Bool.false_ne_true, if_neg hmem]
        exact Or.inl rfl

/-- What a closed node reads is worded, with the names of the nodes it mentions. -/
theorem known_worded (ht : Tracks g setting guarded d w) (hv : w.Valid g starts)
    {l₁ l₂ : List NodeId} {n : NodeId} (hsplit : w.closed = l₁ ++ n :: l₂) :
    ∀ a ∈ g.arrows n, Worded (.orBlank setting) (g.Names n) (d.known g l₁ a.target) := by
  refine ht.known_worded_of hv g.Names ?_ ?_ l₁.length rfl hsplit
  · exact fun hleads hdecl => Or.inr ⟨_, .direct hleads hdecl, rfl⟩
  · rintro n k x hleads hundeclared ⟨m, hm, rfl⟩
    exact ⟨m, .through hleads hundeclared hm, rfl⟩

/-- **The block of a closed node** is the text of declarations of its name. -/
theorem block_declares (ht : Tracks g setting guarded d w) (hv : w.Valid g starts) {n : NodeId}
    (hn : n ∈ w.closed) (hdecl : g.isDeclared n = true) :
    ∃ ds, (Declares (g.Names n) (g.nameOf n) ds ∧ d.Declares g (.orBlank setting) n ds ∧
        d.Aliases g (.orBlank setting) w.closed n ds) ∧
      (d.page n).block = some (Declaration.block (.orBlank setting) ds) := by
  obtain ⟨l₁, l₂, hsplit⟩ := List.append_of_mem hn
  obtain ⟨node, hnode⟩ := Graph.exists_node (hv.bounded n ((hv.mem_seen_iff n).mpr (Or.inr hn)))
  have hdecl' : node.declared = true := (Graph.isDeclared_of_node hnode).symm.trans hdecl
  obtain ⟨ds, htext, hdeclares, hnames, haliases⟩ :=
    Spelling.block_declares hnode hdecl' (ht.known_worded hv hsplit)
  have hblock := (ht.spelled l₁ n l₂ hsplit node hnode).block hdecl'
  refine ⟨ds, ⟨Graph.nameOf_of_node hnode ▸ hdeclares, ⟨node, l₁, hnode, hblock, hnames⟩,
    node, l₁, l₂, hsplit, hnode, haliases⟩, ?_⟩
  rw [hblock, htext]

end Tracks

/-! ## Output -/

/-- **What a compilation has written, as declarations**: those of the nodes that are kept, one after the
other. -/
structure Written {σ : Type} (r : Registry σ) (text : String) (blocks : List (List Declaration)) :
    Prop where
  declares : List.Forall₂
    (fun n ds => Declares (r.graph.Names n) (r.graph.nameOf n) ds ∧
      (r.draft.page n).block = some (Declaration.block (.orBlank r.settings.indent) ds))
    (r.draft.kept r.graph) blocks
  text : text = "\n\n".intercalate
    ((if r.settings.comment.isVacant then [] else [Layout.headerComment r.commandLine]) ++
      blocks.map (Declaration.block (.orBlank r.settings.indent)))

/-- What stands in the second of two matching lists has its match in the first. -/
theorem exists_of_forall₂ {α β : Type} {R : α → β → Prop} {as : List α} {bs : List β}
    (h : List.Forall₂ R as bs) {b : β} (hb : b ∈ bs) : ∃ a ∈ as, R a b := by
  induction h with
  | nil => cases hb
  | cons hab _ ih =>
    rcases List.mem_cons.mp hb with rfl | hb
    · exact ⟨_, List.mem_cons_self .., hab⟩
    · obtain ⟨a, ha, hR⟩ := ih hb
      exact ⟨a, List.mem_cons_of_mem _ ha, hR⟩

/-- Every declaration belongs to a node that is kept. -/
theorem Written.exists_node {σ : Type} {r : Registry σ} {text : String}
    {blocks : List (List Declaration)} (h : Written r text blocks) {ds : List Declaration}
    (hds : ds ∈ blocks) :
    ∃ n ∈ r.draft.kept r.graph, Declares (r.graph.Names n) (r.graph.nameOf n) ds := by
  obtain ⟨n, hn, hdeclares, -⟩ := exists_of_forall₂ h.declares hds
  exact ⟨n, hn, hdeclares⟩

/-- Texts of blocks are texts of declarations, if each of them is. -/
theorem Draft.exists_declarations {d : Draft} {indent : Indent} {ids : List NodeId} {texts : List String}
    {P : NodeId → List Declaration → Prop}
    (h : List.Forall₂ (fun n text => (d.page n).block = some text) ids texts)
    (hids : ∀ n ∈ ids, ∃ ds, P n ds ∧ (d.page n).block = some (Declaration.block indent ds)) :
    ∃ blocks, List.Forall₂
        (fun n ds => P n ds ∧ (d.page n).block = some (Declaration.block indent ds)) ids blocks ∧
      texts = blocks.map (Declaration.block indent) := by
  induction h with
  | nil => exact ⟨[], .nil, rfl⟩
  | cons hblock _ ih =>
    obtain ⟨ds, hds, hpage⟩ := hids _ (List.mem_cons_self ..)
    obtain ⟨blocks, hblocks, rfl⟩ := ih fun n hn => hids n (List.mem_cons_of_mem _ hn)
    obtain rfl := Option.some.inj (hblock.symm.trans hpage)
    exact ⟨ds :: blocks, .cons ⟨hds, hpage⟩ hblocks, rfl⟩

/-- **A compilation that succeeds writes declarations** of the nodes that are kept, and each of them
declares its own. -/
theorem Registry.Compiled.written_declares {σ : Type} [Source σ] {r₀ r : Registry σ} {ids : List NodeId}
    {text : String} (h : r₀.Compiled r ids text) :
    ∃ blocks, Written r text blocks ∧
      List.Forall₂ (r.draft.Declares r.graph (.orBlank r.settings.indent)) (r.draft.kept r.graph) blocks ∧
      List.Forall₂ (r.draft.Aliases r.graph (.orBlank r.settings.indent) (r.graph.walk ids).closed)
        (r.draft.kept r.graph) blocks := by
  obtain ⟨texts, htexts, htext⟩ := Draft.render_ok h.rendered
  have hkept : ∀ n ∈ r.draft.kept r.graph, ∃ ds,
      (Declares (r.graph.Names n) (r.graph.nameOf n) ds ∧
        r.draft.Declares r.graph (.orBlank r.settings.indent) n ds ∧
        r.draft.Aliases r.graph (.orBlank r.settings.indent) (r.graph.walk ids).closed n ds) ∧
      (r.draft.page n).block = some (Declaration.block (.orBlank r.settings.indent) ds) := by
    intro n hn
    obtain ⟨hreach, hdecl⟩ := (h.mem_emission n).mp ((Draft.keep_sublist r.graph _ _).subset hn)
    exact h.tracks.block_declares h.valid (h.mem_closed hreach) hdecl
  obtain ⟨blocks, hblocks, rfl⟩ := Draft.exists_declarations htexts hkept
  exact ⟨blocks, ⟨hblocks.imp fun _ _ h => ⟨h.1.1, h.2⟩, htext⟩, hblocks.imp fun _ _ h => h.1.2.1,
    hblocks.imp fun _ _ h => h.1.2.2⟩

theorem Registry.Compiled.written {σ : Type} [Source σ] {r₀ r : Registry σ} {ids : List NodeId}
    {text : String} (h : r₀.Compiled r ids text) : ∃ blocks, Written r text blocks :=
  h.written_declares.imp fun _ h => h.1

end TypeScribe
