import TypeScribe.Proofs.Operands
import TypeScribe.Proofs.Titles

/-!
# Circular aliases

An alias is **circular** if its own name stands at the top of what it is an alias of, or at the top of an alias that
stands there, and so on: outside of all braces and of all arrays. Conversion gives a node its name before it goes on
to the nodes that the node is made of, and does not look where the name is then used. So aliases are circular exactly
if the nodes are (`parse_circular_iff`):

* **Top words** are read off a text by precedence (`topWords`). They go through unions, intersections and
  parentheses, and what is written for an object or an array has none. The exception is an item that ends in a
  brace: it is not put in parentheses, and the brackets behind it apply to its last operand alone.
* **Nodes at the top** of a node (`Graph.tops`) are those whose top words it has, one layer deep. The declared nodes
  that are found by going on through undeclared ones are its **top mentions**, and their names are its top words.
-/

namespace TypeScribe

/-! ## Top words of types -/

namespace Sense

mutual

/-- **The top words of a type**: those outside of all braces and of all arrays. -/
def heads : Sense → List String
  | .word text => [text]
  | .object _ => []
  | .array _ => []
  | .join _ first second rest => first.heads ++ (second.heads ++ headsOfAll rest)

@[inherit_doc heads]
def headsOfAll : List Sense → List String
  | [] => []
  | s :: rest => s.heads ++ headsOfAll rest

end

variable {joint : Joint} {senses : List Sense}

theorem headsOfAll_eq : ∀ senses : List Sense, headsOfAll senses = senses.flatMap heads
  | [] => rfl
  | s :: rest => by rw [headsOfAll, headsOfAll_eq rest, List.flatMap_cons]

/-- Taking a sense apart at a joint moves no head. -/
theorem flatMap_heads_parts (joint : Joint) (s : Sense) : (s.parts joint).flatMap heads = s.heads := by
  rcases parts_eq joint s with h | ⟨first, second, rest, rfl, h⟩
  · rw [h, List.flatMap_singleton]
  · rw [h, heads, headsOfAll_eq, List.flatMap_cons, List.flatMap_cons]

/-- Joined types have the top words of each. -/
theorem heads_joined (h : senses ≠ []) : (joined joint senses).heads = senses.flatMap heads := by
  rw [← flatMap_heads_parts joint, parts_joined h, List.flatMap_assoc]
  exact List.flatMap_congr fun s _ => flatMap_heads_parts joint s

end Sense

namespace Sum

variable {s t : Sum}

/-- The top words of a sum: those of all operands of all alternatives. -/
def heads (s : Sum) : List String := s.products.flatMap fun product => product.flatMap Sense.heads

/-- What a sum comes to has the heads of its products, if none of the products is empty. -/
theorem heads_sense (h : ∀ product ∈ s.closed, product ≠ []) : s.sense.heads = s.heads := by
  have hfilled : ∀ product ∈ s.products, product ≠ [] := by
    intro product hproduct
    rcases List.mem_append.mp hproduct with hclosed | hlast
    · exact h product hclosed
    · rw [List.mem_singleton.mp hlast]
      exact s.operands_ne_nil
  rw [sense, Sense.heads_joined (by simp [products]), List.flatMap_map]
  exact List.flatMap_congr fun product hproduct => Sense.heads_joined (hfilled product hproduct)

theorem heads_single (x : Sense) : (single x).heads = x.heads := by
  simp [heads, products, single]

theorem heads_bar (s t : Sum) : (s.bar.add t).heads = s.heads ++ t.heads := by
  rw [heads, products_bar, List.flatMap_append]
  rfl

theorem heads_and (s t : Sum) : (s.and.add t).heads = s.heads ++ t.heads := by
  obtain ⟨⟨closed, factors⟩, last⟩ := t
  cases closed <;> simp [heads, Stem.add, and, products]

/-- Brackets behind braces change nothing: there is no top word in either. -/
theorem heads_brackets {members : List Member} (h : s.last = .object members) : s.brackets.heads = s.heads := by
  simp [heads, products, brackets, h, Sense.heads]

theorem last_add (stem : Stem) (s : Sum) : (stem.add s).last = s.last := by
  obtain ⟨⟨closed, factors⟩, last⟩ := s
  cases closed <;> rfl

theorem closed_bar (s t : Sum) : (s.bar.add t).closed = s.products ++ t.closed := by
  obtain ⟨⟨closed, factors⟩, last⟩ := t
  cases closed <;> simp [Stem.add, bar]

end Sum

namespace Expr

variable {indent : Indent}

/-- No alternative of a tree is without an operand. -/
theorem filled (e : Expr) : ∀ product ∈ e.sum.closed, product ≠ [] := by
  cases e with
  | scalar _ => simp [sum, Sum.single]
  | name _ => simp [sum, Sum.single]
  | object _ => simp [sum, Sum.single]
  | parens _ => simp [sum, Sum.single]
  | array e => exact filled e
  | union l r =>
    have hleft := filled l
    have hright := filled r
    simp only [sum, Sum.closed_bar, Sum.products, List.mem_append, List.mem_singleton]
    rintro product ((hl | rfl) | hr)
    · exact hleft product hl
    · exact Sum.operands_ne_nil _
    · exact hright product hr
  | intersection l r =>
    have hleft := filled l
    have hright := filled r
    rw [sum, Sum.and, Stem.add]
    split
    · exact hleft
    · rename_i first rest hclosed
      rw [hclosed] at hright
      intro product hproduct
      rcases List.mem_append.mp hproduct with hl | hr
      · exact hleft product hl
      · rcases List.mem_cons.mp hr with rfl | hrest
        · simp
        · exact hright product (List.mem_cons_of_mem _ hrest)

theorem heads_sense (e : Expr) : e.sum.sense.heads = e.sum.heads := Sum.heads_sense e.filled

/-- What stands behind an operator ends as the whole does, unless that is the blank of the operator. -/
theorem getLast?_of_operator {left operator right : String} {c : Char} (hc : c ≠ ' ')
    (hoperator : operator.toList.getLast? = some ' ') (h : (left ++ operator ++ right).toList.getLast? = some c) :
    right.toList.getLast? = some c := by
  rw [String.toList_append, String.toList_append, List.getLast?_append, List.getLast?_append, hoperator] at h
  cases hright : right.toList.getLast? with
  | none =>
    rw [hright] at h
    exact absurd (Option.some.inj h).symm hc
  | some d =>
    rw [hright] at h
    exact h

/-- **A text that ends in a brace** ends in an object type. -/
theorem last_of_brace : ∀ e : Expr, (∀ x ∈ e.names, Spacing.strict.word x) →
    (e.text indent).toList.getLast? = some '\x7d' → ∃ members, e.sum.last = .object members
  | .object properties, _, _ => ⟨members properties, rfl⟩
  | .scalar s, _, h => by
    rw [text] at h
    cases s <;> exact absurd h (by decide +kernel)
  | .name n, hnames, h => by
    have hplain := (hnames n (by simp [names])).2 _ (List.mem_of_getLast? h)
    exact absurd hplain (by decide)
  | .parens e, _, h => by
    rw [text, Layout.parens, String.toList_append, List.getLast?_append] at h
    exact absurd h (by simp)
  | .array e, _, h => by
    rw [text, String.toList_append, List.getLast?_append] at h
    exact absurd h (by simp)
  | .union l r, hnames, h => by
    rw [sum, Sum.last_add]
    exact last_of_brace r (fun x hx => hnames x (List.mem_append_right _ hx))
      (getLast?_of_operator (by decide) (by decide +kernel) h)
  | .intersection l r, hnames, h => by
    rw [sum, Sum.last_add]
    exact last_of_brace r (fun x hx => hnames x (List.mem_append_right _ hx))
      (getLast?_of_operator (by decide) (by decide +kernel) h)

/-- **A text without a blank** is one operand. -/
theorem single_of_unblank : ∀ e : Expr, (e.text indent).toList.any Text.isBlank = false →
    ∃ s, e.sum = .single s
  | .scalar _, _ => ⟨_, rfl⟩
  | .name _, _ => ⟨_, rfl⟩
  | .object _, _ => ⟨_, rfl⟩
  | .parens _, _ => ⟨_, rfl⟩
  | .array e, h => by
    simp only [text, String.toList_append, List.any_append, Bool.or_eq_false_iff] at h
    obtain ⟨s, hs⟩ := single_of_unblank e h.1
    exact ⟨.array s, by rw [sum, hs]; rfl⟩
  | .union l r, h => by
    simp [text, Text.isBlank] at h
  | .intersection l r, h => by
    simp [text, Text.isBlank] at h

end Expr

namespace Says

variable {indent : Indent} {text : String} {s : Sum} (h : Says indent text s)

include h

theorem brackets : Says indent (text ++ "[]") s.brackets := by
  obtain ⟨e, rfl, hnames, rfl⟩ := h
  exact ⟨.array e, rfl, hnames, rfl⟩

/-- A text that ends in a brace ends in an object type. -/
theorem last_of_brace (hbrace : text.toList.getLast? = some '\x7d') : ∃ members, s.last = .object members := by
  obtain ⟨e, rfl, hnames, rfl⟩ := h
  exact e.last_of_brace hnames hbrace

/-- **What the item of an array says** in front of the brackets: as it stands if it ends in a brace, and as one
operand otherwise. -/
theorem element : Says indent (Layout.element text)
    (if text.toList.getLast? = some '\x7d' then s else .single s.sense) := by
  by_cases hbrace : text.toList.getLast? = some '\x7d'
  · have hitem : Layout.element text = text := by simp [Layout.element, hbrace]
    rwa [if_pos hbrace, hitem]
  rw [if_neg hbrace]
  by_cases hblank : text.toList.any Text.isBlank = true
  · have hitem : Layout.element text = Layout.parens text := by simp [Layout.element, hblank, hbrace]
    rw [hitem]
    exact h.parens
  · have hunblank : text.toList.any Text.isBlank = false := by simpa using hblank
    have hitem : Layout.element text = text := by
      rw [Layout.element, hunblank, Bool.false_and, if_neg Bool.false_ne_true]
    obtain ⟨e, rfl, hnames, rfl⟩ := id h
    obtain ⟨x, hx⟩ := e.single_of_unblank hunblank
    rw [hitem]
    rwa [hx, Sum.sense_single, ← hx]

end Says

/-! ## Top words of texts -/

/-- **The top words of a text**, read by precedence. A text that cannot be read has none. -/
def topWords (text : String) : List String := ((Sense.ofText? text).map Sense.heads).getD []

theorem topWords_empty : topWords "" = [] := rfl

theorem Keyword.heads_combine (keyword : Keyword) (l r : Expr) :
    (keyword.combine l r).sum.heads = l.sum.heads ++ r.sum.heads := by
  cases keyword
  · exact Sum.heads_and l.sum r.sum
  · exact Sum.heads_bar l.sum r.sum
  · exact Sum.heads_bar l.sum r.sum

theorem Expr.heads_joined (keyword : Keyword) : ∀ (rest : List Expr) (e : Expr),
    (Expr.joined keyword.combine e rest).sum.heads = (e :: rest).flatMap fun e => e.sum.heads
  | [], e => by simp [joined]
  | f :: rest, e => by
    rw [joined, keyword.heads_combine, heads_joined keyword rest f, List.flatMap_cons, List.flatMap_cons,
      List.flatMap_cons]

section

variable {indent : Indent} {text augmentation : String} {texts : List String} (hfits : indent.Fits .strict)

include hfits

/-- The words at the top of an expression are the heads of what it means. -/
theorem Expr.topWords_text {e : Expr} (hnames : ∀ x ∈ e.names, Spacing.strict.word x) :
    topWords (e.text indent) = e.sum.heads := by
  rw [topWords, Sense.ofText?, Expr.ofText?_text hfits hnames]
  exact e.heads_sense

/-- A name is its own word at the top. -/
theorem topWords_word {x : String} (hx : Spacing.strict.word x) : topWords x = [x] := by
  have hname : ∀ y ∈ (Expr.name x).names, Spacing.strict.word y := by simpa [Expr.names] using hx
  exact (Expr.topWords_text hfits hname).trans (Sum.heads_single _)

/-- The keyword of a scalar is its only top word. -/
theorem topWords_scalar (s : Scalar) : topWords (Layout.orNull s.text) = [Layout.orNull s.text] := by
  have hnone : ∀ y ∈ (Expr.scalar s).names, Spacing.strict.word y := by simp [Expr.names]
  exact (Expr.topWords_text hfits hnone).trans (Sum.heads_single _)

/-- An object type has no words at the top: all of its names stand inside the braces. -/
theorem topWords_object {properties : List Property}
    (hnames : ∀ x ∈ Expr.namesOfAll properties, Spacing.strict.word x) :
    topWords (Layout.objectType indent (Expr.fields indent properties)) = [] :=
  (Expr.topWords_text (e := .object properties) hfits hnames).trans (Sum.heads_single _)

/-- Parentheses hide no word. -/
theorem Expressed.topWords_parens (h : Expressed indent Spacing.strict.word text) :
    topWords (Layout.parens text) = topWords text := by
  obtain ⟨e, rfl, hnames⟩ := h
  have hparens : topWords (Layout.parens (e.text indent)) = e.sum.sense.heads :=
    (Expr.topWords_text (e := .parens e) hfits hnames).trans (Sum.heads_single _)
  rw [hparens, e.heads_sense, Expr.topWords_text hfits hnames]

/-- **Operators are no limit** to top words. -/
theorem topWords_intercalate (keyword : Keyword) (h : ∀ t ∈ texts, Expressed indent Spacing.strict.word t) :
    topWords ((" " ++ keyword.operator ++ " ").intercalate texts) = texts.flatMap topWords := by
  obtain ⟨es, rfl, hnames⟩ := Expressed.exists_map h
  cases es with
  | nil => rfl
  | cons e rest =>
    have hjoined : ∀ x ∈ (Expr.joined keyword.combine e rest).names, Spacing.strict.word x := by
      intro x hx
      obtain ⟨f, hf, hxf⟩ := Expr.mem_names_joined keyword.names_combine rest e hx
      exact hnames f hf x hxf
    rw [← Expr.text_joined (keyword.text_combine indent) rest e, Expr.topWords_text hfits hjoined,
      Expr.heads_joined, List.flatMap_map]
    exact List.flatMap_congr fun f hf => (Expr.topWords_text hfits (hnames f hf)).symm

/-- The words at the top of an intersection are those of its operands, one after the other. -/
theorem topWords_intersected (h : ∀ t ∈ texts, Expressed indent Spacing.strict.word t) :
    topWords (Layout.intersected texts) = texts.flatMap topWords := by
  match texts, h with
  | [], _ => rfl
  | [group], _ => simp [Layout.intersected]
  | first :: second :: rest, h =>
    have hparens : ∀ t ∈ (first :: second :: rest).map Layout.parens, Expressed indent Spacing.strict.word t := by
      intro t ht
      obtain ⟨group, hgroup, rfl⟩ := List.mem_map.mp ht
      exact (h group hgroup).parens
    refine (topWords_intercalate hfits .allOf hparens).trans ?_
    rw [List.flatMap_map]
    exact List.flatMap_congr fun group hgroup => (h group hgroup).topWords_parens hfits

/-- The words at the top of an augmented type are those of the type, followed by those of what
augments it. -/
theorem topWords_augmented (h : Worded indent Spacing.strict.word text)
    (ha : Worded indent Spacing.strict.word augmentation) :
    topWords (Layout.augmented text augmentation) = topWords text ++ topWords augmentation := by
  rw [Layout.augmented]
  by_cases haug : augmentation = ""
  · rw [if_pos haug, haug, topWords_empty, List.append_nil]
  · rw [if_neg haug]
    by_cases htext : text = ""
    · rw [if_pos htext, htext, topWords_empty, List.nil_append]
    · have hparens := (ha.expressed haug).parens
      have hboth : ∀ t ∈ [text, Layout.parens augmentation], Expressed indent Spacing.strict.word t := by
        simpa using ⟨h.expressed htext, hparens⟩
      have hjoined := topWords_intercalate hfits .allOf hboth
      rw [String.intercalate_cons_cons, String.intercalate_singleton] at hjoined
      rw [if_neg htext]
      refine hjoined.trans ?_
      rw [List.flatMap_cons, List.flatMap_singleton, (ha.expressed haug).topWords_parens hfits]

/-- **An array has no top words**, unless its item ends in a brace: then those of the item. -/
theorem Expressed.topWords_array (h : Expressed indent Spacing.strict.word text) :
    topWords (Layout.element text ++ "[]") =
      if text.toList.getLast? = some '\x7d' then topWords text else [] := by
  obtain ⟨s, hs⟩ := h.exists_sum
  have hwords : ∀ {t : String} {s : Sum}, Says indent t s → topWords t = s.heads := by
    rintro t s ⟨e, rfl, hnames, rfl⟩
    exact Expr.topWords_text hfits hnames
  rw [hwords hs.element.brackets]
  split
  · rename_i hbrace
    obtain ⟨members, hlast⟩ := hs.last_of_brace hbrace
    rw [Sum.heads_brackets hlast, hwords hs]
  · exact Sum.heads_single _

end

/-! ## Nodes at the top -/

/-- Words that are **no keywords and not private**, as the names of types are. -/
def Nameable (x : String) : Prop := '_' ∉ x.toList ∧ ∀ s : Scalar, x ≠ Layout.orNull s.text

theorem Naming.nameable_typeName? (title : Option String) : Nameable (typeName? title) :=
  ⟨underscore_not_mem_typeName? title, typeName?_ne_scalar title⟩

namespace Graph

/-- The nodes at the top of a shape, with the texts that nodes have. -/
def shapeTops (g : Graph) (text : NodeId → String) : Shape → List NodeId
  | .choice alternatives => alternatives
  | .reference _ target => (g.find? target).toList
  | .array item => item.toList.filter fun n => (text n).toList.getLast? == some '\x7d'
  | .scalar _ => []
  | .object _ => []
  | .composite => []

/-- **The nodes at the top of a node**: the members of its keywords, and those at the top of its shape. -/
def tops (g : Graph) (text : NodeId → String) (node : Node) : List NodeId :=
  node.members ++ g.shapeTops text node.shape

end Graph

namespace Spelling

variable {g : Graph} {indent : Indent} {n : NodeId} {node : Node} {text : NodeId → String} {x : String}

theorem mem_topWords_texts {ids : List NodeId} :
    x ∈ (texts text ids).flatMap topWords ↔ ∃ m ∈ ids, x ∈ topWords (text m) := by
  rw [texts]
  constructor
  · intro hx
    obtain ⟨t, ht, hx⟩ := List.mem_flatMap.mp hx
    obtain ⟨m, hm, rfl⟩ := List.mem_map.mp (List.mem_filter.mp ht).1
    exact ⟨m, hm, hx⟩
  · rintro ⟨m, hm, hx⟩
    have hne : text m ≠ "" := by
      intro hempty
      rw [hempty, topWords_empty] at hx
      exact absurd hx List.not_mem_nil
    exact List.mem_flatMap.mpr
      ⟨text m, List.mem_filter.mpr ⟨List.mem_map_of_mem hm, by simpa using hne⟩, hx⟩

section

variable (hfits : indent.Fits .strict)

include hfits

/-- The words at the top of an augmentation are those of the members. -/
theorem mem_topWords_augmentation (h : ∀ m ∈ node.members, Worded indent Spacing.strict.word (text m)) :
    x ∈ topWords (augmentation text node) ↔ ∃ m ∈ node.members, x ∈ topWords (text m) := by
  have htexts : ∀ a ∈ node.augmentations, ∀ t ∈ texts text a.members, Expressed indent Spacing.strict.word t :=
    fun a ha => texts_expressed fun m hm => h m (Node.mem_members.mpr ⟨a, ha, hm⟩)
  rw [augmentation, topWords_intersected hfits (groups_expressed h), groups, List.flatMap_map]
  constructor
  · intro hx
    obtain ⟨a, ha, hx⟩ := List.mem_flatMap.mp hx
    obtain ⟨ha, -⟩ := List.mem_filter.mp ha
    rw [group, topWords_intercalate hfits a.keyword (htexts a ha), mem_topWords_texts] at hx
    obtain ⟨m, hm, hx⟩ := hx
    exact ⟨m, Node.mem_members.mpr ⟨a, ha, hm⟩, hx⟩
  · rintro ⟨m, hm, hx⟩
    obtain ⟨a, ha, hm⟩ := Node.mem_members.mp hm
    have hmem : x ∈ (texts text a.members).flatMap topWords := mem_topWords_texts.mpr ⟨m, hm, hx⟩
    have hne : texts text a.members ≠ [] := by
      intro hempty
      rw [hempty] at hmem
      exact absurd hmem List.not_mem_nil
    refine List.mem_flatMap.mpr ⟨a, List.mem_filter.mpr ⟨ha, by simpa using hne⟩, ?_⟩
    rw [group, topWords_intercalate hfits a.keyword (htexts a ha)]
    exact hmem

/-- Null has no top word that could be a name. -/
theorem mem_topWords_orNull (hx : Nameable x) (t : String) : x ∈ topWords (Layout.orNull t) ↔ x ∈ topWords t := by
  by_cases hempty : t = ""
  · rw [hempty, topWords_empty, show Layout.orNull "" = Layout.orNull Scalar.null.text from rfl,
      topWords_scalar hfits, List.mem_singleton]
    simpa using hx.2 .null
  · rw [Layout.orNull, if_neg hempty]

/-- **The top words of an expression**, as far as they could be names, are those of the nodes at the top of the
shape. A mere composition has them as a composition. -/
theorem mem_topWords_expression (hnode : g.node? n = some node) (hx : Nameable x)
    (h : ∀ a ∈ g.arrows n, Worded indent Spacing.strict.word (text a.target)) (hshape : node.shape ≠ .composite) :
    x ∈ topWords (expression text g indent node) ↔
      ∃ m ∈ g.shapeTops text node.shape, x ∈ topWords (text m) := by
  have harrows : ∀ a ∈ g.shapeArrows n node.shape, Worded indent Spacing.strict.word (text a.target) :=
    fun a ha => h a (Graph.arrow_of_shape hnode ha)
  cases hs : node.shape with
  | composite => exact absurd hs hshape
  | scalar s =>
    simp only [expression, hs, Graph.shapeTops, List.not_mem_nil, false_and, exists_false, iff_false]
    rw [← mem_topWords_orNull hfits hx, topWords_scalar hfits, List.mem_singleton]
    exact hx.2 s
  | object fs =>
    obtain ⟨properties, hexpr, hnames⟩ := expression_object hs harrows
    simp [hexpr, topWords_object hfits hnames, Graph.shapeTops]
  | choice alternatives =>
    have hparts : ∀ t ∈ texts text alternatives, Expressed indent Spacing.strict.word t :=
      texts_expressed fun m hm => harrows ⟨n, m, false⟩ (by rw [hs]; exact List.mem_map.mpr ⟨m, hm, rfl⟩)
    simp only [expression, hs, Graph.shapeTops]
    rw [← mem_topWords_texts, ← topWords_intercalate hfits .anyOf hparts]
    rfl
  | reference ref target =>
    simp only [expression, hs, Graph.shapeTops]
    rw [mem_topWords_orNull hfits hx]
    cases g.find? target with
    | none => simp [topWords_empty]
    | some t => simp
  | array item =>
    simp only [expression, hs, Graph.shapeTops]
    cases item with
    | none =>
      have hnull : Expressed indent Spacing.strict.word (Layout.orNull "") := Worded.orNull (Or.inl rfl)
      rw [Option.map_none, Option.getD_none, hnull.topWords_array hfits, if_neg (by decide +kernel)]
      simp
    | some item =>
      have hitem : Worded indent Spacing.strict.word (text item) :=
        harrows ⟨n, item, false⟩ (by simp [hs, Graph.shapeArrows, Shape.children])
      rw [Option.map_some, Option.getD_some, hitem.orNull.topWords_array hfits]
      by_cases hempty : text item = ""
      · have hlast : (Layout.orNull "").toList.getLast? ≠ some '\x7d' := by decide +kernel
        rw [hempty, if_neg hlast]
        simp [hempty]
      · rw [Layout.orNull, if_neg hempty]
        split <;> simp_all

/-- **The top words of a node**, as far as they could be names, are those of the nodes at its top. -/
theorem mem_topWords_whole (hnode : g.node? n = some node) (hname : ∀ c ∈ node.name.toList, Text.isPlain c = true)
    (hx : Nameable x) (h : ∀ a ∈ g.arrows n, Worded indent Spacing.strict.word (text a.target)) :
    x ∈ topWords (whole text g indent node) ↔ ∃ m ∈ g.tops text node, x ∈ topWords (text m) := by
  have hmembers : ∀ m ∈ node.members, Worded indent Spacing.strict.word (text m) :=
    fun m hm => h _ (Graph.arrow_of_member hnode hm)
  have hbase : x ∈ topWords (base text g indent node) ↔
      ∃ m ∈ g.shapeTops text node.shape, x ∈ topWords (text m) := by
    rw [base]
    split
    · rename_i hs
      simp [topWords_empty, hs, Graph.shapeTops]
    · rename_i fs hs
      split
      · have hne : x ≠ "_" ++ node.name := by
          rintro rfl
          exact hx.1 (by simp)
        simp [topWords_word hfits (Spacing.word_private hname), hne, hs, Graph.shapeTops]
      · exact mem_topWords_expression hfits hnode hx h (by simp [hs])
    · rename_i hs _
      exact mem_topWords_expression hfits hnode hx h hs
  rw [whole, topWords_augmented hfits (base_worded hnode hname h) (augmentation_worded hmembers), List.mem_append,
    hbase, mem_topWords_augmentation hfits hmembers]
  simp only [Graph.tops, List.mem_append, or_and_right, exists_or]
  exact Or.comm

end

end Spelling

/-! ## Top mentions -/

namespace Draft

section

variable (d : Draft) (g : Graph) (order : List NodeId)

/-- **A node stands at the top of another**, with a text, when that one is closed in a certain order. -/
def Tops (n m : NodeId) : Prop :=
  ∃ node before after, order = before ++ n :: after ∧ g.node? n = some node ∧
    m ∈ g.tops (d.known g before) node ∧ d.known g before m ≠ ""

/-- **One node mentions another at its top**, a declared one: there is a way to it through undeclared nodes, each at
the top of the one before. -/
inductive TopMentions : NodeId → NodeId → Prop where
  | direct {n m : NodeId} (top : d.Tops g order n m) (declared : g.isDeclared m = true) : TopMentions n m
  | through {n k m : NodeId} (top : d.Tops g order n k) (undeclared : g.isDeclared k = false)
      (rest : TopMentions k m) : TopMentions n m

/-- **A node is written as an alias**: it is kept, and it is not an interface. -/
def IsAlias (n : NodeId) : Prop :=
  n ∈ d.kept g ∧ ∃ node before after, order = before ++ n :: after ∧ g.node? n = some node ∧
    node.isAlias (Spelling.augmentation (d.known g before) node) = true

/-- **One alias leans on another**, by the nodes they are written for: a node with the name of the other is mentioned
at the top of the one. -/
def Leans (n m : NodeId) : Prop :=
  d.IsAlias g order n ∧ d.IsAlias g order m ∧ ∃ k, d.TopMentions g order n k ∧ g.nameOf k = g.nameOf m

end

end Draft

section

variable {σ : Type} [Source σ] {r₀ r : Registry σ} {text : String} {ids : List NodeId}

namespace Registry.Compiled

variable {before after : List NodeId} {n m : NodeId} {node : Node} {x : String} (h : r₀.Compiled r ids text)
include h

/-- A node is closed once. -/
theorem before_unique {before' after' : List NodeId} (hsplit : (r.graph.walk ids).closed = before ++ n :: after)
    (hsplit' : (r.graph.walk ids).closed = before' ++ n :: after') : before = before' := by
  have hnodup : (before ++ n :: after).Nodup := by
    rw [← hsplit]
    exact (List.nodup_append.mp (h.valid.parted.nodup_iff.mp h.valid.nodup)).2.1
  obtain ⟨-, hafter, hapart⟩ := List.nodup_append.mp hnodup
  have hbefore : n ∉ before := fun hmem => hapart n hmem n (List.mem_cons_self ..) rfl
  exact ((List.append_cons_inj_of_notMem hbefore (List.nodup_cons.mp hafter).1).mp (hsplit.symm.trans hsplit')).1

/-- What an undeclared node is known by is its whole expression, from when it was closed. -/
theorem known_undeclared (hsplit : (r.graph.walk ids).closed = before ++ n :: after)
    (hundeclared : r.graph.isDeclared m = false) (hne : r.draft.known r.graph before m ≠ "") :
    ∃ node before' after', (r.graph.walk ids).closed = before' ++ m :: after' ∧ before'.length < before.length ∧
      r.graph.node? m = some node ∧ r.draft.known r.graph before m =
        Spelling.whole (r.draft.known r.graph before') r.graph (.orBlank r.settings.indent) node := by
  have hmem : m ∈ before := by
    by_contra hopen
    exact hne (by rw [Draft.known, hundeclared, if_neg Bool.false_ne_true, if_neg hopen])
  obtain ⟨node, k₁, k₂, hsplit', hfewer, hnode, hnot, hknown⟩ :=
    h.tracks.known_closed h.valid hsplit hundeclared hmem
  exact ⟨node, k₁, k₂, hsplit', hfewer, hnode, hknown.trans (Spelling.inline_eq hnot)⟩

variable (hf : r₀.Fresh) (hfits : (Indent.orBlank r.settings.indent).Fits .strict)
include hf

theorem nameable_nameOf (n : NodeId) : Nameable (r.graph.nameOf n) := by
  obtain ⟨title, hname⟩ := h.exists_typeName hf n
  rw [hname]
  exact Naming.nameable_typeName? title

include hfits

/-- A declared node is known by its name, which is a word. -/
theorem topWords_declared (hdeclared : r.graph.isDeclared m = true) (hne : r.draft.known r.graph before m ≠ "") :
    topWords (r.draft.known r.graph before m) = [r.graph.nameOf m] := by
  rw [Draft.known, if_pos hdeclared] at hne ⊢
  exact topWords_word hfits ⟨hne, (h.nameLike_nameOf hf m).plain⟩

/-- The top words of a closed node are those of the nodes at its top. -/
theorem mem_topWords_node (hsplit : (r.graph.walk ids).closed = before ++ n :: after)
    (hnode : r.graph.node? n = some node) (hx : Nameable x) :
    x ∈ topWords (Spelling.whole (r.draft.known r.graph before) r.graph (.orBlank r.settings.indent) node) ↔
      ∃ m ∈ r.graph.tops (r.draft.known r.graph before) node, x ∈ topWords (r.draft.known r.graph before m) := by
  have hlike := h.nameLike_nameOf hf n
  rw [Graph.nameOf_of_node hnode] at hlike
  exact Spelling.mem_topWords_whole hfits hnode hlike.plain hx (h.known_worded hf hsplit)

/-- The induction is on how many nodes were closed before: an undeclared node at the top is one of them. -/
theorem exists_topMention (hx : Nameable x) : ∀ (count : Nat) {before after : List NodeId} {n : NodeId} {node : Node},
    before.length = count → (r.graph.walk ids).closed = before ++ n :: after → r.graph.node? n = some node →
    x ∈ topWords (Spelling.whole (r.draft.known r.graph before) r.graph (.orBlank r.settings.indent) node) →
    ∃ m, r.draft.TopMentions r.graph (r.graph.walk ids).closed n m ∧ r.graph.nameOf m = x := by
  intro count
  induction count using Nat.strongRecOn with
  | ind count ih =>
    intro before after n node hcount hsplit hnode hmem
    obtain ⟨k, hk, hxk⟩ := (h.mem_topWords_node hf hfits hsplit hnode hx).mp hmem
    have hne : r.draft.known r.graph before k ≠ "" := by
      intro hempty
      rw [hempty, topWords_empty] at hxk
      exact absurd hxk List.not_mem_nil
    have htop : r.draft.Tops r.graph (r.graph.walk ids).closed n k := ⟨node, before, after, hsplit, hnode, hk, hne⟩
    cases hdeclared : r.graph.isDeclared k with
    | true =>
      rw [h.topWords_declared hf hfits hdeclared hne, List.mem_singleton] at hxk
      exact ⟨k, .direct htop hdeclared, hxk.symm⟩
    | false =>
      obtain ⟨node', before', after', hsplit', hlt, hnode', heq⟩ := h.known_undeclared hsplit hdeclared hne
      rw [heq] at hxk
      obtain ⟨m, hm, hname⟩ := ih _ (hcount ▸ hlt) rfl hsplit' hnode' hxk
      exact ⟨m, .through htop hdeclared hm, hname⟩

/-- A node that the whole text of another mentions at the top gives its name there. -/
theorem name_mem_topWords (hm : r.draft.TopMentions r.graph (r.graph.walk ids).closed n m) :
    ∀ {before after : List NodeId} {node : Node}, (r.graph.walk ids).closed = before ++ n :: after →
      r.graph.node? n = some node → r.graph.nameOf m ∈ topWords
        (Spelling.whole (r.draft.known r.graph before) r.graph (.orBlank r.settings.indent) node) := by
  have hx := h.nameable_nameOf hf m
  induction hm with
  | direct htop hdeclared =>
    intro before after node hsplit hnode
    obtain ⟨node', before', after', hsplit', hnode', hk, hne⟩ := htop
    obtain rfl := h.before_unique hsplit hsplit'
    obtain rfl := Option.some.inj (hnode.symm.trans hnode')
    refine (h.mem_topWords_node hf hfits hsplit hnode hx).mpr ⟨_, hk, ?_⟩
    rw [h.topWords_declared hf hfits hdeclared hne]
    exact List.mem_singleton_self _
  | through htop hundeclared _ ih =>
    intro before after node hsplit hnode
    obtain ⟨node', before', after', hsplit', hnode', hk, hne⟩ := htop
    obtain rfl := h.before_unique hsplit hsplit'
    obtain rfl := Option.some.inj (hnode.symm.trans hnode')
    refine (h.mem_topWords_node hf hfits hsplit hnode hx).mpr ⟨_, hk, ?_⟩
    obtain ⟨inner, k₁, k₂, hsplit₁, -, hinner, heq⟩ := h.known_undeclared hsplit hundeclared hne
    rw [heq]
    exact ih hx hsplit₁ hinner

/-- **The top words of a closed node**, as far as they could be names, are the names of its top mentions. -/
theorem mem_topWords_iff (hsplit : (r.graph.walk ids).closed = before ++ n :: after)
    (hnode : r.graph.node? n = some node) (hx : Nameable x) :
    x ∈ topWords (Layout.orNull
        (Spelling.whole (r.draft.known r.graph before) r.graph (.orBlank r.settings.indent) node)) ↔
      ∃ m, r.draft.TopMentions r.graph (r.graph.walk ids).closed n m ∧ r.graph.nameOf m = x := by
  rw [Spelling.mem_topWords_orNull hfits hx]
  constructor
  · exact h.exists_topMention hf hfits hx before.length rfl hsplit hnode
  · rintro ⟨m, hm, rfl⟩
    exact h.name_mem_topWords hf hfits hm hsplit hnode

end Registry.Compiled

/-! ## Circles -/

/-- **One alias leans on another**: the name of the other is a top word of what the one is an alias of. -/
def Declaration.Leans (indent : Indent) (ds : List Declaration) (x y : String) : Prop :=
  (∃ e, .alias x e ∈ ds ∧ y ∈ topWords (e.text indent)) ∧ ∃ e, .alias y e ∈ ds

/-- Declarations are **circular** if an alias leans on itself, by way of others or not. -/
def Declaration.Circular (indent : Indent) (ds : List Declaration) : Prop :=
  ∃ x, Relation.TransGen (Declaration.Leans indent ds) x x

/-- **The aliases that are written** are those of the nodes that are aliases, each for its whole expression. -/
theorem Registry.Compiled.alias_mem_iff (h : r₀.Compiled r ids text) {blocks : List (List Declaration)}
    (haliases : List.Forall₂ (r.draft.Aliases r.graph (.orBlank r.settings.indent) (r.graph.walk ids).closed)
      (r.draft.kept r.graph) blocks) {x t : String} :
    (∃ e, .alias x e ∈ blocks.flatten ∧ e.text (.orBlank r.settings.indent) = t) ↔
      ∃ n, r.draft.IsAlias r.graph (r.graph.walk ids).closed n ∧ r.graph.nameOf n = x ∧
        ∃ node before after, (r.graph.walk ids).closed = before ++ n :: after ∧ r.graph.node? n = some node ∧
          t = Layout.orNull
            (Spelling.whole (r.draft.known r.graph before) r.graph (.orBlank r.settings.indent) node) := by
  constructor
  · rintro ⟨e, he, rfl⟩
    obtain ⟨ds, hds, he⟩ := List.mem_flatten.mp he
    obtain ⟨n, hn, node, before, after, hsplit, hnode, hds⟩ := exists_of_forall₂ haliases hds
    obtain ⟨halias, rfl, htext⟩ := hds.only he
    exact ⟨n, ⟨hn, node, before, after, hsplit, hnode, halias⟩, Graph.nameOf_of_node hnode,
      node, before, after, hsplit, hnode, htext⟩
  · rintro ⟨n, ⟨hn, node', before', after', hsplit', hnode', halias⟩, rfl, node, before, after, hsplit, hnode, rfl⟩
    obtain ⟨ds, hds, node'', before'', after'', hsplit'', hnode'', hof⟩ := exists_of_forall₂ haliases.flip hn
    obtain rfl := h.before_unique hsplit hsplit'
    obtain rfl := h.before_unique hsplit hsplit''
    obtain rfl := Option.some.inj (hnode.symm.trans hnode')
    obtain rfl := Option.some.inj (hnode.symm.trans hnode'')
    obtain ⟨e, he⟩ := hof.exists_alias halias
    rw [Graph.nameOf_of_node hnode]
    exact ⟨e, List.mem_flatten.mpr ⟨ds, hds, he⟩, (hof.only he).2.2⟩

/-- **Circles under a map** that keeps apart what the relation goes through. -/
theorem exists_transGen_map_iff {α β : Type} {R : α → α → Prop} {f : α → β}
    (hinj : ∀ {a b c d}, R a b → R c d → f b = f c → b = c) :
    (∃ x, Relation.TransGen (Relation.Map R f f) x x) ↔ ∃ a, Relation.TransGen R a a := by
  have hlift : ∀ {x y}, Relation.TransGen (Relation.Map R f f) x y →
      ∃ a b, Relation.TransGen R a b ∧ f a = x ∧ f b = y := by
    intro x y h
    induction h with
    | single hxy =>
      obtain ⟨a, b, hab, rfl, rfl⟩ := hxy
      exact ⟨a, b, .single hab, rfl, rfl⟩
    | tail _ hstep ih =>
      obtain ⟨a, b, hab, rfl, rfl⟩ := ih
      obtain ⟨c, d, hcd, hc, rfl⟩ := hstep
      obtain ⟨b', -, hlast⟩ := Relation.TransGen.tail'_iff.mp hab
      obtain rfl := hinj hlast hcd hc.symm
      exact ⟨a, d, hab.tail hcd, rfl, rfl⟩
  constructor
  · rintro ⟨x, hx⟩
    obtain ⟨a, b, hab, rfl, hba⟩ := hlift hx
    obtain ⟨_, -, hlast⟩ := Relation.TransGen.tail'_iff.mp hab
    obtain ⟨_, hfirst, -⟩ := Relation.TransGen.head'_iff.mp hab
    obtain rfl := hinj hlast hfirst hba
    exact ⟨b, hab⟩
  · rintro ⟨a, ha⟩
    exact ⟨f a, ha.lift f fun b c hbc => ⟨b, c, hbc, rfl, rfl⟩⟩

/-- **Aliases are circular exactly if their nodes are.** If a compilation succeeds, with an indent of spaces and tabs,
one alias leans on another, as they are written and read, just if this can be told of the nodes that they are written
for: a node with the name of the other is mentioned at the top of the one. So there is a circle among the aliases if
and only if there is one among these nodes. -/
theorem parse_circular_iff (hf : r₀.Fresh) (hfits : (Indent.orBlank r₀.settings.indent).Fits .strict)
    (h : Registry.parse r₀ = .ok text r) :
    ∃ ids blocks, r₀.Compiled r ids text ∧ Written r text blocks ∧
      (∀ x y, Declaration.Leans (.orBlank r.settings.indent) blocks.flatten x y ↔
        Relation.Map (r.draft.Leans r.graph (r.graph.walk ids).closed) r.graph.nameOf r.graph.nameOf x y) ∧
      (Declaration.Circular (.orBlank r.settings.indent) blocks.flatten ↔
        ∃ n, Relation.TransGen (r.draft.Leans r.graph (r.graph.walk ids).closed) n n) := by
  obtain ⟨ids, hcompiled⟩ := Registry.parse_compiled hf h
  obtain ⟨blocks, hwritten, -, haliases⟩ := hcompiled.written_declares
  rw [← hcompiled.settings] at hfits
  have hleans : ∀ x y, Declaration.Leans (.orBlank r.settings.indent) blocks.flatten x y ↔
      Relation.Map (r.draft.Leans r.graph (r.graph.walk ids).closed) r.graph.nameOf r.graph.nameOf x y := by
    intro x y
    constructor
    · rintro ⟨⟨e, he, hy⟩, e', he'⟩
      obtain ⟨n, hn, rfl, node, before, after, hsplit, hnode, htext⟩ :=
        (hcompiled.alias_mem_iff haliases).mp ⟨e, he, rfl⟩
      obtain ⟨m, hm, rfl, -⟩ := (hcompiled.alias_mem_iff haliases).mp ⟨e', he', rfl⟩
      rw [htext, hcompiled.mem_topWords_iff hf hfits hsplit hnode (hcompiled.nameable_nameOf hf m)] at hy
      exact ⟨n, m, ⟨hn, hm, hy⟩, rfl, rfl⟩
    · rintro ⟨n, m, ⟨hn, hm, hmention⟩, rfl, rfl⟩
      obtain ⟨-, node, before, after, hsplit, hnode, -⟩ := id hn
      obtain ⟨-, node', before', after', hsplit', hnode', -⟩ := id hm
      obtain ⟨e, he, htext⟩ := (hcompiled.alias_mem_iff haliases).mpr
        ⟨n, hn, rfl, node, before, after, hsplit, hnode, rfl⟩
      obtain ⟨e', he', -⟩ := (hcompiled.alias_mem_iff haliases).mpr
        ⟨m, hm, rfl, node', before', after', hsplit', hnode', rfl⟩
      refine ⟨⟨e, he, ?_⟩, e', he'⟩
      rw [htext, hcompiled.mem_topWords_iff hf hfits hsplit hnode (hcompiled.nameable_nameOf hf m)]
      exact hmention
  refine ⟨ids, blocks, hcompiled, hwritten, hleans, ?_⟩
  have hsame : Declaration.Leans (.orBlank r.settings.indent) blocks.flatten =
      Relation.Map (r.draft.Leans r.graph (r.graph.walk ids).closed) r.graph.nameOf r.graph.nameOf :=
    funext fun x => funext fun y => propext (hleans x y)
  rw [Declaration.Circular, hsame]
  -- no two nodes that are kept have one name
  refine exists_transGen_map_iff fun hab hcd hname => ?_
  exact List.inj_on_of_nodup_map (r.draft.kept_names_nodup r.graph) hab.2.1.1 hcd.1.1 hname

end

/-- Two types that are each at the top of the other, and one of them once more as an item. -/
def dayAndNight : Registry Catalog := .queued {} ⟨[]⟩ "" [
  .obj [("id", .str "Day"), ("title", .str "Day"), ("anyOf", .arr [
    .obj [("title", .str "Night"), ("allOf", .arr [
      .obj [("$ref", .str "Day")], .obj [("type", .str "object")]])],
    .obj [("type", .str "array"), ("items", .obj [("$ref", .str "Day")])]])]]

theorem parse_circular_dayAndNight :
    ∃ text r, dayAndNight.Fresh ∧ (Indent.orBlank dayAndNight.settings.indent).Fits .strict ∧
      Registry.parse dayAndNight = .ok text r ∧
      text = "type Day = Night | Day[];\n\ntype Night = Day & \x7b\n\x7d;" ∧
      ∃ ids blocks, dayAndNight.Compiled r ids text ∧ Written r text blocks ∧
        (∀ x y, Declaration.Leans (.orBlank r.settings.indent) blocks.flatten x y ↔
          Relation.Map (r.draft.Leans r.graph (r.graph.walk ids).closed) r.graph.nameOf r.graph.nameOf x y) ∧
        Declaration.Circular (.orBlank r.settings.indent) blocks.flatten ∧
        Relation.TransGen (r.draft.Leans r.graph (r.graph.walk ids).closed) 0 0 := by
  have hfresh : dayAndNight.Fresh := Registry.fresh_queued _ _ _ _
  have hfits : (Indent.orBlank dayAndNight.settings.indent).Fits .strict := Settings.fits_default
  obtain ⟨text, r, hparse, htest⟩ := exists_of_succeeds (Registry.parse dayAndNight)
    (fun text (r : Registry Catalog) => decide (
      text = "type Day = Night | Day[];\n\ntype Night = Day & \x7b\n\x7d;" ∧
      (r.graph.advance^[20] (r.graph.enter 0 {})).stack = [] ∧
      (r.graph.advance^[20] (r.graph.enter 0 {})).closed = [2, 3, 1, 5, 4, 0] ∧ r.draft.kept r.graph = [0, 1] ∧
      r.graph.isDeclared 0 = true ∧ r.graph.isDeclared 1 = true ∧ r.graph.isDeclared 2 = false ∧
      ((r.graph.node? 0).any fun node => decide (
        node.isAlias (Spelling.augmentation (r.draft.known r.graph [2, 3, 1, 5, 4]) node) = true ∧
        1 ∈ r.graph.tops (r.draft.known r.graph [2, 3, 1, 5, 4]) node ∧
        r.draft.known r.graph [2, 3, 1, 5, 4] 1 ≠ "")) = true ∧
      ((r.graph.node? 1).any fun node => decide (
        node.isAlias (Spelling.augmentation (r.draft.known r.graph [2, 3]) node) = true ∧
        2 ∈ r.graph.tops (r.draft.known r.graph [2, 3]) node ∧ r.draft.known r.graph [2, 3] 2 ≠ "")) = true ∧
      ((r.graph.node? 2).any fun node => decide (
        0 ∈ r.graph.tops (r.draft.known r.graph []) node ∧ r.draft.known r.graph [] 0 ≠ "")) = true))
    (by decide +kernel)
  obtain ⟨htext, hstack, hclosed, hkept, hday, hnight, hreference, h₀, h₁, h₂⟩ := of_decide_eq_true htest
  obtain ⟨ids, blocks, hcompiled, hwritten, hleans, hcircular⟩ := parse_circular_iff hfresh hfits hparse
  have hids : ids = [0] := by
    obtain ⟨r₁, hbuild, -⟩ := hcompiled.built
    obtain ⟨ids', r₁', hbuild', htest'⟩ := exists_of_succeeds (Registry.buildRoots dayAndNight.pending dayAndNight)
      (fun ids _ => decide (ids = [0])) (by decide +kernel)
    obtain ⟨rfl, -⟩ : ids' = ids ∧ r₁' = r₁ := by simpa [hbuild'] using hbuild
    exact of_decide_eq_true htest'
  subst hids
  have horder : (r.graph.walk [0]).closed = [2, 3, 1, 5, 4, 0] := by
    have hend := r.graph.run_iterate (r.graph.enter 0 {}) 20
    rw [Graph.run_nil hstack] at hend
    exact (congrArg Walk.closed hend).symm.trans hclosed
  obtain ⟨day, hnode₀, hday'⟩ := (Option.any_eq_true _ _).mp h₀
  obtain ⟨night, hnode₁, hnight'⟩ := (Option.any_eq_true _ _).mp h₁
  obtain ⟨reference, hnode₂, hreference'⟩ := (Option.any_eq_true _ _).mp h₂
  obtain ⟨hdayAlias, hdayTop⟩ := of_decide_eq_true hday'
  obtain ⟨hnightAlias, hnightTop⟩ := of_decide_eq_true hnight'
  have hdayIs : r.draft.IsAlias r.graph (r.graph.walk [0]).closed 0 :=
    ⟨by simp [hkept], day, [2, 3, 1, 5, 4], [], horder, hnode₀, hdayAlias⟩
  have hnightIs : r.draft.IsAlias r.graph (r.graph.walk [0]).closed 1 :=
    ⟨by simp [hkept], night, [2, 3], [5, 4, 0], horder, hnode₁, hnightAlias⟩
  have hthere : r.draft.Leans r.graph (r.graph.walk [0]).closed 0 1 :=
    ⟨hdayIs, hnightIs, 1, .direct ⟨day, _, [], horder, hnode₀, hdayTop⟩ hnight, rfl⟩
  have hback : r.draft.Leans r.graph (r.graph.walk [0]).closed 1 0 :=
    ⟨hnightIs, hdayIs, 0, .through ⟨night, _, [5, 4, 0], horder, hnode₁, hnightTop⟩ hreference
      (.direct ⟨reference, [], _, horder, hnode₂, of_decide_eq_true hreference'⟩ hday), rfl⟩
  have hround : Relation.TransGen (r.draft.Leans r.graph (r.graph.walk [0]).closed) 0 0 :=
    .tail (.single hthere) hback
  exact ⟨text, r, hfresh, hfits, hparse, htext, [0], blocks, hcompiled, hwritten, hleans,
    hcircular.mpr ⟨0, hround⟩, hround⟩

end TypeScribe
