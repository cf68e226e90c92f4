import TypeScribe.Proofs.FullLines
import TypeScribe.Proofs.PropertyNames
import TypeScribe.Proofs.Recursion

/-!
# Printing with a depth

An object type is written for depth 0, whatever it stands in, and each field that it comes to stand in moves its lines
to the right. The lines of a type that is nested are moved again and again, as part of ever longer texts. A **direct
printer** (`Graph.printedWithin`) is told the depth instead: it starts each field with as many indents as are due, and
never looks at a text again.

* **Margins.** In a **tidy** text the only line breaks are line feeds, and no line is empty. Moving its lines puts the
  margin behind each line feed (`Text.Tidy.shifted`), and moving them twice adds up (`Text.inset_inset`).
* **One layer.** Whatever a node is written as, from texts with a margin comes the text with the margin; only the
  fields of an object type are one indent deeper (`Spelling.inlineAt_eq`).
* **All layers.** So both printers write the same (`Graph.printedWithin_eq`).

An identifier with a line feed behind it is written on two lines, and these would be moved apart. Such property names are
excluded; no other name has a line break as it is written.
-/

namespace TypeScribe

/-! ## Margins -/

namespace Text

/-- A text with a margin behind every line feed, on characters. -/
def indented (margin cs : List Char) : List Char := cs.flatMap fun c => if c = '\n' then '\n' :: margin else [c]

/-- **A text with a margin** behind every line feed. -/
def inset (margin text : String) : String := String.ofList (indented margin.toList text.toList)

/-- So many copies of an indent. -/
def copies (indent : String) : (depth : Nat) → String
  | 0 => ""
  | depth + 1 => copies indent depth ++ indent

/-- **Tidy** texts: the only line breaks are line feeds, and something stands on the line behind each. -/
inductive Tidy : List Char → Prop where
  | nil : Tidy []
  | char {c : Char} {cs : List Char} (flat : isLineBreak c = false) (rest : Tidy cs) : Tidy (c :: cs)
  | feed {c : Char} {cs : List Char} (flat : isLineBreak c = false) (rest : Tidy cs) : Tidy ('\n' :: c :: cs)

section

variable {margin outer inner cs ds : List Char} {c : Char}

theorem ne_feed (h : isLineBreak c = false) : c ≠ '\n' := by
  rintro rfl
  exact absurd h (by decide)

theorem indented_feed : indented margin ('\n' :: cs) = '\n' :: (margin ++ indented margin cs) := by
  simp [indented]

theorem indented_cons (h : c ≠ '\n') : indented margin (c :: cs) = c :: indented margin cs := by
  simp [indented, h]

theorem indented_append : indented margin (cs ++ ds) = indented margin cs ++ indented margin ds :=
  List.flatMap_append

/-- A text of one line has nothing to indent. -/
theorem indented_of_flat (h : '\n' ∉ cs) : indented margin cs = cs := by
  induction cs with
  | nil => rfl
  | cons c cs ih =>
    rw [indented_cons (fun hc => h (by simp [hc])), ih fun hmem => h (List.mem_cons_of_mem _ hmem)]

theorem indented_nil (cs : List Char) : indented [] cs = cs := by
  induction cs with
  | nil => rfl
  | cons c cs ih =>
    by_cases hc : c = '\n'
    · rw [hc, indented_feed, List.nil_append, ih]
    · rw [indented_cons hc, ih]

/-- **Margins add up**, the outer one first. -/
theorem indented_indented (h : '\n' ∉ inner) :
    indented outer (indented inner cs) = indented (outer ++ inner) cs := by
  induction cs with
  | nil => rfl
  | cons c cs ih =>
    by_cases hc : c = '\n'
    · rw [hc, indented_feed, indented_feed, indented_feed, indented_append, indented_of_flat h, ih,
        List.append_assoc]
    · rw [indented_cons hc, indented_cons hc, indented_cons hc, ih]

/-- A margin stands behind a line feed only, and that is a blank already. -/
theorem any_isBlank_indented : (indented margin cs).any isBlank = cs.any isBlank := by
  by_cases hfeed : '\n' ∈ cs
  · have hblank : isBlank '\n' = true := by decide
    have hindented : '\n' ∈ indented margin cs := List.mem_flatMap.mpr ⟨'\n', hfeed, by simp⟩
    rw [List.any_eq_true.mpr ⟨_, hfeed, hblank⟩, List.any_eq_true.mpr ⟨_, hindented, hblank⟩]
  · rw [indented_of_flat hfeed]

namespace Tidy

/-- **Moving the lines of a tidy text** puts the margin behind each line feed. -/
theorem shifted (h : Tidy cs) : shifted margin false cs = indented margin cs := by
  induction h with
  | nil => rw [Text.shifted]; rfl
  | char hflat _ ih => rw [shifted_cons_of_not_break hflat, indented_cons (ne_feed hflat), ih]; rfl
  | feed hflat _ ih =>
    rw [shifted_feed, shifted_cons_of_not_break hflat, indented_feed, indented_cons (ne_feed hflat), ih]
    rfl

/-- A margin without line breaks leaves a text tidy. -/
theorem margined (hmargin : ∀ c ∈ margin, isLineBreak c = false) (h : Tidy cs) : Tidy (indented margin cs) := by
  have hlead : ∀ {lead cs : List Char}, (∀ c ∈ lead, isLineBreak c = false) → Tidy cs → Tidy (lead ++ cs) := by
    intro lead cs hflat hcs
    induction lead with
    | nil => exact hcs
    | cons c lead ih =>
      exact .char (hflat c (List.mem_cons_self ..)) (ih fun d hd => hflat d (List.mem_cons_of_mem _ hd))
  induction h with
  | nil => exact .nil
  | char hflat _ ih =>
    rw [indented_cons (ne_feed hflat)]
    exact .char hflat ih
  | feed hflat _ ih =>
    rw [indented_feed, indented_cons (ne_feed hflat)]
    cases margin with
    | nil => exact .feed hflat ih
    | cons d margin =>
      obtain ⟨hd, hmargin⟩ := List.forall_mem_cons.mp hmargin
      exact .feed hd (hlead hmargin (.char hflat ih))

/-- The last line is not empty. -/
theorem getLast?_ne (h : Tidy cs) : cs.getLast? ≠ some '\n' := by
  have hcons : ∀ {c : Char} {cs : List Char}, isLineBreak c = false → cs.getLast? ≠ some '\n' →
      (c :: cs).getLast? ≠ some '\n' := by
    intro c cs hflat hlast
    rw [List.getLast?_cons]
    cases hcs : cs.getLast? with
    | none => simpa using ne_feed hflat
    | some d => simpa [hcs] using hlast
  induction h with
  | nil => simp
  | char hflat _ ih => exact hcons hflat ih
  | feed hflat _ ih =>
    rw [List.getLast?_cons_cons]
    exact hcons hflat ih

/-- The last character stays where it is, as a tidy text does not end in a line break. -/
theorem getLast?_indented (h : Tidy cs) : (indented margin cs).getLast? = cs.getLast? := by
  rcases List.eq_nil_or_concat' cs with rfl | ⟨ds, c, rfl⟩
  · rfl
  · have hc : c ≠ '\n' := by simpa using h.getLast?_ne
    rw [indented_append, indented_cons hc, List.getLast?_concat]
    exact List.getLast?_concat ..

end Tidy

/-- A text with ink on every line is tidy, if its lines end in line feeds only. -/
theorem tidy_of_inked : ∀ {cs : List Char} {ink : Bool}, inked ink cs = true →
    (∀ c ∈ cs, isLineBreak c = true → c = '\n') → Tidy cs
  | [], _, _, _ => .nil
  | [c], ink, hink, hfeed => by
    refine .char ?_ .nil
    by_contra hbreak
    obtain rfl := hfeed c (List.mem_singleton_self c) (by simpa using hbreak)
    rw [inked_feed, inked, Bool.and_false] at hink
    cases hink
  | c :: d :: rest, ink, hink, hfeed => by
    by_cases hc : c = '\n'
    · subst hc
      rw [inked_feed, Bool.and_eq_true] at hink
      have hd : d ≠ '\n' := by
        rintro rfl
        rw [inked_feed] at hink
        cases hink.2
      have hline := hink.2
      rw [inked_cons hd] at hline
      refine .feed ?_ (tidy_of_inked hline fun c hc => hfeed c (by simp [hc]))
      by_contra hbreak
      exact hd (hfeed d (by simp) (by simpa using hbreak))
    · rw [inked_cons hc] at hink
      refine .char ?_ (tidy_of_inked hink fun c hc => hfeed c (List.mem_cons_of_mem _ hc))
      by_contra hbreak
      exact hc (hfeed c (List.mem_cons_self ..) (by simpa using hbreak))

end

section

variable {margin text : String}

theorem inset_append (s t : String) : inset margin (s ++ t) = inset margin s ++ inset margin t := by
  rw [inset, String.toList_append, indented_append, String.ofList_append]
  rfl

theorem inset_of_flat (text : String) (h : '\n' ∉ text.toList) : inset margin text = text := by
  rw [inset, indented_of_flat h, String.ofList_toList]

theorem inset_nil (text : String) : inset "" text = text := by
  rw [inset, String.toList_empty, indented_nil, String.ofList_toList]

/-- **Margins add up**, the outer one first. -/
theorem inset_inset {outer inner : String} (h : '\n' ∉ inner.toList) :
    inset outer (inset inner text) = inset (outer ++ inner) text := by
  rw [inset, inset, inset, String.toList_ofList, indented_indented h, String.toList_append]

theorem inset_eq_empty : inset margin text = "" ↔ text = "" := by
  constructor
  · intro h
    rw [inset, ← String.toList_inj, String.toList_ofList, String.toList_empty, indented,
      List.flatMap_eq_nil_iff] at h
    by_contra hne
    obtain ⟨c, rest, hcs⟩ := List.exists_cons_of_ne_nil (toList_ne_nil hne)
    have hc := h c (by simp [hcs])
    split at hc <;> cases hc
  · rintro rfl
    rfl

/-- Joined texts are inset one by one, if what joins them has no line break. -/
theorem inset_intercalate {separator : String} (h : '\n' ∉ separator.toList) : ∀ texts : List String,
    inset margin (separator.intercalate texts) = separator.intercalate (texts.map (inset margin))
  | [] => rfl
  | [t] => by simp
  | s :: t :: rest => by
    rw [String.intercalate_cons_cons, inset_append, inset_append, inset_of_flat _ h,
      inset_intercalate h (t :: rest)]
    simp only [List.map_cons, String.intercalate_cons_cons]

/-- **Moving lines again and again** adds up to a margin of as many copies. -/
theorem Tidy.reindent_iterate {indent : String} (hindent : ∀ c ∈ indent.toList, isLineBreak c = false) (depth : Nat) :
    ∀ {text : String}, Tidy text.toList →
      (reindent indent.toList)^[depth] text.toList = (inset (copies indent depth) text).toList := by
  have hfeed : '\n' ∉ indent.toList := fun hmem => absurd (hindent _ hmem) (by decide)
  induction depth with
  | zero =>
    intro text _
    rw [copies, inset_nil]
    rfl
  | succ depth ih =>
    intro text h
    have hmoved : reindent indent.toList text.toList = (inset indent text).toList := by
      rw [reindent, h.shifted, inset, String.toList_ofList]
    have htidy : Tidy (inset indent text).toList := by
      rw [inset, String.toList_ofList]
      exact h.margined hindent
    rw [Function.iterate_succ_apply, hmoved, ih htidy, inset_inset hfeed, copies]

end

end Text

open Text Naming

/-! ## The direct printer -/

/-- A field at a depth, on a line of its own. -/
def Layout.fieldAt (indent : String) (depth : Nat) (field : FieldText) : String :=
  copies indent depth ++ propertyName field.name ++ (if field.required then "" else "?") ++ ": " ++
    field.type ++ ";\n"

/-- **An object type at a depth**: its fields are one indent deeper, and the brace that closes it is not. -/
def Layout.objectAt (indent : String) (depth : Nat) (fields : List FieldText) : String :=
  "\x7b\n" ++ String.join (fields.map (fieldAt indent (depth + 1))) ++ copies indent depth ++ "\x7d"

namespace Spelling

/-- **The expression of a node at a depth**, given a text for every other node at every depth. -/
def expressionAt (text : Nat → NodeId → String) (g : Graph) (indent : String) (depth : Nat) (node : Node) : String :=
  match node.shape with
  | .object fs => Layout.objectAt indent depth (fields (text (depth + 1)) fs)
  | _ => expression (text depth) g (.text indent) node

/-- The inline text of a node at a depth. -/
def inlineAt (text : Nat → NodeId → String) (g : Graph) (indent : String) (depth : Nat) (node : Node) : String :=
  if node.declared then node.name
  else undeclared node (expressionAt text g indent depth node) (augmentation (text depth) node)

/-- The block text of a node, which does not stand in anything. -/
def blockAt (text : Nat → NodeId → String) (g : Graph) (indent : String) (node : Node) : String :=
  declaration node (expressionAt text g indent 0 node) (augmentation (text 0) node)

end Spelling

/-- The property names of a shape. -/
def Shape.propertyNames : Shape → List String
  | .object fields => fields.map Field.name
  | _ => []

namespace Graph

/-- **The direct printer**, entering at most so many nodes one inside the other. -/
def printedWithin (g : Graph) (indent : String) : (levels depth : Nat) → NodeId → String
  | 0, _, _ => ""
  | levels + 1, depth, id =>
    match g.node? id with
    | none => ""
    | some node => Spelling.inlineAt (g.printedWithin indent levels) g indent depth node

/-- **What the direct printer writes** for a node at a depth. -/
def printedText (g : Graph) (indent : String) (depth : Nat) (id : NodeId) : String :=
  g.printedWithin indent (g.size + 1) depth id

/-- No property name is an identifier with a line feed behind it. -/
def Unfed (g : Graph) : Prop := ∀ node ∈ g.nodes.toList, ∀ name ∈ node.shape.propertyNames, ¬ IsFed name

instance (g : Graph) : Decidable g.Unfed :=
  inferInstanceAs (Decidable (∀ node ∈ g.nodes.toList, ∀ name ∈ node.shape.propertyNames, ¬ IsFed name))

/-- All names are plain. -/
def PlainNames (g : Graph) : Prop := ∀ n, ∀ c ∈ (g.nameOf n).toList, isPlain c = true

end Graph

/-! ## Margins of layouts -/

namespace Layout

variable {margin text : String}

theorem inset_parens (text : String) : inset margin (parens text) = parens (inset margin text) := by
  rw [parens, inset_append, inset_append, inset_of_flat "(" (by decide), inset_of_flat ")" (by decide), parens]

theorem inset_orNull (text : String) : inset margin (orNull text) = orNull (inset margin text) := by
  rw [orNull, orNull]
  simp only [inset_eq_empty]
  split
  · exact inset_of_flat "null" (by decide)
  · rfl

/-- An augmented type is inset part by part. -/
theorem inset_augmented (expression augmentation : String) : inset margin (augmented expression augmentation) =
    augmented (inset margin expression) (inset margin augmentation) := by
  rw [augmented, augmented]
  simp only [inset_eq_empty]
  split
  · rfl
  · split
    · rfl
    · rw [inset_append, inset_append, inset_of_flat " & " (by decide), inset_parens]

theorem inset_intersected (groups : List String) :
    inset margin (intersected groups) = intersected (groups.map (inset margin)) := by
  match groups with
  | [] => rfl
  | [group] => rfl
  | first :: second :: rest =>
    have hparens : ((first :: second :: rest).map parens).map (inset margin) =
        ((first :: second :: rest).map (inset margin)).map parens := by
      rw [List.map_map, List.map_map]
      exact List.map_congr_left fun group _ => inset_parens group
    rw [intersected, inset_intercalate (by decide), hparens]
    · rfl
    all_goals simp

/-- Whether an item stands in parentheses does not depend on the margin. -/
theorem inset_element (h : Tidy text.toList) : inset margin (element text) = element (inset margin text) := by
  have hblank : (inset margin text).toList.any isBlank = text.toList.any isBlank := by
    rw [inset, String.toList_ofList, any_isBlank_indented]
  have hlast : (inset margin text).toList.getLast? = text.toList.getLast? := by
    rw [inset, String.toList_ofList, h.getLast?_indented]
  rw [element, element, hblank, hlast]
  split
  · exact inset_parens text
  · rfl

/-- A type that is moved into a field gets one indent as its margin. -/
theorem moved_eq {indent : String} (h : Tidy text.toList) :
    String.ofList (moved (.text indent) text.toList) = inset indent text := by
  rw [moved]
  split
  · rw [reindent, h.shifted, inset]
    rfl
  · rename_i hnone
    have hflat : '\n' ∉ text.toList := fun hmem => hnone (List.any_eq_true.mpr ⟨_, hmem, by decide⟩)
    rw [inset_of_flat _ hflat, String.ofList_toList]

/-- A property name spans lines only if it ends in a line break behind a bare name. -/
theorem feed_not_mem_propertyName {name : String} (h : ¬ IsFed name) : '\n' ∉ (propertyName name).toList := by
  intro hmem
  by_cases hident : IsBare name ∨ IsFed name
  · rw [propertyName_of_identifier hident] at hmem
    exact absurd ((hident.resolve_right h).plain _ hmem) (by decide)
  · rw [propertyName_of_other hident] at hmem
    exact absurd (isPrintable_of_mem_quoted hmem) (by decide)

/-- **A field with a margin** is the field at its depth. The margin of its first line stands in front of it, and it
brings that of the next line. -/
theorem inset_fieldText {indent name type : String} (required : Bool) (depth : Nat) (hindent : '\n' ∉ indent.toList)
    (hname : ¬ IsFed name) (htype : Tidy type.toList) :
    copies indent depth ++ inset (copies indent depth) (fieldText (.text indent) ⟨name, type, required⟩) =
      fieldAt indent (depth + 1) ⟨name, inset (copies indent (depth + 1)) type, required⟩ ++
        copies indent depth := by
  have hmark : '\n' ∉ (if required then "" else "?").toList := by cases required <;> decide
  have hend : inset (copies indent depth) ";\n" = ";\n" ++ copies indent depth := by
    rw [← String.toList_inj, inset, String.toList_ofList, String.toList_append]
    simp [indented]
  have hmoved : inset (copies indent depth) (String.ofList (moved (.text indent) type.toList)) =
      inset (copies indent (depth + 1)) type := by
    rw [moved_eq htype, inset_inset hindent, copies]
  simp only [fieldText, fieldAt, inset_append, Indent.shown, inset_of_flat _ hindent,
    inset_of_flat _ (feed_not_mem_propertyName hname), inset_of_flat _ hmark,
    inset_of_flat ": " (by decide), hmoved, hend, copies, String.append_assoc]

end Layout

/-! ## One layer -/

namespace Spelling

section

variable {g : Graph} {indent margin : String} {id : NodeId} {node : Node} {text : NodeId → String} {depth : Nat}

theorem texts_inset (ids : List NodeId) :
    texts (fun m => inset margin (text m)) ids = (texts text ids).map (inset margin) := by
  have hkept : ((fun t => decide (t ≠ "")) ∘ inset margin) = fun t => decide (t ≠ "") := by
    funext t
    simp only [Function.comp_apply, ne_eq, inset_eq_empty]
  rw [texts, texts, ← hkept, ← List.filter_map, List.map_map]
  simp only [hkept]
  rfl

theorem groups_inset (augmentations : List Augmentation) :
    groups (fun m => inset margin (text m)) augmentations = (groups text augmentations).map (inset margin) := by
  have hgroup : ∀ a : Augmentation, group (fun m => inset margin (text m)) a = inset margin (group text a) := by
    intro a
    have hflat : '\n' ∉ (" " ++ a.keyword.operator ++ " ").toList := by cases a.keyword <;> decide
    rw [group, group, texts_inset, inset_intercalate hflat]
  rw [groups, groups, List.map_map]
  simp only [texts_inset, List.isEmpty_map]
  exact List.map_congr_left fun a _ => hgroup a

/-- **The augmentation with a margin** is that of texts with the margin. -/
theorem augmentation_inset (node : Node) :
    augmentation (fun m => inset margin (text m)) node = inset margin (augmentation text node) := by
  rw [augmentation, augmentation, groups_inset, Layout.inset_intersected]

theorem tidy_orNull {t : String} (h : Tidy t.toList) : Tidy (Layout.orNull t).toList := by
  rw [Layout.orNull]
  split
  · exact .char (by decide) (.char (by decide) (.char (by decide) (.char (by decide) .nil)))
  · exact h

/-- Fields one after the other: the margin that each brings is that of the next. -/
theorem fieldsAt_eq (depth : Nat) (hindent : '\n' ∉ indent.toList) {fs : List Field} (hnames : ∀ f ∈ fs, ¬ IsFed f.name)
    (htidy : ∀ f ∈ fs, Tidy (text f.type).toList) :
    String.join ((fields (fun m => inset (copies indent (depth + 1)) (text m)) fs).map
        (Layout.fieldAt indent (depth + 1))) ++ copies indent depth =
      copies indent depth ++ inset (copies indent depth)
        (String.join ((fields text fs).map (Layout.fieldText (.text indent)))) := by
  induction fs with
  | nil => simp [fields, inset_of_flat "" (by decide)]
  | cons f fs ih =>
    have hrest := ih (fun f hf => hnames f (List.mem_cons_of_mem _ hf))
      fun f hf => htidy f (List.mem_cons_of_mem _ hf)
    have hfirst := Layout.inset_fieldText f.required depth hindent
      (hnames f (List.mem_cons_self ..)) (tidy_orNull (htidy f (List.mem_cons_self ..)))
    simp only [fields, List.map_cons, String.join_cons] at hrest ⊢
    rw [String.append_assoc, hrest, inset_append, ← String.append_assoc, ← String.append_assoc, hfirst,
      Layout.inset_orNull]

/-- **An object type with a margin** is the object type at its depth. -/
theorem objectAt_eq (hindent : '\n' ∉ indent.toList) {fs : List Field} (hnames : ∀ f ∈ fs, ¬ IsFed f.name)
    (htidy : ∀ f ∈ fs, Tidy (text f.type).toList) :
    Layout.objectAt indent depth (fields (fun m => inset (copies indent (depth + 1)) (text m)) fs) =
      inset (copies indent depth) (Layout.objectType (.text indent) (fields text fs)) := by
  have hopen : inset (copies indent depth) "\x7b\n" = "\x7b\n" ++ copies indent depth := by
    rw [← String.toList_inj, inset, String.toList_ofList, String.toList_append]
    simp [indented]
  have hfields := congrArg (fun t => "\x7b\n" ++ t ++ "\x7d") (fieldsAt_eq depth hindent hnames htidy)
  rw [Layout.objectAt, Layout.objectType, inset_append, inset_append, hopen, inset_of_flat "\x7d" (by decide)]
  simp only [String.append_assoc] at hfields ⊢
  exact hfields

variable (hindent : '\n' ∉ indent.toList) (hunfed : g.Unfed) (hnode : g.node? id = some node)
  (htidy : ∀ a ∈ g.arrows id, Tidy (text a.target).toList)

include hindent hunfed hnode htidy

/-- **One layer.** What a node is written as, from texts with the margins of their depths, has the margin of its own. -/
theorem expressionAt_eq : expressionAt (fun depth m => inset (copies indent depth) (text m)) g indent depth node =
    inset (copies indent depth) (expression text g (.text indent) node) := by
  have hshape : ∀ a ∈ g.shapeArrows id node.shape, Tidy (text a.target).toList :=
    fun a ha => htidy a (Graph.arrow_of_shape hnode ha)
  cases hs : node.shape with
  | scalar s =>
    simp only [expressionAt, expression, hs]
    refine (inset_of_flat _ ?_).symm
    cases s <;> decide
  | composite =>
    simp only [expressionAt, expression, hs]
    exact augmentation_inset node
  | choice alternatives =>
    simp only [expressionAt, expression, hs]
    rw [texts_inset, inset_intercalate (by decide)]
  | array item =>
    simp only [expressionAt, expression, hs]
    have hitem : Tidy ((item.map text).getD "").toList := by
      cases item with
      | none => exact .nil
      | some item => exact hshape ⟨id, item, false⟩ (by simp [hs, Graph.shapeArrows, Shape.children])
    have hmap : (item.map fun m => inset (copies indent depth) (text m)).getD "" =
        inset (copies indent depth) ((item.map text).getD "") := by
      cases item <;> rfl
    rw [hmap, ← Layout.inset_orNull, ← Layout.inset_element (tidy_orNull hitem), inset_append,
      inset_of_flat "[]" (by decide)]
  | object fs =>
    have htypes : ∀ f ∈ fs, Tidy (text f.type).toList := fun f hf =>
      hshape ⟨id, f.type, false⟩
        (by rw [hs]; exact List.mem_map.mpr ⟨f.type, List.mem_map.mpr ⟨f, hf, rfl⟩, rfl⟩)
    have hnames : ∀ f ∈ fs, ¬ IsFed f.name := fun f hf =>
      hunfed node (Array.mem_toList_iff.mpr (Array.mem_of_getElem? hnode)) f.name
        (by rw [hs]; exact List.mem_map_of_mem hf)
    simp only [expressionAt, expression, hs]
    exact objectAt_eq hindent hnames htypes
  | reference ref target =>
    have hmap : ((g.find? target).map fun m => inset (copies indent depth) (text m)).getD "" =
        inset (copies indent depth) (((g.find? target).map text).getD "") := by
      cases g.find? target <;> rfl
    simp only [expressionAt, expression, hs]
    rw [hmap, Layout.inset_orNull]

theorem undeclaredAt_eq : undeclared node
    (expressionAt (fun depth m => inset (copies indent depth) (text m)) g indent depth node)
      (augmentation (fun m => inset (copies indent depth) (text m)) node) =
    inset (copies indent depth)
      (undeclared node (expression text g (.text indent) node) (augmentation text node)) := by
  rw [expressionAt_eq hindent hunfed hnode htidy, augmentation_inset, undeclared, undeclared]
  split
  · rfl
  · exact (Layout.inset_augmented ..).symm

/-- What stands for a node at some depth is its text without depth, inset by as many margins. -/
theorem inlineAt_eq (hname : ∀ c ∈ node.name.toList, isPlain c = true) :
    inlineAt (fun depth m => inset (copies indent depth) (text m)) g indent depth node =
      inset (copies indent depth) (inline text g (.text indent) node) := by
  rw [inlineAt, inline]
  split
  · refine (inset_of_flat _ fun hmem => ?_).symm
    exact absurd (hname _ hmem) (by decide)
  · exact undeclaredAt_eq hindent hunfed hnode htidy

/-- The block of a node stands at no depth. -/
theorem blockAt_eq : blockAt (fun depth m => inset (copies indent depth) (text m)) g indent node =
    block text g (.text indent) node := by
  rw [blockAt, block, expressionAt_eq hindent hunfed hnode htidy, augmentation_inset, copies, inset_nil, inset_nil]

end

end Spelling

/-! ## All layers -/

/-- What is worded is tidy, with an indent of spaces and tabs. -/
theorem Worded.tidy {indent : Indent} {t : String} (hlevel : indent.Level)
    (h : Worded indent Spacing.strict.word t) : Tidy t.toList := by
  rcases h with rfl | ⟨e, rfl, hnames⟩
  · exact .nil
  · exact tidy_of_inked (e.solid hlevel hnames).inked (e.laid hlevel.fits hnames).eq_feed

namespace Graph

variable {g : Graph} {indent : String}

theorem PlainNames.node (h : g.PlainNames) {id : NodeId} {node : Node} (hnode : g.node? id = some node) :
    ∀ c ∈ node.name.toList, isPlain c = true := by
  have hplain := h id
  rwa [nameOf_of_node hnode] at hplain

/-- With plain names, what stands for a node is an expression or nothing at all. -/
theorem inlineWithin_worded (hnames : g.PlainNames) (indent : Indent) : ∀ (levels : Nat) (id : NodeId),
    Worded indent Spacing.strict.word (g.inlineWithin indent levels id)
  | 0, _ => Or.inl rfl
  | levels + 1, id => by
    rw [inlineWithin]
    split
    · exact Or.inl rfl
    · rename_i node hnode
      cases hdecl : node.declared with
      | true =>
        rw [Spelling.inline, if_pos hdecl]
        by_cases hempty : node.name = ""
        · exact Or.inl hempty
        · exact Or.inr (.ofName ⟨hempty, hnames.node hnode⟩)
      | false =>
        exact Spelling.inline_worded hnode hdecl fun a _ => inlineWithin_worded hnames indent levels a.target

/-- **The direct printer writes the same**, with the margin of its depth. The induction is on how many nodes are
entered one inside the other. -/
theorem printedWithin_eq (hlevel : (Indent.text indent).Level) (hnames : g.PlainNames) (hunfed : g.Unfed) :
    ∀ (levels depth : Nat) (id : NodeId),
      g.printedWithin indent levels depth id =
        inset (copies indent depth) (g.inlineWithin (.text indent) levels id)
  | 0, depth, id => (inset_of_flat "" (by decide)).symm
  | levels + 1, depth, id => by
    have hindent : '\n' ∉ indent.toList := fun hmem => absurd (hlevel.shown _ hmem) (by decide)
    have hrest : g.printedWithin indent levels =
        fun depth m => inset (copies indent depth) (g.inlineWithin (.text indent) levels m) :=
      funext fun depth => funext fun m => printedWithin_eq hlevel hnames hunfed levels depth m
    rw [printedWithin, inlineWithin, hrest]
    cases hnode : g.node? id with
    | none => exact (inset_of_flat "" (by decide)).symm
    | some node =>
      refine Spelling.inlineAt_eq hindent hunfed hnode (fun a _ => ?_) (hnames.node hnode)
      exact (inlineWithin_worded hnames _ levels a.target).tidy hlevel

end Graph

/-- **The page of a node as the direct printer has it.** The printer is the one that its equation says, not cut
short. -/
structure Printed (g : Graph) (indent : String) (page : Page) (n : NodeId) (node : Node) : Prop where
  inline : page.inline = some (g.printedText indent 0 n)
  block : node.declared = true → page.block = some (Spelling.blockAt (g.printedText indent) g indent node)
  equation : ∀ depth, g.printedText indent depth n = Spelling.inlineAt (g.printedText indent) g indent depth node

/-- A page that the plain recursion has is one that the direct printer has. -/
theorem Plain.printed {g : Graph} {indent : String} {page : Page} {n : NodeId} {node : Node}
    (h : Plain g (.text indent) page n node) (hlevel : (Indent.text indent).Level) (hnames : g.PlainNames)
    (hunfed : g.Unfed) (hnode : g.node? n = some node) : Printed g indent page n node := by
  have hindent : '\n' ∉ indent.toList := fun hmem => absurd (hlevel.shown _ hmem) (by decide)
  have htext : g.printedText indent = fun depth m => inset (copies indent depth) (g.inlineText (.text indent) m) :=
    funext fun depth => funext fun m => Graph.printedWithin_eq hlevel hnames hunfed _ depth m
  have htidy : ∀ a ∈ g.arrows n, Tidy (g.inlineText (.text indent) a.target).toList := fun a _ =>
    (Graph.inlineWithin_worded hnames _ _ a.target).tidy hlevel
  refine ⟨?_, fun hdecl => ?_, fun depth => ?_⟩
  · rw [h.inline, htext]
    exact congrArg some (inset_nil _).symm
  · rw [htext, h.block hdecl, Spelling.blockAt_eq hindent hunfed hnode htidy]
  · rw [htext, Spelling.inlineAt_eq hindent hunfed hnode htidy (hnames.node hnode), ← h.equation]

section

variable {σ : Type} [Source σ] {r₀ r : Registry σ} {text : String}

/-- **Moving lines is printing with a depth.** If a compilation succeeds, with an indent of spaces and tabs and no
property name that is an identifier with a line feed behind it, then the text of any type, to any number of levels, with
its lines moved for any depth is what the direct printer writes at that depth. So the page of a node that was met is the
one that the direct printer has, if no arrow from inside of its text leads back to an undeclared node. -/
theorem parse_printed {indent : String} (hf : r₀.Fresh) (hsetting : r₀.settings.indent = .str indent)
    (hblank : ∀ c ∈ indent.toList, c = ' ' ∨ c = '\t') (h : Registry.parse r₀ = .ok text r) (hunfed : r.graph.Unfed) :
    (∀ levels depth n, (reindent indent.toList)^[depth] (r.graph.inlineWithin (.text indent) levels n).toList =
      (r.graph.printedWithin indent levels depth n).toList) ∧
    ∃ ids, r₀.Compiled r ids text ∧ ∀ n node, r.graph.Reachable ids n → r.graph.node? n = some node →
      (r.graph.walk ids).BackNamedFrom r.graph n → Printed r.graph indent (r.draft.page n) n node := by
  obtain ⟨ids, hcompiled⟩ := Registry.parse_compiled hf h
  have hlevel : (Indent.text indent).Level := ⟨hblank, hblank⟩
  have hnames : r.graph.PlainNames := fun n => (hcompiled.nameLike_nameOf hf n).plain
  have hbreak : ∀ c ∈ indent.toList, isLineBreak c = false := by
    intro c hc
    rcases hblank c hc with rfl | rfl <;> decide
  refine ⟨fun levels depth n => ?_, ids, hcompiled, fun n node hreach hnode hback => ?_⟩
  · rw [Graph.printedWithin_eq hlevel hnames hunfed,
      Tidy.reindent_iterate hbreak depth ((Graph.inlineWithin_worded hnames _ levels n).tidy hlevel)]
  · have horBlank : Indent.orBlank r.settings.indent = .text indent := by
      rw [hcompiled.settings, hsetting]
      rfl
    have hplain := hcompiled.tracks.plain_of_backNamedFrom hcompiled.valid hback horBlank
      (hcompiled.mem_closed hreach) hnode
    exact hplain.printed hlevel hnames hunfed hnode

end

/-- Object types inside of each other, in a field, in an array and in a union, with names that have to be quoted. -/
def nestedObjects : Registry Catalog := .queued { indent := .str "\t" } ⟨[]⟩ "" [
  .obj [("title", .str "Chest"), ("properties", .obj [
    ("?", .obj [("properties", .obj [
      ("\n!", .obj [("type", .str "array"), ("items", .obj [("properties", .obj [
        ("…", .obj [("type", .str "string")])])])]),
      ("+", .obj [("type", .arr [.str "string", .str "object"])])])])])]]

theorem parse_printed_nestedObjects :
    ∃ text r ids node, nestedObjects.Fresh ∧ nestedObjects.settings.indent = .str "\t" ∧
      (∀ c ∈ "\t".toList, c = ' ' ∨ c = '\t') ∧ Registry.parse nestedObjects = .ok text r ∧ r.graph.Unfed ∧
      nestedObjects.Compiled r ids text ∧ r.graph.Reachable ids 1 ∧ r.graph.node? 1 = some node ∧
      (r.graph.walk ids).BackNamedFrom r.graph 1 ∧ Printed r.graph "\t" (r.draft.page 1) 1 node ∧
      r.graph.printedText "\t" 0 1 = "\x7b\n\t\"\\n!\"?: \x7b\n\t\t\"\\u2026\"?: string;\n\t\x7d[];\n" ++
        "\t\"+\"?: string | \x7b\n\t\x7d;\n\x7d" ∧
      (reindent "\t".toList)^[2] (r.graph.inlineWithin (.text "\t") 2 3).toList =
        (r.graph.printedWithin "\t" 2 2 3).toList ∧
      r.graph.printedWithin "\t" 2 2 3 = "\x7b\n\t\t\t\"\\u2026\"?: string;\n\t\t\x7d" := by
  have hfresh : nestedObjects.Fresh := Registry.fresh_queued _ _ _ _
  have htab : ∀ c ∈ "\t".toList, c = ' ' ∨ c = '\t' := forall_mem (by decide)
  obtain ⟨text, r, hparse, htest⟩ := exists_of_succeeds (Registry.parse nestedObjects)
    (fun text (r : Registry Catalog) => decide (r.graph.Unfed ∧
      (r.graph.advance^[40] (r.graph.enter 0 {})).stack = [] ∧
      1 ∈ (r.graph.advance^[40] (r.graph.enter 0 {})).closed ∧
      (r.graph.advance^[40] (r.graph.enter 0 {})).back = [] ∧ (r.graph.node? 1).isSome = true ∧
      r.graph.printedText "\t" 0 1 = "\x7b\n\t\"\\n!\"?: \x7b\n\t\t\"\\u2026\"?: string;\n\t\x7d[];\n" ++
        "\t\"+\"?: string | \x7b\n\t\x7d;\n\x7d" ∧
      r.graph.printedWithin "\t" 2 2 3 = "\x7b\n\t\t\t\"\\u2026\"?: string;\n\t\t\x7d"))
    (by decide +kernel)
  obtain ⟨hunfed, hstack, hclosed, hback, hsome, hprinted, hdeep⟩ := of_decide_eq_true htest
  obtain ⟨hmoved, ids, hcompiled, hall⟩ := parse_printed hfresh rfl htab hparse hunfed
  have hwalk := hcompiled.walk_eq (by decide +kernel) hstack
  have hnamed : (r.graph.walk ids).BackNamedFrom r.graph 1 := by
    intro a ha
    rw [hwalk, hback] at ha
    exact absurd ha List.not_mem_nil
  have hreach : r.graph.Reachable ids 1 := hcompiled.reachable_of_closed (by rwa [hwalk])
  obtain ⟨node, hnode⟩ := Option.isSome_iff_exists.mp hsome
  exact ⟨text, r, ids, node, hfresh, rfl, htab, hparse, hunfed, hcompiled, hreach, hnode, hnamed,
    hall 1 node hreach hnode hnamed, hprinted, hmoved 2 2 3, hdeep⟩

end TypeScribe
