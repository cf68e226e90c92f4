import TypeScribe.Proofs.Circles

/-!
# The items of arrays

Brackets bind closer than operators, so the item of an array is put in parentheses if its text has a blank and does
not end in a closing brace. Most texts with operators are made **one operand** by this (`Says.element`). An item that
ends in a brace is left as it is, which is right for an object type alone. But a union or an intersection may end in
an object type too: then it is **torn** (`torn`), and the brackets apply to the object type at its end.

This is the only way for an array not to be the array of its item (`parse_elements`).
-/

namespace TypeScribe

/-- Whether an operator stands at the top of a text, outside of all parentheses and braces. -/
def operated (text : String) : Bool :=
  (Sum.ofText? text).any fun s => !s.closed.isEmpty || !s.factors.isEmpty

/-- **Torn by brackets** behind it: a text that ends in a closing brace and has an operator at its top. -/
def torn (text : String) : Bool := text.toList.getLast? == some '\x7d' && operated text

namespace Sum

variable {s : Sum}

/-- With an operator at the top a sum is a joined type. -/
theorem exists_join (h : s.closed ≠ [] ∨ s.factors ≠ []) :
    ∃ joint first second rest, s.sense = .join joint first second rest := by
  by_cases hclosed : s.closed = []
  · obtain ⟨x, factors, hfactors⟩ := List.exists_cons_of_ne_nil (h.resolve_left (not_not_intro hclosed))
    rw [sense_of_closed hclosed, operands, hfactors]
    cases factors with
    | nil => exact ⟨_, Sense.joined_cons_cons ..⟩
    | cons y more => exact ⟨_, Sense.joined_cons_cons ..⟩
  · exact ⟨_, sense_of_bar hclosed⟩

/-- **Brackets apply to the whole of a sum** if it is one operand, and only then. -/
theorem sense_brackets_iff : s.brackets.sense = .array s.sense ↔ s.closed = [] ∧ s.factors = [] := by
  constructor
  · intro heq
    by_contra hoperator
    have hjoin : s.brackets.closed ≠ [] ∨ s.brackets.factors ≠ [] := not_and_or.mp hoperator
    obtain ⟨joint, first, second, rest, hjoin⟩ := exists_join hjoin
    rw [hjoin] at heq
    cases heq
  · obtain ⟨⟨closed, factors⟩, last⟩ := s
    rintro ⟨rfl, rfl⟩
    exact (sense_single (.array last)).trans (congrArg Sense.array (sense_single last).symm)

end Sum

section

variable {indent : Indent} {text : String} {s : Sum} (hfits : indent.Fits .strict)

include hfits

theorem Says.operated (h : Says indent text s) : operated text = false ↔ s.closed = [] ∧ s.factors = [] := by
  rw [TypeScribe.operated, h.ofText? hfits, Option.any_some, Bool.or_eq_false_iff]
  simp

/-- **An array is the array of its item** exactly if the item is not torn. -/
theorem Expressed.array_iff (h : Expressed indent Spacing.strict.word text) :
    ∃ s t, Sense.ofText? text = some s ∧ Sense.ofText? (Layout.element text ++ "[]") = some t ∧
      (t = .array s ↔ torn text = false) := by
  obtain ⟨s, hs⟩ := h.exists_sum
  refine ⟨s.sense, _, hs.sense? hfits, hs.element.brackets.sense? hfits, ?_⟩
  rw [torn, Bool.and_eq_false_iff, hs.operated hfits, beq_eq_false_iff_ne]
  split
  · rename_i hbrace
    rw [Sum.sense_brackets_iff]
    simp [hbrace]
  · rename_i hbrace
    have hwhole : (Sum.single s.sense).brackets.sense = .array s.sense := Sum.sense_single _
    simp [hbrace, hwhole]

end

/-! ## Output -/

section

variable {σ : Type} [Source σ] {r₀ r : Registry σ} {text : String}

/-- **Arrays apply to the whole item, unless it is torn.** If a compilation succeeds, with an indent of spaces and
tabs, then for every array that was met: its page shows its text, with what its keywords come to, and both this text and
the text of the item can be read. The text is the array of the item if and only if the text of the item does not end in
a brace with an operator at its top. -/
theorem parse_elements (hf : r₀.Fresh) (hfits : (Indent.orBlank r₀.settings.indent).Fits .strict)
    (h : Registry.parse r₀ = .ok text r) :
    ∃ ids, r₀.Compiled r ids text ∧ ∀ n node item, r.graph.Reachable ids n → r.graph.node? n = some node →
      node.shape = .array item → ∃ before after, (r.graph.walk ids).closed = before ++ n :: after ∧
        let known := r.draft.known r.graph before
        let embedded := Layout.orNull ((item.map known).getD "")
        let array := Spelling.expression known r.graph (.orBlank r.settings.indent) node
        (r.draft.page n).Shows node array (Layout.augmented array (Spelling.augmentation known node)) ∧
          ∃ s t, Sense.ofText? embedded = some s ∧ Sense.ofText? array = some t ∧
            (t = .array s ↔ torn embedded = false) := by
  obtain ⟨ids, hcompiled⟩ := Registry.parse_compiled hf h
  refine ⟨ids, hcompiled, ?_⟩
  intro n node item hreach hnode hshape
  obtain ⟨before, after, hsplit⟩ := List.append_of_mem (hcompiled.mem_closed hreach)
  refine ⟨before, after, hsplit, ?_⟩
  intro known embedded array
  rw [← hcompiled.settings] at hfits
  have hwhole : Spelling.whole known r.graph (.orBlank r.settings.indent) node =
      Layout.augmented array (Spelling.augmentation known node) :=
    Spelling.whole_other (by simp [hshape]) (by simp [hshape])
  have harray : array = Layout.element embedded ++ "[]" := by
    simp only [array, embedded, Spelling.expression, hshape]
  have hitem : Expressed (.orBlank r.settings.indent) Spacing.strict.word embedded := by
    refine Worded.orNull ?_
    cases item with
    | none => exact Or.inl rfl
    | some item =>
      refine hcompiled.known_worded hf hsplit ⟨n, item, false⟩ (Graph.arrow_of_shape hnode ?_)
      simp [hshape, Graph.shapeArrows, Shape.children]
  refine ⟨?_, ?_⟩
  · rw [← hwhole]
    exact (hcompiled.tracks.spelled before n after hsplit node hnode).shows
  · rw [harray]
    exact hitem.array_iff hfits

end

/-- Two arrays with the same alternatives for their items. An object type stands last in the first one. -/
def choiceArrays : Registry Catalog := .queued {} ⟨[]⟩ "" [
  .obj [("title", .str "Drawers"), ("properties", .obj [
    ("torn", .obj [("type", .str "array"), ("items", .obj [("type", .arr [.str "string", .str "object"])])]),
    ("whole", .obj [("type", .str "array"), ("items", .obj [("type", .arr [.str "object", .str "string"])])])])]]

/-- Whether an array without keywords is written as a text, with another for its item, when certain nodes are closed. -/
def Registry.writesArray (r : Registry Catalog) (before : List NodeId) (n item : NodeId) (embedded array : String) :
    Bool :=
  (r.graph.node? n).any fun node => decide (node.shape = .array (some item) ∧
    Layout.orNull (r.draft.known r.graph before item) = embedded ∧
    Spelling.expression (r.draft.known r.graph before) r.graph (.orBlank r.settings.indent) node = array ∧
    Spelling.augmentation (r.draft.known r.graph before) node = "")

theorem parse_elements_choiceArrays :
    ∃ text r ids, choiceArrays.Fresh ∧ (Indent.orBlank choiceArrays.settings.indent).Fits .strict ∧
      Registry.parse choiceArrays = .ok text r ∧ choiceArrays.Compiled r ids text ∧
      text = "interface Drawers \x7b\n  torn?: string | \x7b\n  \x7d[];\n  whole?: (\x7b\n  \x7d | string)[];\n\x7d" ∧
      (∃ node s t, r.graph.Reachable ids 1 ∧ r.graph.node? 1 = some node ∧ node.shape = .array (some 2) ∧
        (r.draft.page 1).Shows node "string | \x7b\n\x7d[]" "string | \x7b\n\x7d[]" ∧
        Sense.ofText? "string | \x7b\n\x7d" = some s ∧
        Sense.ofText? "string | \x7b\n\x7d[]" = some t ∧ t ≠ .array s) ∧
      ∃ node s t, r.graph.Reachable ids 5 ∧ r.graph.node? 5 = some node ∧ node.shape = .array (some 6) ∧
        (r.draft.page 5).Shows node "(\x7b\n\x7d | string)[]" "(\x7b\n\x7d | string)[]" ∧
        Sense.ofText? "\x7b\n\x7d | string" = some s ∧
        Sense.ofText? "(\x7b\n\x7d | string)[]" = some t ∧ t = .array s := by
  have hfresh : choiceArrays.Fresh := Registry.fresh_queued _ _ _ _
  have hfits : (Indent.orBlank choiceArrays.settings.indent).Fits .strict := Settings.fits_default
  obtain ⟨text, r, hparse, htest⟩ := exists_of_succeeds (Registry.parse choiceArrays)
    (fun text (r : Registry Catalog) => decide (
      text = "interface Drawers \x7b\n  torn?: string | \x7b\n  \x7d[];\n  whole?: (\x7b\n  \x7d | string)[];\n\x7d" ∧
      (r.graph.advance^[40] (r.graph.enter 0 {})).stack = [] ∧
      (r.graph.advance^[40] (r.graph.enter 0 {})).closed = [3, 4, 2, 1, 7, 8, 6, 5, 0] ∧
      r.writesArray [3, 4, 2] 1 2 "string | \x7b\n\x7d" "string | \x7b\n\x7d[]" = true ∧
      r.writesArray [3, 4, 2, 1, 7, 8, 6] 5 6 "\x7b\n\x7d | string" "(\x7b\n\x7d | string)[]" = true))
    (by decide +kernel)
  obtain ⟨htext, hstack, hclosed, htorn, hwhole⟩ := of_decide_eq_true htest
  obtain ⟨ids, hcompiled, hall⟩ := parse_elements hfresh hfits hparse
  have horder := (congrArg Walk.closed (hcompiled.walk_eq (by decide +kernel) hstack)).trans hclosed
  have hread : ∀ {before : List NodeId} (after : List NodeId) {n item : NodeId} {embedded array : String},
      (r.graph.walk ids).closed = before ++ n :: after → r.writesArray before n item embedded array = true →
      ∃ node s t, r.graph.Reachable ids n ∧ r.graph.node? n = some node ∧ node.shape = .array (some item) ∧
        (r.draft.page n).Shows node array array ∧ Sense.ofText? embedded = some s ∧ Sense.ofText? array = some t ∧
        (t = .array s ↔ torn embedded = false) := by
    intro before after n item embedded array hsplit hwrites
    obtain ⟨node, hnode, hnode'⟩ := (Option.any_eq_true _ _).mp hwrites
    obtain ⟨hshape, rfl, rfl, haugmentation⟩ := of_decide_eq_true hnode'
    have hreach := hcompiled.reachable_of_closed (n := n) (by simp [hsplit])
    obtain ⟨before', after', hsplit', hshows, s, t, hs, ht, hiff⟩ := hall n node _ hreach hnode hshape
    obtain rfl := hcompiled.before_unique hsplit hsplit'
    rw [haugmentation] at hshows
    exact ⟨node, s, t, hreach, hnode, hshape, hshows, hs, ht, hiff⟩
  obtain ⟨node, s, t, hreach, hnode, hshape, hshows, hs, ht, hiff⟩ := hread [7, 8, 6, 5, 0] horder htorn
  obtain ⟨node', s', t', hreach', hnode', hshape', hshows', hs', ht', hiff'⟩ := hread [0] horder hwhole
  have htorn : torn "string | \x7b\n\x7d" = true := by decide +kernel
  have hfine : torn "\x7b\n\x7d | string" = false := by decide +kernel
  exact ⟨text, r, ids, hfresh, hfits, hparse, hcompiled, htext,
    ⟨node, s, t, hreach, hnode, hshape, hshows, hs, ht, fun heq => absurd (hiff.mp heq) (by rw [htorn]; decide)⟩,
    node', s', t', hreach', hnode', hshape', hshows', hs', ht', hiff'.mpr hfine⟩

end TypeScribe
