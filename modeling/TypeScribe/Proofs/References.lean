import TypeScribe.Proofs.Course

/-!
# References stand for their targets

A **bare** reference, with neither a name of its own nor composing keywords, is meant to be transparent: its text is
to be the text of its target, and to put the reference somewhere is to put the target there.

* **One step.** When a reference is closed its target is declared or closed already, so the text of the target is there
  and does not change any more (`Registry.Compiled.known_reference`).
* **Chains.** A target may be a bare reference itself. The induction goes along the chain, from its end
  (`Registry.Compiled.known_chain`).

What a reference makes of the text is to write `null` for an empty one. So references are transparent as the types of
fields and items, where `null` is written for an empty text anyway. Among alternatives and the members of keywords, where
empty texts are left out, they are transparent exactly if the text of the target is not empty (`parse_transparent`).
-/

namespace TypeScribe

/-- **A bare reference to a node**: it is not declared, it has no keywords, and its key leads to the node. -/
def Graph.StandsFor (g : Graph) (n t : NodeId) : Prop :=
  ∃ node ref key, g.node? n = some node ∧ node.shape = .reference ref key ∧ node.declared = false ∧
    node.augmentations = [] ∧ g.find? key = some t

instance (g : Graph) (n t : NodeId) : Decidable (g.StandsFor n t) :=
  decidable_of_iff (((g.node? n).any fun node => match node.shape with
    | .reference _ key => !node.declared && node.augmentations.isEmpty && g.find? key == some t
    | _ => false) = true) <| by
    rw [Option.any_eq_true, Graph.StandsFor]
    refine exists_congr fun node => ?_
    cases node.shape <;> simp [and_assoc]

/-- One node in the place of another. -/
def NodeId.placed (n t m : NodeId) : NodeId := if m = n then t else m

section

variable {g : Graph} {n t : NodeId}

/-- What only stands for another node has no block of its own. -/
theorem Graph.StandsFor.undeclared (h : g.StandsFor n t) : g.isDeclared n = false := by
  obtain ⟨node, ref, key, hnode, -, hdeclared, -⟩ := h
  rw [isDeclared_of_node hnode, hdeclared]

theorem Graph.StandsFor.arrow (h : g.StandsFor n t) : ⟨n, t, true⟩ ∈ g.arrows n := by
  obtain ⟨node, ref, key, hnode, hshape, -, -, htarget⟩ := h
  refine arrow_of_shape hnode ?_
  simp [hshape, shapeArrows, htarget]

/-- **What a bare reference is written as**: the text of its target, or `null`. -/
theorem Graph.StandsFor.inline_eq {node : Node} (h : g.StandsFor n t) (hnode : g.node? n = some node)
    (text : NodeId → String) (indent : Indent) : Spelling.inline text g indent node = Layout.orNull (text t) := by
  obtain ⟨node', ref, key, hnode', hshape, hdeclared, hkeywords, htarget⟩ := h
  obtain rfl := Option.some.inj (hnode.symm.trans hnode')
  have hnone : Spelling.augmentation text node = "" := by
    rw [Spelling.augmentation, hkeywords]
    rfl
  rw [Spelling.inline_eq hdeclared, Spelling.whole_other (by simp [hshape]) (by simp [hshape]), hnone,
    Layout.augmented, if_pos rfl]
  simp [Spelling.expression, hshape, htarget]

end

theorem Layout.orNull_of_ne {text : String} (h : text ≠ "") : orNull text = text := if_neg h

theorem Layout.orNull_ne_empty (text : String) : orNull text ≠ "" := by
  rw [orNull]
  split
  · decide
  · assumption

theorem Layout.orNull_orNull (text : String) : orNull (orNull text) = orNull text :=
  orNull_of_ne (orNull_ne_empty text)

/-! ## Members -/

namespace Spelling

variable {text : NodeId → String} {n t : NodeId}

/-- Members without a text are left out. -/
theorem texts_cons (m : NodeId) (ids : List NodeId) :
    texts text (m :: ids) = if text m = "" then texts text ids else text m :: texts text ids := by
  simp only [texts, List.map_cons, List.filter_cons, decide_not, Bool.not_eq_true', decide_eq_false_iff_not]
  split <;> simp_all

/-- Texts in place of empty ones make a list longer: the empty ones are left out. -/
theorem length_texts_placed (h : text n ≠ "") (ht : text t = "") : ∀ ids : List NodeId,
    (texts text (ids.map (NodeId.placed n t))).length + ids.count n = (texts text ids).length
  | [] => rfl
  | m :: ids => by
    have hrest := length_texts_placed h ht ids
    rw [List.map_cons, texts_cons, texts_cons, List.count_cons]
    by_cases hm : m = n
    · subst hm
      rw [NodeId.placed, if_pos rfl, if_pos ht, if_neg h, List.length_cons, ← hrest]
      simp [Nat.add_assoc]
    · rw [NodeId.placed, if_neg hm]
      split
      · simpa [hm] using hrest
      · simp only [List.length_cons, ← hrest, beq_iff_eq, hm, if_false]
        omega

/-- **A target among members**, in place of a reference to it, changes nothing if it has a text or the reference is
not among them. -/
theorem texts_placed_iff (h : text n = Layout.orNull (text t)) {ids : List NodeId} :
    texts text (ids.map (NodeId.placed n t)) = texts text ids ↔ text t ≠ "" ∨ n ∉ ids := by
  constructor
  · intro heq
    by_contra hboth
    obtain ⟨hempty, hmem⟩ := not_or.mp hboth
    have hlength := length_texts_placed (h ▸ Layout.orNull_ne_empty _) (not_not.mp hempty) ids
    rw [heq] at hlength
    have hcount : 0 < ids.count n := List.count_pos_iff.mpr (not_not.mp hmem)
    omega
  · intro hor
    rw [texts, List.map_map]
    refine congrArg _ (List.map_congr_left fun m hm => ?_)
    rw [Function.comp_apply, NodeId.placed]
    split
    · rename_i heq
      subst heq
      rw [h, Layout.orNull_of_ne (hor.resolve_right (not_not_intro hm))]
    · rfl

end Spelling

/-! ## Chains of references -/

section

variable {σ : Type} [Source σ] {r₀ r : Registry σ} {ids : List NodeId} {text : String}

namespace Registry.Compiled

variable {before after : List NodeId} {n m t : NodeId} (h : r₀.Compiled r ids text)
  (hsplit : (r.graph.walk ids).closed = before ++ after)

include h hsplit

/-- **A text that is there stays**: what can be read of a node is what is on its page in the end, once the node is
declared and seen, or closed. -/
theorem inline_known (hready : r.graph.isDeclared m = true ∧ m ∈ (r.graph.walk ids).seen ∨ m ∈ before) :
    (r.draft.page m).inline = some (r.draft.known r.graph before m) := by
  have hseen : m ∈ (r.graph.walk ids).seen := by
    rcases hready with ⟨-, hseen⟩ | hmem
    · exact hseen
    · exact (h.valid.mem_seen_iff m).mpr (Or.inr (hsplit ▸ List.mem_append_left _ hmem))
  cases hdeclared : r.graph.isDeclared m with
  | true => rw [h.tracks.named m hseen hdeclared, Draft.known, if_pos hdeclared]
  | false =>
    have hmem : m ∈ before := hready.resolve_left fun hand => by simp [hdeclared] at hand
    have hclosed : m ∈ (r.graph.walk ids).closed := hsplit ▸ List.mem_append_left _ hmem
    obtain ⟨u, hu⟩ := h.tracks.inline_isSome h.valid hseen
      (Or.inr fun hpath => h.valid.not_mem_closed hpath hclosed)
    rw [hu, Draft.known, if_neg (by simp [hdeclared]), if_pos hmem, Draft.text_of_inline hu]

/-- **One step**: a reference that is closed has the text of its target, or `null`, and the target is declared or
closed as well. An arrow back to an open target would have been noticed. -/
theorem known_reference (href : r.graph.StandsFor n m) (hn : n ∈ before) :
    (r.graph.isDeclared m = true ∧ m ∈ (r.graph.walk ids).seen ∨ m ∈ before) ∧
      r.draft.known r.graph before n = Layout.orNull (r.draft.known r.graph before m) := by
  obtain ⟨k₁, k₂, hbefore⟩ := List.append_of_mem hn
  have hsplit' : (r.graph.walk ids).closed = k₁ ++ n :: (k₂ ++ after) := by
    rw [hsplit, hbefore, List.append_assoc, List.cons_append]
  have hready : r.graph.isDeclared m = true ∧ m ∈ (r.graph.walk ids).seen ∨ m ∈ k₁ := by
    rcases h.valid.order k₁ n _ hsplit' _ href.arrow with hback | hclosed
    · refine Or.inl ⟨?_, (h.valid.back _ hback).1⟩
      by_contra hundeclared
      exact h.tracks.unnoticed _ hback ⟨by simpa using hundeclared, Or.inl rfl⟩
    · exact Or.inr hclosed
  have hready' : r.graph.isDeclared m = true ∧ m ∈ (r.graph.walk ids).seen ∨ m ∈ before :=
    hready.imp_right fun hmem => hbefore ▸ List.mem_append_left _ hmem
  refine ⟨hready', ?_⟩
  obtain ⟨node, ref, key, hnode, -, hdeclared, -⟩ := id href
  have hinline := (h.tracks.spelled k₁ n _ hsplit' node hnode).inline hdeclared
  rw [href.inline_eq hnode] at hinline
  have hthen := h.inline_known hsplit' hready
  have hlater := h.inline_known hsplit hready'
  rw [hthen, Option.some_inj] at hlater
  rw [← hlater]
  exact Option.some.inj ((h.inline_known hsplit (Or.inr hn)).symm.trans hinline)

/-- **Chains**: a reference that is closed has the text of the node at the end, or `null`. -/
theorem known_chain (hchain : Relation.TransGen r.graph.StandsFor n t) (hn : n ∈ before) :
    (r.draft.page t).inline = some (r.draft.known r.graph before t) ∧
      r.draft.known r.graph before n = Layout.orNull (r.draft.known r.graph before t) := by
  induction hchain using Relation.TransGen.head_induction_on with
  | single href =>
    obtain ⟨hready, hknown⟩ := h.known_reference hsplit href hn
    exact ⟨h.inline_known hsplit hready, hknown⟩
  | head href hrest ih =>
    obtain ⟨hready, hknown⟩ := h.known_reference hsplit href hn
    obtain ⟨_, hnext, -⟩ := Relation.TransGen.head'_iff.mp hrest
    obtain ⟨hinline, hrest⟩ := ih (hready.resolve_left fun hand => by simp [hnext.undeclared] at hand)
    refine ⟨hinline, ?_⟩
    rw [hknown, hrest, Layout.orNull_orNull]

end Registry.Compiled

/-- **References are transparent, but for empty texts.** If a compilation succeeds, the text of every bare reference that
was met is in the end the text of the node that it leads to, directly or through other bare references, and it is
`null` if that text is empty.

A node that is closed later than the reference is spelled as if the target stood in the place of the reference, as the
type of a field or an item, and among alternatives or members exactly if the text is not empty or the reference is not
among them. A node that is closed earlier reads the reference on an arrow back to it only, and then as nothing. -/
theorem parse_transparent (hf : r₀.Fresh) (h : Registry.parse r₀ = .ok text r) :
    ∃ ids, r₀.Compiled r ids text ∧ ∀ n t, r.graph.Reachable ids n → Relation.TransGen r.graph.StandsFor n t →
      ∃ u, (r.draft.page t).inline = some u ∧ (r.draft.page n).inline = some (Layout.orNull u) ∧
        ((r.draft.page n).inline = (r.draft.page t).inline ↔ u ≠ "") ∧
        ∀ holder before after, (r.graph.walk ids).closed = before ++ holder :: after →
          let known := r.draft.known r.graph before
          (n ∈ before →
            (∀ m, Layout.orNull (known (.placed n t m)) = Layout.orNull (known m)) ∧
              ∀ members, Spelling.texts known (members.map (.placed n t)) = Spelling.texts known members ↔
                u ≠ "" ∨ n ∉ members) ∧
            (n ∉ before → known n = "" ∧
              ∀ a ∈ r.graph.arrows holder, a.target = n → a ∈ (r.graph.walk ids).back) := by
  obtain ⟨ids, hcompiled⟩ := Registry.parse_compiled hf h
  refine ⟨ids, hcompiled, ?_⟩
  intro n t hreach hchain
  have hnil : (r.graph.walk ids).closed = (r.graph.walk ids).closed ++ [] := (List.append_nil _).symm
  have hclosed := hcompiled.mem_closed hreach
  obtain ⟨hinline, hknown⟩ := hcompiled.known_chain hnil hchain hclosed
  have hown := hcompiled.inline_known hnil (Or.inr hclosed)
  rw [hknown] at hown
  refine ⟨_, hinline, hown, ?_, ?_⟩
  · rw [hown, hinline, Option.some_inj]
    exact ⟨fun heq => heq ▸ Layout.orNull_ne_empty _, Layout.orNull_of_ne⟩
  intro holder before after hsplit known
  refine ⟨fun hn => ?_, fun hn => ?_⟩
  · obtain ⟨hinline', hthen⟩ := hcompiled.known_chain hsplit hchain hn
    rw [← Option.some.inj (hinline'.symm.trans hinline)]
    refine ⟨?_, fun members => Spelling.texts_placed_iff hthen⟩
    intro m
    rw [NodeId.placed]
    split
    · rename_i heq
      subst heq
      exact (Layout.orNull_orNull _).symm.trans (congrArg Layout.orNull hthen.symm)
    · rfl
  · obtain ⟨_, hfirst, -⟩ := Relation.TransGen.head'_iff.mp hchain
    have hopen : r.draft.known r.graph before n = "" := by
      rw [Draft.known, if_neg (by simp [hfirst.undeclared]), if_neg hn]
    refine ⟨hopen, ?_⟩
    rintro a ha rfl
    exact (hcompiled.valid.order before holder after hsplit a ha).resolve_right hn

end

/-- References to a type with an empty text, one of them by way of another, and one to a type with a text. -/
def referencesToNull : Registry Catalog := .queued {} ⟨[]⟩ "" [
  .obj [("title", .str "Road"), ("properties", .obj [
    ("end", .obj [("id", .str "End"), ("type", .str "null")]),
    ("sign", .obj [("id", .str "Sign"), ("$ref", .str "End")]),
    ("name", .obj [("id", .str "Name"), ("type", .str "string")]),
    ("fork", .obj [("title", .str "Fork"), ("anyOf", .arr [
      .obj [("$ref", .str "Sign")], .obj [("$ref", .str "Name")]])])])]]

theorem parse_transparent_referencesToNull :
    ∃ text r ids, referencesToNull.Fresh ∧ Registry.parse referencesToNull = .ok text r ∧ referencesToNull.Compiled r ids text ∧
      text = "interface Road \x7b\n  end?: null;\n  sign?: null;\n  name?: string;\n  fork?: Fork;\n\x7d\n\n" ++
        "type Fork = null | string;" ∧
      (r.graph.walk ids).closed = [1, 2, 3, 5, 6] ++ 4 :: [0] ∧
      r.graph.Reachable ids 5 ∧ Relation.TransGen r.graph.StandsFor 5 1 ∧
      (r.draft.page 1).inline = some "" ∧ (r.draft.page 5).inline = some "null" ∧
      r.graph.Reachable ids 6 ∧ Relation.TransGen r.graph.StandsFor 6 3 ∧
      (r.draft.page 3).inline = some "string" ∧ (r.draft.page 6).inline = some "string" ∧
      let known := r.draft.known r.graph [1, 2, 3, 5, 6]
      Spelling.texts known [1, 6] ≠ Spelling.texts known [5, 6] ∧
        Spelling.texts known [5, 3] = Spelling.texts known [5, 6] := by
  have hfresh : referencesToNull.Fresh := Registry.fresh_queued _ _ _ _
  obtain ⟨text, r, hparse, htest⟩ := exists_of_succeeds (Registry.parse referencesToNull)
    (fun text (r : Registry Catalog) => decide (
      text = "interface Road \x7b\n  end?: null;\n  sign?: null;\n  name?: string;\n  fork?: Fork;\n\x7d\n\n" ++
        "type Fork = null | string;" ∧
      (r.graph.advance^[40] (r.graph.enter 0 {})).stack = [] ∧
      (r.graph.advance^[40] (r.graph.enter 0 {})).closed = [1, 2, 3, 5, 6, 4, 0] ∧
      r.graph.StandsFor 5 2 ∧ r.graph.StandsFor 2 1 ∧ r.graph.StandsFor 6 3 ∧
      (r.draft.page 1).inline = some "" ∧ (r.draft.page 3).inline = some "string"))
    (by decide +kernel)
  obtain ⟨htext, hstack, hclosed, hfirst, hsecond, hdirect, hempty, hstring⟩ := of_decide_eq_true htest
  obtain ⟨ids, hcompiled, hall⟩ := parse_transparent hfresh hparse
  have horder : (r.graph.walk ids).closed = [1, 2, 3, 5, 6] ++ 4 :: [0] :=
    (congrArg Walk.closed (hcompiled.walk_eq (by decide +kernel) hstack)).trans hclosed
  have hreach : ∀ n ∈ [5, 6], r.graph.Reachable ids n := fun n hn =>
    hcompiled.reachable_of_closed (by rw [horder]; revert n; decide)
  have hchain : Relation.TransGen r.graph.StandsFor 5 1 := .tail (.single hfirst) hsecond
  obtain ⟨u, hu, hfive, -, hrest⟩ := hall 5 1 (hreach 5 (by decide)) hchain
  obtain ⟨v, hv, hsix, -, hrest'⟩ := hall 6 3 (hreach 6 (by decide)) (.single hdirect)
  obtain rfl : "" = u := Option.some.inj (hempty.symm.trans hu)
  obtain rfl : "string" = v := Option.some.inj (hstring.symm.trans hv)
  have hmembers := ((hrest 4 _ _ horder).1 (by decide)).2 [5, 6]
  have hmembers' := ((hrest' 4 _ _ horder).1 (by decide)).2 [5, 6]
  exact ⟨text, r, ids, hfresh, hparse, hcompiled, htext, horder, hreach 5 (by decide), hchain, hu, hfive,
    hreach 6 (by decide), .single hdirect, hv, hsix, fun heq => absurd (hmembers.mp heq) (by decide),
    hmembers'.mpr (by decide)⟩

end TypeScribe
