import TypeScribe.Proofs.Walk

/-!
# Whole graphs

A node is **complete** when all its parts are built, and a graph is **whole** when all its nodes are
complete.
-/

namespace TypeScribe

/-- **Complete nodes.** What the node holds are nodes, no part is missing, a reference leads to a node,
and the composing keywords stand in the order in which they take effect. -/
structure Graph.Complete (g : Graph) (node : Node) : Prop where
  held : ∀ n ∈ node.children, n < g.size
  item : node.shape ≠ .array none
  target : ∀ ref key, node.shape = .reference ref key → ∃ n, g.find? key = some n ∧ n < g.size
  keywords : (node.augmentations.map Augmentation.keyword).Sublist Keyword.all

/-- **Whole graphs**: every node is complete. -/
def Graph.Whole (g : Graph) : Prop := ∀ id node, g.node? id = some node → g.Complete node

/-- Going through keys in order gives back what stands in that order already. -/
theorem flatMap_filter_eq {κ α β : Type} [DecidableEq κ] (key : α → κ) (f : α → List β) :
    ∀ (keys : List κ) (l : List α), keys.Nodup → (l.map key).Sublist keys →
      (keys.flatMap fun k => (l.filter fun a => decide (key a = k)).flatMap f) = l.flatMap f := by
  intro keys
  induction keys with
  | nil =>
    intro l _ h
    obtain rfl : l = [] := by simpa using h
    rfl
  | cons k keys ih =>
    intro l hnd h
    obtain ⟨hk, hnd⟩ := List.nodup_cons.mp hnd
    have habsent : ∀ {l : List α}, (l.map key).Sublist keys →
        (l.filter fun a => decide (key a = k)) = [] := by
      intro l hl
      rw [List.filter_eq_nil_iff]
      intro a ha he
      have hak : key a = k := by simpa using he
      exact hk (hak ▸ hl.subset (List.mem_map_of_mem ha))
    rcases List.sublist_cons_iff.mp h with h | ⟨r, hr, h⟩
    · rw [List.flatMap_cons, habsent h, List.flatMap_nil, List.nil_append]
      exact ih l hnd h
    · obtain ⟨a, l, rfl, hak, rfl⟩ := List.map_eq_cons_iff.mp hr
      have hfirst : ((a :: l).filter fun a => decide (key a = k)) = [a] := by
        rw [List.filter_cons_of_pos (by simpa using hak), habsent h]
      have hrest : ∀ k' ∈ keys, ((a :: l).filter fun a => decide (key a = k')) =
          l.filter fun a => decide (key a = k') := by
        intro k' hk'
        refine List.filter_cons_of_neg ?_
        rw [hak, decide_eq_true_eq]
        rintro rfl
        exact hk hk'
      rw [List.flatMap_cons, hfirst, List.flatMap_cons, List.flatMap_nil, List.append_nil,
        List.flatMap_cons, ← ih l hnd h]
      congr 1
      exact List.flatMap_congr fun k' hk' => by rw [hrest k' hk']

/-- The members of a complete node, keyword by keyword, are in order already. -/
theorem Graph.Complete.members_eq {g : Graph} {node : Node} (h : g.Complete node) :
    node.members = node.augmentations.flatMap Augmentation.members :=
  flatMap_filter_eq _ _ _ _ (by decide) h.keywords

/-- The arrows of a whole graph lead to nodes. -/
theorem Graph.Whole.bounded {g : Graph} (h : g.Whole) : g.Bounded := by
  intro n a ha
  rw [Graph.arrows] at ha
  cases hn : g.node? n with
  | none => simp [hn] at ha
  | some node =>
    have hc := h n node hn
    simp only [hn, List.mem_append, List.mem_map] at ha
    rcases ha with ⟨t, ht, rfl⟩ | ha
    · rw [hc.members_eq] at ht
      exact hc.held t (List.mem_append_right _ ht)
    · obtain ⟨-, ⟨-, ref, key, hs, ht⟩ | ⟨-, ht⟩⟩ := Graph.mem_shapeArrows ha
      · obtain ⟨t, ht', hlt⟩ := hc.target ref key hs
        obtain rfl : t = a.target := Option.some.inj (ht'.symm.trans ht)
        exact hlt
      · exact hc.held _ (List.mem_append_left _ ht)

end TypeScribe
