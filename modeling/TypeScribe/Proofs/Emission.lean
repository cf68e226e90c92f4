import TypeScribe.Proofs.Course

/-!
# Emission

Which declarations a compilation writes, and in which order. The declarations it meets are the declared
nodes of the **preorder** of the walk from its roots, and of these the first of each name is written
(`Emitted`).

The walk is a machine of its own: it knows of arrows only, and of no page and no text.
-/

namespace TypeScribe

/-! ## The first of each name -/

/-- **The first of each name**: of the nodes in order, those are picked, in that order, before which no
node of the same name stands. -/
structure Graph.Firsts (g : Graph) (order picked : List NodeId) : Prop where
  sublist : picked.Sublist order
  mem_iff : ∀ l₁ n l₂, order = l₁ ++ n :: l₂ → (n ∈ picked ↔ ∀ m ∈ l₁, g.nameOf m ≠ g.nameOf n)

namespace Draft

variable {g : Graph}

/-- The first node is dropped if its name was seen, and otherwise kept, with one more name to avoid.
-/
theorem keep_cons (g : Graph) (seen : List String) (id : NodeId) (rest : List NodeId) :
    (keep g seen (id :: rest)).1 =
      if g.nameOf id ∈ seen then (keep g seen rest).1
      else id :: (keep g (g.nameOf id :: seen) rest).1 := by
  change (if seen.contains (g.nameOf id) then _ else _ : List NodeId × List NodeId).1 = _
  by_cases h : g.nameOf id ∈ seen
  · rw [if_pos h, if_pos (List.contains_iff_mem.mpr h)]
  · rw [if_neg h, if_neg (fun hc => h (List.contains_iff_mem.mp hc))]
    rfl

/-- What is kept stands in the order of emission. -/
theorem keep_sublist (g : Graph) (order : List NodeId) :
    ∀ seen : List String, (keep g seen order).1.Sublist order := by
  induction order with
  | nil =>
    intro seen
    exact List.Sublist.refl _
  | cons id rest ih =>
    intro seen
    rw [keep_cons]
    split
    · exact (ih seen).cons id
    · exact (ih _).cons_cons id

/-- What is kept has a name that was neither seen before nor comes before. -/
theorem mem_keep_iff (order : List NodeId) : ∀ (seen : List String), order.Nodup →
    ∀ l₁ n l₂, order = l₁ ++ n :: l₂ →
      (n ∈ (keep g seen order).1 ↔ g.nameOf n ∉ seen ∧ ∀ m ∈ l₁, g.nameOf m ≠ g.nameOf n) := by
  induction order with
  | nil =>
    intro seen _ l₁ n l₂ hsplit
    simp at hsplit
  | cons id rest ih =>
    intro seen hnodup l₁ n l₂ hsplit
    obtain ⟨hid, hrest⟩ := List.nodup_cons.mp hnodup
    rw [keep_cons]
    cases l₁ with
    | nil =>
      obtain ⟨rfl, rfl⟩ : id = n ∧ rest = l₂ := by simpa using hsplit
      by_cases hseen : g.nameOf id ∈ seen
      · have hnot : id ∉ (keep g seen rest).1 := fun h => hid ((keep_sublist g rest seen).subset h)
        simp [hseen, hnot]
      · simp [hseen]
    | cons k l₁ =>
      obtain ⟨rfl, htail⟩ : id = k ∧ rest = l₁ ++ n :: l₂ := by simpa using hsplit
      have hne : n ≠ id := by
        rintro rfl
        exact hid (by simp [htail])
      by_cases hseen : g.nameOf id ∈ seen
      · rw [if_pos hseen, ih seen hrest l₁ n l₂ htail]
        constructor
        · rintro ⟨hn, hbefore⟩
          refine ⟨hn, ?_⟩
          intro m hm
          rcases List.mem_cons.mp hm with rfl | hm
          · intro he
            exact hn (he ▸ hseen)
          · exact hbefore m hm
        · rintro ⟨hn, hbefore⟩
          exact ⟨hn, fun m hm => hbefore m (List.mem_cons_of_mem _ hm)⟩
      · rw [if_neg hseen, List.mem_cons, or_iff_right hne, ih _ hrest l₁ n l₂ htail]
        simp only [List.mem_cons, not_or, forall_eq_or_imp]
        constructor
        · rintro ⟨⟨hn, hn'⟩, hbefore⟩
          exact ⟨hn', fun he => hn he.symm, hbefore⟩
        · rintro ⟨hn', hn, hbefore⟩
          exact ⟨⟨fun he => hn he.symm, hn'⟩, hbefore⟩

/-- **What is written** is the first of each name. -/
theorem kept_firsts (d : Draft) (hnodup : d.emission.toList.Nodup) :
    g.Firsts d.emission.toList (d.kept g) where
  sublist := keep_sublist g _ _
  mem_iff l₁ n l₂ hsplit := by
    rw [kept, mem_keep_iff _ [] hnodup l₁ n l₂ hsplit]
    simp

/-- The blocks of nodes, if all of them have one. -/
theorem blocks_ok {d : Draft} : ∀ {ids : List NodeId} {blocks : List String},
    d.blocks ids = .ok blocks →
    List.Forall₂ (fun n block => (d.page n).block = some block) ids blocks := by
  intro ids
  induction ids with
  | nil =>
    intro blocks h
    cases h
    exact .nil
  | cons id rest ih =>
    intro blocks h
    rw [Draft.blocks, List.mapM_cons] at h
    cases hblock : (d.page id).block with
    | none =>
      rw [hblock] at h
      cases h
    | some block =>
      rw [hblock] at h
      change ((d.blocks rest).bind fun more => .ok (block :: more)) = .ok blocks at h
      cases hrest : d.blocks rest with
      | error failure =>
        rw [hrest] at h
        cases h
      | ok more =>
        rw [hrest] at h
        cases h
        exact .cons hblock (ih hrest)

/-- Nodes can be rendered if all of them have blocks. -/
theorem exists_blocks {d : Draft} {ids : List NodeId}
    (h : ∀ n ∈ ids, ∃ block, (d.page n).block = some block) : ∃ blocks, d.blocks ids = .ok blocks := by
  induction ids with
  | nil => exact ⟨[], rfl⟩
  | cons id rest ih =>
    obtain ⟨block, hblock⟩ := h id (List.mem_cons_self ..)
    obtain ⟨more, hmore⟩ := ih fun n hn => h n (List.mem_cons_of_mem _ hn)
    refine ⟨block :: more, ?_⟩
    rw [blocks, List.mapM_cons, hblock]
    change ((d.blocks rest).bind fun more => .ok (block :: more)) = _
    rw [hmore]
    rfl

/-- The final text is the blocks of the nodes that are kept, behind the comment if there is one,
with an empty line between. -/
theorem render_ok {d : Draft} {settings : Settings} {commandLine text : String}
    (h : d.render g settings commandLine = .ok text) :
    ∃ blocks, List.Forall₂ (fun n block => (d.page n).block = some block) (d.kept g) blocks ∧
      text = "\n\n".intercalate
        ((if settings.comment.isVacant then [] else [Layout.headerComment commandLine]) ++ blocks) := by
  change ((d.blocks (d.kept g)).bind fun blocks => .ok ("\n\n".intercalate
    ((if settings.comment.isVacant then [] else [Layout.headerComment commandLine]) ++ blocks))) =
      .ok text at h
  cases hblocks : d.blocks (d.kept g) with
  | error failure =>
    rw [hblocks] at h
    cases h
  | ok blocks =>
    rw [hblocks] at h
    cases h
    exact ⟨blocks, blocks_ok hblocks, rfl⟩

end Draft

/-- What conversion has met can be rendered: it is closed, so it has a block if it is declared. -/
theorem Registry.render_succeeds {σ : Type} {r : Registry σ} {ids : List NodeId} (hwhole : r.graph.Whole)
    (ht : Tracks r.graph r.settings.indent false r.draft (r.graph.walk ids)) :
    ∃ text r', render r = .ok text r' := by
  have hv : (r.graph.walk ids).Valid r.graph ids := Graph.walk_valid hwhole.bounded
  have hblocks : ∀ n ∈ r.draft.kept r.graph, ∃ block, (r.draft.page n).block = some block := by
    intro n hn
    have hmet : n ∈ r.draft.emission.toList := (Draft.keep_sublist r.graph _ _).subset hn
    rw [ht.emission, List.mem_filter] at hmet
    obtain ⟨node, hnode⟩ := Graph.exists_node (hv.bounded n hmet.1)
    obtain ⟨before, later, hsplit⟩ := List.append_of_mem
      (Graph.mem_closed_of_seen hv (Graph.walk_stack hwhole.bounded) hmet.1)
    have hdecl : node.declared = true := (Graph.isDeclared_of_node hnode).symm.trans hmet.2
    exact ⟨_, (ht.spelled before n later hsplit node hnode).block hdecl⟩
  obtain ⟨blocks, hok⟩ := Draft.exists_blocks hblocks
  rw [render_apply, Draft.render, hok]
  exact ⟨_, _, rfl⟩

/-! ## The order of declarations -/

/-- Texts in two rows, with the same between the rows as inside them. -/
theorem intercalate_append (separator : String) {bs : List String} (hbs : bs ≠ []) :
    ∀ {as : List String}, as ≠ [] → separator.intercalate (as ++ bs) =
      separator.intercalate as ++ separator ++ separator.intercalate bs
  | [a], _ => by
    obtain ⟨b, rest, rfl⟩ := List.exists_cons_of_ne_nil hbs
    rw [List.singleton_append, String.intercalate_cons_cons, String.intercalate_singleton]
  | a :: c :: as, _ => by
    have hrest := intercalate_append separator hbs (List.cons_ne_nil c as)
    rw [List.cons_append] at hrest
    rw [List.cons_append, List.cons_append, String.intercalate_cons_cons, hrest,
      String.intercalate_cons_cons]
    simp only [String.append_assoc]

/-- **What a compilation has written**, told by the walk from its roots. -/
structure Emitted {σ : Type} (r : Registry σ) (roots : List NodeId) (text : String) : Prop where
  /-- The declarations met are the declared nodes in preorder. -/
  preorder : r.draft.emission.toList = (r.graph.preorder roots).filter r.graph.isDeclared
  nodup : r.draft.emission.toList.Nodup
  mem_iff : ∀ n, n ∈ r.draft.emission.toList ↔ r.graph.Reachable roots n ∧ r.graph.isDeclared n = true
  /-- The first of each name is written, under a comment if there is one. -/
  written : ∃ picked blocks, r.graph.Firsts r.draft.emission.toList picked ∧
    List.Forall₂ (fun n block => (r.draft.page n).block = some block) picked blocks ∧
    text = "\n\n".intercalate
      ((if r.settings.comment.isVacant then [] else [Layout.headerComment r.commandLine]) ++ blocks)

/-- **Declarations come in preorder.** In a compilation that succeeds, the declarations met are the
declared nodes of the preorder from the roots: each of those that can be reached, once, and no other.
What is written is the first of each name in that order. -/
theorem parse_emitted {σ : Type} [Source σ] {r₀ r : Registry σ} {text : String} (hf : r₀.Fresh)
    (h : Registry.parse r₀ = .ok text r) :
    ∃ ids r₁, Registry.buildRoots r₀.pending r₀ = .ok ids r₁ ∧ r.graph = r₁.graph ∧
      Emitted r ids text := by
  obtain ⟨ids, r₁, hbuild, hbuilt, hgraph, -, hrun, hrender⟩ := Registry.parse_ok hf h
  have hwhole : r.graph.Whole := hgraph ▸ hbuilt.whole
  have hheld : ∀ n ∈ ids, n < r.graph.size := hgraph ▸ hbuilt.held
  have ht := Graph.guardedEach_tracks hwhole hheld r.settings.indent false
  rw [hrun] at ht
  have hnodup : r.draft.emission.toList.Nodup := by
    rw [ht.emission]
    exact (Graph.preorder_nodup hwhole.bounded).filter _
  obtain ⟨blocks, hblocks, htext⟩ := Draft.render_ok hrender
  refine ⟨ids, r₁, hbuild, hgraph, ht.emission, hnodup, ?_,
    ⟨r.draft.kept r.graph, blocks, r.draft.kept_firsts hnodup, hblocks, htext⟩⟩
  intro n
  rw [ht.emission, List.mem_filter]
  exact and_congr_left fun _ => Graph.mem_preorder_iff hwhole.bounded hheld n

/-- A declaration that refers to itself and holds another one of the same name. -/
def namesake : Registry Catalog := .queued {} ⟨[]⟩ "" [
  .obj [("id", .str "n"), ("title", .str "N"), ("properties", .obj [
    ("next", .obj [("$ref", .str "n")]),
    ("word", .obj [("title", .str "N"), ("type", .str "string")])])]]

theorem parse_emitted_namesake :
    ∃ r, namesake.Fresh ∧
      Registry.parse namesake = .ok "interface N \x7b\n  next?: N;\n  word?: N;\n\x7d" r ∧
      ∃ ids r₁, Registry.buildRoots namesake.pending namesake = .ok ids r₁ ∧ r.graph = r₁.graph ∧
        Emitted r ids "interface N \x7b\n  next?: N;\n  word?: N;\n\x7d" := by
  have hfresh : namesake.Fresh := Registry.fresh_queued _ _ _ _
  obtain ⟨r, hparse⟩ : ∃ r, Registry.parse namesake =
      .ok "interface N \x7b\n  next?: N;\n  word?: N;\n\x7d" r := ⟨_, rfl⟩
  exact ⟨r, hfresh, hparse, parse_emitted hfresh hparse⟩

end TypeScribe
