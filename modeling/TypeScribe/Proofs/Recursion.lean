import TypeScribe.Proofs.Course

/-!
# Recursion

How conversion deals with schemas that lead back into themselves.

* **Plain recursion.** Where no arrow leads back to an open node that is not declared, the pages hold
  the texts of the plain recursion (`Tracks.plain`). The recursion ends although the graph has cycles:
  an undeclared node is closed after every undeclared node it reads.
* **More than one way in.** An arrow back leads to a start or to a node with several ways in
  (`Closing.shared`), so that it is enough to declare those.
* **References back.** Conversion notices an arrow back to an undeclared node if it is a reference, and
  then it fails. A declared node on the cycle is no protection if the walk enters the cycle elsewhere.
-/

namespace TypeScribe

/-! ## Plain recursion -/

section

variable {g : Graph} {setting : Json} {indent : Indent} {guarded : Bool} {starts : List NodeId}
  {w : Walk} {d : Draft} {n : NodeId} {node : Node}

/-- One level more spells the node itself, and what it holds with one level less. -/
theorem Graph.inlineWithin_succ (depth : Nat) (h : g.node? n = some node) :
    g.inlineWithin indent (depth + 1) n =
      Spelling.inline (g.inlineWithin indent depth) g indent node := by
  rw [Graph.inlineWithin, h]

/-- A declared node is spelled by its name at any depth. -/
theorem Graph.inlineWithin_declared {depth : Nat} (h : g.isDeclared n = true) (hdepth : 1 ≤ depth) :
    g.inlineWithin indent depth n = g.nameOf n := by
  obtain ⟨node, hnode, hdecl⟩ := Graph.node_of_isDeclared h
  obtain ⟨k, rfl⟩ : ∃ k, depth = k + 1 := ⟨depth - 1, by omega⟩
  rw [Graph.inlineWithin_succ k hnode, Graph.nameOf_of_node hnode, Spelling.inline, if_pos hdecl]

/-- The text of one node stands inside of the text of another: it is not declared, and an arrow leads to it. -/
def Graph.Inlines (g : Graph) (m n : NodeId) : Prop := g.Leads m n ∧ g.isDeclared n = false

/-- Every arrow that leads back from inside of the text of a node leads to a declared node. -/
def Walk.BackNamedFrom (w : Walk) (g : Graph) (n : NodeId) : Prop :=
  ∀ a ∈ w.back, Relation.ReflTransGen g.Inlines n a.source → g.isDeclared a.target = true

theorem Walk.BackNamed.fromNode (h : w.BackNamed g) (n : NodeId) : w.BackNamedFrom g n :=
  fun a ha _ => h a ha

/-- What holds of the arrows back inside a node holds inside what it inlines. -/
theorem Walk.BackNamedFrom.inner {m : NodeId} (h : w.BackNamedFrom g n) (hm : g.Inlines n m) :
    w.BackNamedFrom g m :=
  fun a ha hleads => h a ha (.head hm hleads)

/-- **What a closed node reads** of the nodes its arrows lead to, by plain recursion. The induction is
on how many nodes were closed before: an undeclared node that is read is one of them. -/
theorem Tracks.known_eq_inlineWithin (ht : Tracks g setting guarded d w) (hv : w.Valid g starts)
    (hindent : Indent.orBlank setting = indent) :
    ∀ {depth : Nat} {l₁ l₂ : List NodeId} {n : NodeId}, w.closed = l₁ ++ n :: l₂ →
      w.BackNamedFrom g n → l₁.length < depth → ∀ a ∈ g.arrows n,
        d.known g l₁ a.target = g.inlineWithin indent depth a.target := by
  intro depth
  induction depth with
  | zero =>
    intro l₁ l₂ n _ _ hdepth
    cases hdepth
  | succ depth ih =>
    intro l₁ l₂ n hsplit hback hdepth a ha
    cases hdecl : g.isDeclared a.target with
    | true =>
      rw [Draft.known, if_pos hdecl, Graph.inlineWithin_declared hdecl (Nat.le_add_left 1 depth)]
    | false =>
      have hmem : a.target ∈ l₁ := by
        refine (hv.order l₁ n l₂ hsplit a ha).resolve_left fun hmem => ?_
        obtain rfl := Graph.source_of_mem_arrows ha
        rw [hback a hmem .refl] at hdecl
        cases hdecl
      obtain ⟨node, k₁, k₂, hsplit', hfewer, hnode, -, hknown⟩ := ht.known_closed hv hsplit hdecl hmem
      rw [hknown, hindent, Graph.inlineWithin_succ depth hnode]
      exact Spelling.inline_congr hnode (ih hsplit' (hback.inner ⟨⟨a, ha, rfl⟩, hdecl⟩) (by omega))

/-- There are no more closed nodes than nodes. -/
theorem Walk.Valid.closed_length_le (hv : w.Valid g starts) : w.closed.length ≤ g.size := by
  have hseen : w.seen.toFinset ⊆ Finset.range g.size := by
    intro n hn
    exact Finset.mem_range.mpr (hv.bounded n (List.mem_toFinset.mp hn))
  calc
    w.closed.length ≤ (w.path ++ w.closed).length := by simp
    _ = w.seen.length := hv.parted.length_eq.symm
    _ = w.seen.toFinset.card := (List.toFinset_card_of_nodup hv.nodup).symm
    _ ≤ (Finset.range g.size).card := Finset.card_le_card hseen
    _ = g.size := Finset.card_range _

/-- **The page of a node as the plain recursion has it.** The recursion is the one that its equation
says, not cut short. -/
structure Plain (g : Graph) (indent : Indent) (page : Page) (n : NodeId) (node : Node) : Prop where
  inline : page.inline = some (g.inlineText indent n)
  block : node.declared = true → page.block = some (Spelling.block (g.inlineText indent) g indent node)
  equation : g.inlineText indent n = Spelling.inline (g.inlineText indent) g indent node

/-- **The page of a closed node** holds the texts of the plain recursion, if no arrow from inside of its text leads
back to an undeclared node. -/
theorem Tracks.plain_of_backNamedFrom (ht : Tracks g setting guarded d w) (hv : w.Valid g starts)
    (hback : w.BackNamedFrom g n) (hindent : Indent.orBlank setting = indent) (hn : n ∈ w.closed)
    (hnode : g.node? n = some node) : Plain g indent (d.page n) n node := by
  obtain ⟨l₁, l₂, hsplit⟩ := List.append_of_mem hn
  have hlength : l₁.length < g.size := by
    have hclosed := hv.closed_length_le
    rw [hsplit, List.length_append, List.length_cons] at hclosed
    omega
  have hreads := ht.known_eq_inlineWithin hv hindent hsplit hback hlength
  have hreads' := ht.known_eq_inlineWithin hv hindent hsplit hback (Nat.lt_succ_of_lt hlength)
  have hpage := ht.spelled l₁ n l₂ hsplit node hnode
  have hequation : g.inlineText indent n = Spelling.inline (g.inlineText indent) g indent node := by
    rw [Graph.inlineText, Graph.inlineWithin_succ _ hnode]
    refine Spelling.inline_congr hnode fun a ha => ?_
    exact (hreads a ha).symm.trans (hreads' a ha)
  refine ⟨?_, fun hdecl => ?_, hequation⟩
  · cases hdecl : node.declared with
    | true =>
      have hdecl' : g.isDeclared n = true := (Graph.isDeclared_of_node hnode).trans hdecl
      rw [ht.named n ((hv.mem_seen_iff n).mpr (Or.inr hn)) hdecl', hequation, Spelling.inline,
        if_pos hdecl, Graph.nameOf_of_node hnode]
    | false =>
      rw [hpage.inline hdecl, hindent, hequation]
      exact congrArg some (Spelling.inline_congr hnode hreads')
  · rw [hpage.block hdecl, hindent]
    exact congrArg some (Spelling.block_congr hnode hreads')

/-- **Pages of closed nodes** hold the texts of the plain recursion, if no arrow leads back to an
undeclared node. -/
theorem Tracks.plain (ht : Tracks g setting guarded d w) (hv : w.Valid g starts)
    (hback : w.BackNamed g) (hindent : Indent.orBlank setting = indent) (hn : n ∈ w.closed)
    (hnode : g.node? n = some node) : Plain g indent (d.page n) n node :=
  ht.plain_of_backNamedFrom hv (hback.fromNode n) hindent hn hnode

end

/-! ## More than one way in -/

namespace Graph

variable {g : Graph} {starts : List NodeId} {n : NodeId} {a b : Arrow}

/-- The arrows of all nodes. -/
def allArrows (g : Graph) : List Arrow := (List.range g.size).flatMap g.arrows

/-- **More than one way in**: a reference leads to the node, or more than one arrow does. -/
def Shared (g : Graph) (n : NodeId) : Prop :=
  (∃ a ∈ g.allArrows, a.byReference = true ∧ a.target = n) ∨
    2 ≤ g.allArrows.countP fun a => decide (a.target = n)

instance (g : Graph) (n : NodeId) : Decidable (g.Shared n) := inferInstanceAs (Decidable (_ ∨ _))

theorem mem_allArrows (h : a ∈ g.arrows n) : a ∈ g.allArrows := by
  refine List.mem_flatMap.mpr ⟨n, ?_, h⟩
  cases hnode : g.node? n with
  | none => simp [arrows, hnode] at h
  | some node => exact List.mem_range.mpr (lt_size_of_node hnode)

/-- Two arrows from different nodes make a node shared. -/
theorem shared_of_ne (ha : a ∈ g.allArrows) (hb : b ∈ g.allArrows) (hne : b.source ≠ a.source)
    (htarget : b.target = a.target) : g.Shared a.target := by
  refine Or.inr ?_
  rw [List.countP_eq_length_filter]
  have hmem : ∀ c ∈ g.allArrows, c.target = a.target →
      c ∈ g.allArrows.filter fun c => decide (c.target = a.target) := by
    intro c hc hct
    exact List.mem_filter.mpr ⟨hc, by simpa using hct⟩
  have ha' := hmem a ha rfl
  have hb' := hmem b hb htarget
  match hl : g.allArrows.filter fun c => decide (c.target = a.target) with
  | [] =>
    rw [hl] at ha'
    cases ha'
  | [c] =>
    rw [hl, List.mem_singleton] at ha' hb'
    exact absurd (congrArg Arrow.source (hb'.trans ha'.symm)) hne
  | _ :: _ :: _ =>
    rw [hl]
    simp

/-- A shared node is the target of an arrow. -/
theorem exists_arrow_of_shared (h : g.Shared n) : ∃ a ∈ g.allArrows, a.target = n := by
  rcases h with ⟨a, ha, -, htarget⟩ | hcount
  · exact ⟨a, ha, htarget⟩
  · obtain ⟨a, ha, htarget⟩ := List.countP_pos_iff.mp (Nat.lt_of_lt_of_le Nat.two_pos hcount)
    exact ⟨a, ha, by simpa using htarget⟩

end Graph

/-- **An arrow back leads to a start or to a shared node.** -/
theorem Closing.shared {g : Graph} {starts : List NodeId} {a : Arrow} (h : Closing g starts a) :
    a.target ∈ starts ∨ g.Shared a.target := by
  rcases h.entry with hstart | ⟨b, hb, htarget, hne⟩
  · exact Or.inl hstart
  · exact Or.inr (Graph.shared_of_ne (Graph.mem_allArrows h.arrow) (Graph.mem_allArrows hb) hne htarget)

/-! ## Calls in any order -/

section

variable {σ : Type} [Source σ] {r₀ r : Registry σ} {roots : List Json} {ids : List NodeId}

/-- What becomes of calls on a graph that has just been built. -/
theorem Registry.convertAll_tracks (hf : r₀.Fresh) (hbuild : buildRoots roots r₀ = .ok ids r)
    {calls : List NodeId} (hcalls : ∀ n ∈ calls, n < r.graph.size) :
    (∃ r', convertAll calls r = .ok () r' ∧ r'.graph = r.graph ∧
      Tracks r.graph r.settings.indent false r'.draft (r.graph.walk calls)) ∨
    (∃ f r', convertAll calls r = .error f r' ∧
      Fault r.graph r.settings.indent false (r.graph.walk calls) f) := by
  have hbuilt := buildRoots_built hf hbuild
  have hrun := convertAll_redrafted calls r
  have htracks := Graph.guardedEach_tracks hbuilt.whole hcalls r.settings.indent false
  rw [hbuilt.draft, hf.draft] at hrun
  cases hres : r.graph.guardedEach r.settings.indent false calls {} with
  | ok u d =>
    rw [hres] at hrun htracks
    obtain ⟨r', hconvert, hdone⟩ := hrun
    exact Or.inl ⟨r', hconvert, hdone.graph, hdone.draft ▸ htracks⟩
  | error f d =>
    rw [hres] at hrun htracks
    obtain ⟨r', hconvert, -⟩ := hrun
    exact Or.inr ⟨f, r', hconvert, htracks⟩

/-- **Conversion agrees with the plain recursion.** If every node with more than one way in is
declared, calls on declared nodes succeed in whatever order they come, and each node that they reach
has the texts of the plain recursion. -/
theorem convertAll_plain {indent : String} (hf : r₀.Fresh)
    (hbuild : Registry.buildRoots roots r₀ = .ok ids r) (hindent : r.settings.indent = .str indent)
    (hshared : ∀ n, r.graph.Shared n → r.graph.isDeclared n = true) (calls : List NodeId)
    (hcalls : ∀ n ∈ calls, r.graph.isDeclared n = true) :
    ∃ r', Registry.convertAll calls r = .ok () r' ∧ r'.graph = r.graph ∧
      (∀ n, (r'.draft.page n).started = true ↔ r.graph.Reachable calls n) ∧
      ∀ n node, (r'.draft.page n).started = true → r.graph.node? n = some node →
        Plain r.graph (.text indent) (r'.draft.page n) n node := by
  have hbounded := (Registry.buildRoots_built hf hbuild).whole.bounded
  have hheld : ∀ n ∈ calls, n < r.graph.size := by
    intro n hn
    obtain ⟨node, hnode, -⟩ := Graph.node_of_isDeclared (hcalls n hn)
    exact Graph.lt_size_of_node hnode
  have hv : (r.graph.walk calls).Valid r.graph calls := Graph.walk_valid hbounded
  have hback : (r.graph.walk calls).BackNamed r.graph := by
    intro a ha
    rcases (hv.back a ha).2.shared with hstart | hs
    · exact hcalls _ hstart
    · exact hshared _ hs
  rcases Registry.convertAll_tracks hf hbuild hheld with
    ⟨r', hconvert, hgraph, ht⟩ | ⟨f, r', -, hfault⟩
  · refine ⟨r', hconvert, hgraph, ?_, ?_⟩
    · intro n
      exact (ht.started n).trans (Graph.mem_preorder_iff hbounded hheld n)
    · intro n node hstarted hnode
      have hclosed := Graph.mem_closed_of_seen hv (Graph.walk_stack hbounded) ((ht.started n).mp hstarted)
      refine ht.plain hv hback ?_ hclosed hnode
      rw [hindent]
      rfl
  · cases hfault with
    | back hmem hnoticed _ =>
      have hdecl := hback _ hmem
      rw [hnoticed.1] at hdecl
      cases hdecl
    | indent hset _ _ _ _ =>
      rw [hindent] at hset
      cases hset

/-- Two documents that refer to each other, and an alternative beside the second one. -/
def mutualDocuments : Entries Json :=
  [("a.json", .obj [("id", .str "a"), ("title", .str "A"), ("properties", .obj [
      ("b", .obj [("$ref", .str "b.json")])])]),
    ("b.json", .obj [("id", .str "b"), ("title", .str "B"), ("properties", .obj [
        ("all", .obj [("type", .str "array"), ("items", .obj [("$ref", .str "a.json")])])]),
      ("anyOf", .arr [.obj [("$ref", .str "a.json")], .obj [("type", .str "string")]])])]

theorem convertAll_plain_mutual :
    ∃ r : Registry Catalog, Registry.buildRoots (mutualDocuments.map Prod.snd)
        (.queued {} ⟨mutualDocuments⟩ "" []) = .ok [0, 2] r ∧
      r.settings.indent = .str "  " ∧ (∀ n, r.graph.Shared n → r.graph.isDeclared n = true) ∧
      (∀ n ∈ [2, 0], r.graph.isDeclared n = true) ∧
      ∃ r', Registry.convertAll [2, 0] r = .ok () r' ∧
        (r'.draft.page 0).block = some "interface A \x7b\n  b?: B;\n\x7d" ∧
        (r'.draft.page 2).block =
          some "interface _B \x7b\n  all?: A[];\n\x7d\n\ntype B = _B & (A | string);" ∧
        r'.graph = r.graph ∧ (∀ n, (r'.draft.page n).started = true ↔ r.graph.Reachable [2, 0] n) ∧
        ∀ n node, (r'.draft.page n).started = true → r.graph.node? n = some node →
          Plain r.graph (.text "  ") (r'.draft.page n) n node := by
  have hfresh := Registry.fresh_queued {} (⟨mutualDocuments⟩ : Catalog) "" []
  obtain ⟨ids, r, hbuild, htest⟩ := exists_of_succeeds
    (Registry.buildRoots (mutualDocuments.map Prod.snd) (.queued {} ⟨mutualDocuments⟩ "" []))
    (fun ids (r : Registry Catalog) => decide (ids = [0, 2]) &&
      (r.graph.allArrows.all fun a => !decide (r.graph.Shared a.target) || r.graph.isDeclared a.target) &&
      (r.graph.isDeclared 2 && r.graph.isDeclared 0) &&
      succeeds (fun _ (r' : Registry Catalog) => decide (
        (r'.draft.page 0).block = some "interface A \x7b\n  b?: B;\n\x7d" ∧
        (r'.draft.page 2).block =
          some "interface _B \x7b\n  all?: A[];\n\x7d\n\ntype B = _B & (A | string);"))
        (Registry.convertAll [2, 0] r)) (by decide +kernel)
  simp only [Bool.and_eq_true, decide_eq_true_eq] at htest
  obtain ⟨⟨⟨rfl, harrows⟩, hcalls⟩, hblocks⟩ := htest
  have hindent : r.settings.indent = .str "  " :=
    congrArg Settings.indent (Registry.buildRoots_built hfresh hbuild).settings
  have hshared : ∀ n, r.graph.Shared n → r.graph.isDeclared n = true := by
    intro n hn
    obtain ⟨a, ha, rfl⟩ := Graph.exists_arrow_of_shared hn
    simpa [hn] using List.all_eq_true.mp harrows a ha
  have hcalls : ∀ n ∈ [2, 0], r.graph.isDeclared n = true := by simpa using hcalls
  obtain ⟨r', hconvert, hplain⟩ := convertAll_plain hfresh hbuild hindent hshared [2, 0] hcalls
  rw [hconvert] at hblocks
  obtain ⟨hfirst, hsecond⟩ := of_decide_eq_true hblocks
  exact ⟨r, hbuild, hindent, hshared, hcalls, r', hconvert, hfirst, hsecond, hplain⟩

/-! ## References back -/

/-- **References back**: the walk follows a reference to an open node that is not declared. -/
def Graph.ReferenceBack (g : Graph) (starts : List NodeId) (a : Arrow) : Prop :=
  a ∈ (g.walk starts).back ∧ a.byReference = true ∧ g.isDeclared a.target = false

/-- **When conversion asks for a name.** It does so only where the walk from the calls follows a
reference back to an open node that is not declared, and it names that node; there is a cycle through
it. Where the indent can be used, it asks whenever there is such a reference, and succeeds otherwise. -/
theorem convertAll_unnamed_iff (hf : r₀.Fresh) (hbuild : Registry.buildRoots roots r₀ = .ok ids r)
    (calls : List NodeId) (hcalls : ∀ n ∈ calls, n < r.graph.size) :
    (∀ source path r', Registry.convertAll calls r = .error (.unnamed source path) r' →
      ∃ a node, r.graph.ReferenceBack calls a ∧ r.graph.node? a.target = some node ∧
        node.source = source ∧ node.path = path) ∧
    (∀ a, r.graph.ReferenceBack calls a → r.graph.Reachable calls a.target ∧
      a ∈ r.graph.arrows a.source ∧ Relation.ReflTransGen r.graph.Leads a.target a.source) ∧
    (∀ indent, Indent.ofJson r.settings.indent = .ok indent →
      ((∃ source path r', Registry.convertAll calls r = .error (.unnamed source path) r') ↔
        ∃ a, r.graph.ReferenceBack calls a) ∧
      ((∃ r', Registry.convertAll calls r = .ok () r') ↔
        ¬ ∃ a, r.graph.ReferenceBack calls a)) := by
  have hbounded := (Registry.buildRoots_built hf hbuild).whole.bounded
  have hv : (r.graph.walk calls).Valid r.graph calls := Graph.walk_valid hbounded
  have hcycle : ∀ a, r.graph.ReferenceBack calls a → r.graph.Reachable calls a.target ∧
      a ∈ r.graph.arrows a.source ∧ Relation.ReflTransGen r.graph.Leads a.target a.source := by
    rintro a ⟨hmem, -, -⟩
    obtain ⟨hseen, hclosing⟩ := hv.back a hmem
    exact ⟨hv.reached _ hseen, hclosing.arrow, hclosing.cycle⟩
  rcases Registry.convertAll_tracks hf hbuild hcalls with
    ⟨r₁, hconvert, -, ht⟩ | ⟨f, r₁, hconvert, hfault⟩
  · have hnone : ¬ ∃ a, r.graph.ReferenceBack calls a := by
      rintro ⟨a, hmem, href, hdecl⟩
      exact ht.unnoticed a hmem ⟨hdecl, Or.inl href⟩
    rw [hconvert]
    refine ⟨by simp, hcycle, fun _ _ => ⟨?_, ?_⟩⟩
    · simpa using hnone
    · simpa using hnone
  · rw [hconvert]
    cases hfault with
    | @back a node hmem hnoticed htarget =>
      have hback : r.graph.ReferenceBack calls a := ⟨hmem, by simpa using hnoticed.2, hnoticed.1⟩
      refine ⟨?_, hcycle, fun _ _ => ⟨?_, ?_⟩⟩
      · rintro source path r' ⟨⟩
        exact ⟨a, node, hback, htarget, rfl, rfl⟩
      · exact ⟨fun _ => ⟨a, hback⟩, fun _ => ⟨_, _, _, rfl⟩⟩
      · simpa using ⟨a, hback⟩
    | indent hsetting _ _ _ _ =>
      refine ⟨by simp, hcycle, fun indent hindent => ?_⟩
      rw [hsetting] at hindent
      cases hindent

/-- An undeclared list whose items refer back to it; the items are declared. -/
def holderDocument : Json :=
  .obj [("title", .str "R"), ("type", .str "object"), ("properties", .obj [
    ("a", .obj [("id", .str "X"), ("type", .str "array"), ("items", .obj [
      ("title", .str "T"), ("type", .str "object"), ("properties", .obj [
        ("back", .obj [("$ref", .str "X")])])])])])]

/-- Its nodes are built, and conversion fails. From one undeclared node to the next, numbers fall. -/
theorem holder_unnamed :
    ∃ ids source path, ∃ r r' : Registry Catalog,
      Registry.buildRoots [holderDocument] (.queued {} ⟨[]⟩ "" []) = .ok ids r ∧
      (∀ n ∈ ids, n < r.graph.size) ∧
      Registry.convertAll ids r = .error (.unnamed source path) r' ∧
      ∀ a ∈ r.graph.allArrows, r.graph.isDeclared a.source = false →
        r.graph.isDeclared a.target = false → a.target < a.source :=
  ⟨_, _, _, _, _, rfl, by decide, rfl, by decide⟩

theorem convertAll_unnamed_holder :
    ∃ ids source path, ∃ r r' : Registry Catalog,
      Registry.buildRoots [holderDocument] (.queued {} ⟨[]⟩ "" []) = .ok ids r ∧
      (∀ n ∈ ids, n < r.graph.size) ∧
      Registry.convertAll ids r = .error (.unnamed source path) r' ∧
      ∃ a node, r.graph.ReferenceBack ids a ∧ r.graph.node? a.target = some node ∧
        node.source = source ∧ node.path = path := by
  obtain ⟨ids, source, path, r, r', hbuild, hheld, hconvert, -⟩ := holder_unnamed
  have hiff := convertAll_unnamed_iff (Registry.fresh_queued _ _ _ _) hbuild ids hheld
  exact ⟨ids, source, path, r, r', hbuild, hheld, hconvert, hiff.1 source path r' hconvert⟩

/-- One undeclared node leads to another. -/
def Graph.InlineLeads (g : Graph) (m n : NodeId) : Prop :=
  g.Leads m n ∧ g.isDeclared m = false ∧ g.isDeclared n = false

/-- **A declared node on the cycle is no protection.** Conversion asks for a name although every cycle
goes through a declared node: here the walk enters the cycle at the list. -/
theorem unnamed_on_declared_cycle :
    ∃ ids source path, ∃ r r' : Registry Catalog,
      Registry.buildRoots [holderDocument] (.queued {} ⟨[]⟩ "" []) = .ok ids r ∧
      Registry.convertAll ids r = .error (.unnamed source path) r' ∧
      ¬ ∃ n, r.graph.Reachable ids n ∧ Relation.TransGen r.graph.InlineLeads n n := by
  obtain ⟨ids, source, path, r, r', hbuild, -, hconvert, hdescends⟩ := holder_unnamed
  refine ⟨ids, source, path, r, r', hbuild, hconvert, ?_⟩
  rintro ⟨n, -, hcycle⟩
  -- from one undeclared node to the next the numbers fall, so there is no way round
  have hfall : ∀ m n, r.graph.InlineLeads m n → m > n := by
    rintro m n ⟨⟨a, ha, rfl⟩, hm, hn⟩
    obtain rfl := Graph.source_of_mem_arrows ha
    exact hdescends a (Graph.mem_allArrows ha) hm hn
  have hself : Relation.TransGen (fun m n : Nat => m > n) n n :=
    Relation.TransGen.mono hfall n n hcycle
  rw [Relation.transGen_eq_self] at hself
  exact Nat.lt_irrefl n hself

end

end TypeScribe
