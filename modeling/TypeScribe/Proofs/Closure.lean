import TypeScribe.Proofs.Wording

/-!
# The output is closed

No name is used that is not declared. A node publishes its name before its declaration is written, and
declarations are dropped by name afterwards, so both have to be seen to: the node of a name that is
used is met by the walk and declared (`Registry.Compiled.mem_emission_of_mentions`), and of the nodes of
one name the first is kept (`Graph.Firsts.exists_picked`). A private name is used next to its own
declaration only.
-/

namespace TypeScribe

/-- Whatever comes in the order, a node of its name is picked. -/
theorem Graph.Firsts.exists_picked {g : Graph} {order picked : List NodeId} (h : g.Firsts order picked) :
    ∀ (count : Nat) {l₁ l₂ : List NodeId} {n : NodeId}, l₁.length = count → order = l₁ ++ n :: l₂ →
      ∃ k ∈ picked, g.nameOf k = g.nameOf n := by
  intro count
  induction count using Nat.strongRecOn with
  | ind count ih =>
    intro l₁ l₂ n hcount hsplit
    by_cases hfirst : ∀ m ∈ l₁, g.nameOf m ≠ g.nameOf n
    · exact ⟨n, (h.mem_iff l₁ n l₂ hsplit).mpr hfirst, rfl⟩
    · obtain ⟨m, hm, hname⟩ : ∃ m ∈ l₁, g.nameOf m = g.nameOf n := by simpa using hfirst
      obtain ⟨k₁, k₂, rfl⟩ := List.append_of_mem hm
      have hfewer : k₁.length < count := by
        simp only [List.length_append, List.length_cons] at hcount
        omega
      have hsplit' : order = k₁ ++ m :: (k₂ ++ n :: l₂) := by simp [hsplit]
      obtain ⟨k, hk, hkm⟩ := ih k₁.length hfewer rfl hsplit'
      exact ⟨k, hk, hkm.trans hname⟩

section

variable {σ : Type} [Source σ] {r₀ r : Registry σ} {ids : List NodeId} {text : String}

namespace Registry.Compiled

/-- Whatever a declaration mentions is met. -/
theorem mem_emission_of_mentions (h : r₀.Compiled r ids text) {n m : NodeId}
    (hn : n ∈ r.draft.kept r.graph) (hm : r.graph.Mentions n m) : m ∈ r.draft.emission.toList := by
  obtain ⟨⟨root, hroot, hreach⟩, -⟩ :=
    (h.mem_emission n).mp ((Draft.keep_sublist r.graph _ _).subset hn)
  exact (h.mem_emission m).mpr ⟨⟨root, hroot, hreach.trans hm.leads⟩, hm.declared⟩

/-- Of the nodes of one name, one is kept. -/
theorem exists_kept (h : r₀.Compiled r ids text) {n : NodeId} (hn : n ∈ r.draft.emission.toList) :
    ∃ k ∈ r.draft.kept r.graph, r.graph.nameOf k = r.graph.nameOf n := by
  obtain ⟨l₁, l₂, hsplit⟩ := List.append_of_mem hn
  exact (r.draft.kept_firsts h.emission_nodup).exists_picked l₁.length rfl hsplit

end Registry.Compiled

/-- The names that the declarations of a node use are the names of nodes it mentions, or they are
declared beside. -/
theorem Declares.uses {named : String → Prop} {name : String} {ds : List Declaration}
    (h : Declares named name ds) {d : Declaration} (hd : d ∈ ds) {x : String} (hx : x ∈ d.names) :
    named x ∨ ∃ properties, Declaration.interface x properties ∈ ds := by
  cases h with
  | plain _ huses =>
    obtain rfl := List.mem_singleton.mp hd
    exact Or.inl (huses x hx)
  | @split properties augmentation hshape huses =>
    rcases List.mem_cons.mp hd with rfl | hd
    · exact Or.inl (hshape x hx)
    · obtain rfl := List.mem_singleton.mp hd
      rcases List.mem_cons.mp hx with rfl | hx
      · exact Or.inr ⟨properties, List.mem_cons_self ..⟩
      · exact Or.inl (huses x hx)

/-- **The output is closed.** For every declaration that is kept, a declaration is kept of the name of
each node that it mentions. What is written are the declarations of the nodes that are kept, and a
name that one of them uses is the name of a node that is kept, or the name of an interface that stands
beside it. -/
theorem parse_closed (hf : r₀.Fresh) (h : Registry.parse r₀ = .ok text r) :
    (∀ n ∈ r.draft.kept r.graph, ∀ m, r.graph.Mentions n m →
      ∃ k ∈ r.draft.kept r.graph, r.graph.nameOf k = r.graph.nameOf m) ∧
    ∃ blocks, Written r text blocks ∧ ∀ ds ∈ blocks, ∀ d ∈ ds, ∀ x ∈ d.names,
      (∃ k ∈ r.draft.kept r.graph, r.graph.nameOf k = x) ∨
        ∃ properties, Declaration.interface x properties ∈ ds := by
  obtain ⟨ids, hcompiled⟩ := Registry.parse_compiled hf h
  have hmentions : ∀ n ∈ r.draft.kept r.graph, ∀ m, r.graph.Mentions n m →
      ∃ k ∈ r.draft.kept r.graph, r.graph.nameOf k = r.graph.nameOf m :=
    fun n hn m hm => hcompiled.exists_kept (hcompiled.mem_emission_of_mentions hn hm)
  obtain ⟨blocks, hwritten⟩ := hcompiled.written
  refine ⟨hmentions, blocks, hwritten, ?_⟩
  intro ds hds d hd x hx
  obtain ⟨n, hn, hdeclares⟩ := hwritten.exists_node hds
  rcases hdeclares.uses hd hx with ⟨m, hm, rfl⟩ | hbeside
  · exact Or.inl (hmentions n hn m hm)
  · exact Or.inr hbeside

/-- A declaration in two parts that mentions itself, another one of its own name, and a third one as
the item of a list. -/
def extension : Registry Catalog := .queued {} ⟨[]⟩ "" [
  .obj [("id", .str "n"), ("title", .str "N"), ("properties", .obj [
      ("next", .obj [("$ref", .str "n")]),
      ("word", .obj [("title", .str "N"), ("type", .str "string")])]),
    ("allOf", .arr [.obj [("items", .obj [("title", .str "B"), ("properties", .obj [])])]])]]

theorem parse_closed_extension :
    ∃ text r, extension.Fresh ∧ Registry.parse extension = .ok text r ∧
      text = "interface _N \x7b\n  next?: N;\n  word?: N;\n\x7d\n\ntype N = _N & (B[]);\n\n" ++
        "interface B \x7b\n\x7d" ∧ r.draft.kept r.graph = [0, 4] ∧ r.graph.Mentions 0 2 ∧
      (∀ n ∈ r.draft.kept r.graph, ∀ m, r.graph.Mentions n m →
        ∃ k ∈ r.draft.kept r.graph, r.graph.nameOf k = r.graph.nameOf m) ∧
      ∃ blocks, Written r text blocks ∧ ∀ ds ∈ blocks, ∀ d ∈ ds, ∀ x ∈ d.names,
        (∃ k ∈ r.draft.kept r.graph, r.graph.nameOf k = x) ∨
          ∃ properties, Declaration.interface x properties ∈ ds := by
  have hfresh : extension.Fresh := Registry.fresh_queued _ _ _ _
  obtain ⟨text, r, hparse, htest⟩ := exists_of_succeeds (Registry.parse extension)
    (fun text (r : Registry Catalog) => decide (
      text = "interface _N \x7b\n  next?: N;\n  word?: N;\n\x7d\n\ntype N = _N & (B[]);\n\n" ++
        "interface B \x7b\n\x7d" ∧ r.draft.kept r.graph = [0, 4] ∧
      ⟨0, 2, false⟩ ∈ r.graph.arrows 0 ∧ r.graph.isDeclared 2 = true)) (by decide +kernel)
  obtain ⟨htext, hkept, harrow, hdecl⟩ := of_decide_eq_true htest
  exact ⟨text, r, hfresh, hparse, htext, hkept, .direct ⟨_, harrow, rfl⟩ hdecl,
    parse_closed hfresh hparse⟩

end

end TypeScribe
