import TypeScribe.Proofs.Acceptance
import TypeScribe.Proofs.Appending
import TypeScribe.Proofs.Titles

/-!
# Roots

A root without a name fails a compilation, and a root that is built under a name of its own is declared. But
a root whose id stands for a node already is not built: it is that node, which was built inside an earlier
root, and whose name may be the name of a property. Such a node has a name and need not be declared. A root
is **overtaken** if it is such a node (`Registry.Overtaken`): nothing of it is written, and the compilation
succeeds all the same. Every other root is declared by name (`parse_declares_roots`).
-/

namespace TypeScribe

/-- **Unassuming fragments** have no title, and take no name from a property: they are neither objects nor
composed. -/
structure Json.Unassuming (v : Json) : Prop where
  untitled : (v.field? "title").bind Json.filledText? = none
  lowly : ∀ fields kind, v = .obj fields → Kind.ofFields? fields = some kind → kind.takesName fields = false

/-- **A node with a name is not declared** just if its fragment is unassuming. -/
theorem Label.Made.undeclared_iff {label : Label} (h : label.Made) (hname : label.name ≠ "") :
    label.declared = false ↔ label.source.Unassuming := by
  obtain ⟨fields, kind, name, path, hkind, rfl⟩ := h
  cases htitle : (Schema.factsOf fields).title with
  | none =>
    rw [name_ofFields_none htitle] at hname
    have hdeclared : (ofFields fields kind name path).declared = kind.takesName fields := by
      simp [ofFields, htitle, Naming.typeName?]
      exact fun _ => hname
    rw [hdeclared]
    constructor
    · intro hlowly
      refine ⟨htitle, ?_⟩
      rintro _ kind' ⟨⟩ hkind'
      obtain rfl := Option.some.inj (hkind.symm.trans hkind')
      exact hlowly
    · intro hsource
      exact hsource.lowly fields kind rfl hkind
  | some title =>
    rw [name_ofFields_some htitle] at hname
    constructor
    · intro hdeclared
      simp [ofFields, htitle, Naming.typeName?, hname] at hdeclared
    · intro hsource
      have huntitled : (Schema.factsOf fields).title = none := hsource.untitled
      rw [htitle] at huntitled
      cases huntitled

theorem Schema.id_ofJson (v : Json) :
    (ofJson v).facts.id = (v.field? "id").bind Json.filledText? := by
  cases v with
  | obj fields =>
    change (assemble fields _).facts.id = _
    rw [assemble]
    split <;> rfl
  | null | bool | int | real | str | arr => rfl

namespace Registry

variable {σ : Type} [Source σ] {r r' r₀ : Registry σ} {ids : List NodeId} {i : Nat} {n : NodeId}
  {text : String}

/-- Every root gives one node. -/
theorem length_buildRoots (roots : List Json) : ∀ {r r' : Registry σ} {ids : List NodeId},
    buildRoots roots r = .ok ids r' → ids.length = roots.length := by
  induction roots with
  | nil =>
    intro r r' ids h
    cases h
    rfl
  | cons schema rest ih =>
    intro r r' ids h
    obtain ⟨id, w, node, more, -, -, -, hmore, rfl⟩ := buildRoots_cons h
    rw [List.length_cons, List.length_cons, ih hmore]

/-- **The turn of a root**: the roots before it have been built, it is built and has a name, and its label
stays. -/
theorem buildRoots_turn {roots : List Json} (h : buildRoots roots r = .ok ids r')
    (hn : ids[i]? = some n) :
    ∃ root before r₁ w node, roots[i]? = some root ∧ buildRoots (roots.take i) r = .ok before r₁ ∧
      Build.root r₁.settings root none "#" [] r₁.workshop = .ok n w ∧ w.graph.node? n = some node ∧
      node.name ≠ "" ∧ w.graph.labels <+: r'.graph.labels := by
  have hlt : i < roots.length := by
    rw [← length_buildRoots roots h]
    exact (List.getElem?_eq_some_iff.mp hn).1
  have hsplit : roots = roots.take i ++ roots[i] :: roots.drop (i + 1) := by simp
  have hall := h
  rw [hsplit] at hall
  obtain ⟨before, after, q, r₁, hbefore, hmatch, hafter, rfl⟩ :=
    buildRoots_append _ _ (⟨rfl, rfl, rfl⟩ : r.Matches r) hall
  obtain ⟨id, w, node, more, hroot, hnode, hname, hmore, rfl⟩ := buildRoots_cons hafter
  have hlength : before.length = i := by
    rw [length_buildRoots _ hbefore, List.length_take, Nat.min_eq_left (Nat.le_of_lt hlt)]
  obtain rfl : id = n := by
    rw [List.getElem?_append_right (Nat.le_of_eq hlength), hlength, Nat.sub_self] at hn
    exact Option.some.inj hn
  have hsame := hmatch.workshop.root q.settings roots[i] none "#" []
  rw [hroot] at hsame
  cases hturn : Build.root q.settings roots[i] none "#" [] r₁.workshop with
  | error failure v =>
    rw [hturn] at hsame
    cases hsame
  | ok id' v =>
    rw [hturn] at hsame
    cases hsame with
    | ok states =>
      refine ⟨roots[i], before, r₁, v, node, List.getElem?_eq_getElem hlt, hbefore,
        hmatch.settings ▸ hturn, states.graph ▸ hnode, hname, ?_⟩
      rw [← states.graph]
      exact buildRoots_keeps (Graph.labels_invariant w.graph.labels) _ (by exact List.prefix_refl _) hmore

/-- **Overtaken roots**: when the turn of a root comes, its id stands for a node already, and the fragment of
that node is unassuming. -/
inductive Overtaken (r : Registry σ) (i : Nat) (n : NodeId) : Prop where
  | intro {root : Json} {id : String} {before : List NodeId} {r₁ : Registry σ} {node : Node}
      (isRoot : r.pending[i]? = some root)
      (hasId : (root.field? "id").bind Json.filledText? = some id)
      (turn : buildRoots (r.pending.take i) r = .ok before r₁) (taken : r₁.graph.find? id = some n)
      (isNode : r₁.graph.node? n = some node) (fragment : node.source.Unassuming)

/-- **A root is not declared** just if it is overtaken. -/
theorem undeclared_iff_overtaken (hf : r₀.Fresh) (h : buildRoots r₀.pending r₀ = .ok ids r)
    (hn : ids[i]? = some n) :
    r.graph.nameOf n ≠ "" ∧ (r.graph.isDeclared n = false ↔ r₀.Overtaken i n) := by
  obtain ⟨root, before, r₁, w, node, hroot, hbefore, hturn, hnode, hname, hstays⟩ := buildRoots_turn h hn
  obtain ⟨hdeclared, hnamed⟩ := Graph.label_kept hstays hnode
  rw [hnamed, hdeclared]
  refine ⟨hname, ?_⟩
  cases hknown : (Schema.ofJson root).facts.id.bind r₁.graph.find? with
  | none =>
    have hown : node.declared = true := Build.root_declared hknown hturn hnode hname
    refine iff_of_false (by simp [hown]) ?_
    rintro ⟨hroot', hid, hbefore', htaken, -⟩
    obtain rfl := Option.some.inj (hroot.symm.trans hroot')
    obtain ⟨-, rfl⟩ := EStateM.Result.ok.inj (hbefore.symm.trans hbefore')
    rw [Schema.id_ofJson, hid, Option.bind_some, htaken] at hknown
    cases hknown
  | some m =>
    have hturn : (Schema.ofJson root).build _ none "#" [] r₁.workshop = .ok n w := hturn
    rw [Schema.build_known _ hknown] at hturn
    obtain ⟨rfl, rfl⟩ := EStateM.Result.ok.inj hturn
    have hmade : node.label.Made := made_buildRoots hf hbefore hnode
    have hundeclared := hmade.undeclared_iff hname
    rw [Schema.id_ofJson] at hknown
    obtain ⟨id, hid, htaken⟩ := Option.bind_eq_some_iff.mp hknown
    constructor
    · intro hno
      exact ⟨hroot, hid, hbefore, htaken, hnode, hundeclared.mp hno⟩
    · rintro ⟨hroot', hid', hbefore', -, hnode', hfragment⟩
      obtain ⟨-, rfl⟩ := EStateM.Result.ok.inj (hbefore.symm.trans hbefore')
      obtain rfl := Option.some.inj (hnode.symm.trans hnode')
      exact hundeclared.mpr hfragment

end Registry

section

variable {σ : Type} [Source σ] {r₀ r : Registry σ} {text : String}

/-- **No root is lost unless it is overtaken.** When a compilation succeeds, every root is a node with a name.
What is written declares that name, unless the root is overtaken, and then no declaration is of its node. -/
theorem parse_declares_roots (hf : r₀.Fresh) (h : Registry.parse r₀ = .ok text r) :
    ∃ ids r₁ blocks, Registry.buildRoots r₀.pending r₀ = .ok ids r₁ ∧ r.graph = r₁.graph ∧
      ids.length = r₀.pending.length ∧ Written r text blocks ∧
      ∀ i n, ids[i]? = some n → r.graph.nameOf n ≠ "" ∧
        (¬ r₀.Overtaken i n → ∃ ds ∈ blocks, ∃ d ∈ ds, d.declared = r.graph.nameOf n) ∧
        (r₀.Overtaken i n → n ∉ r.draft.emission.toList) := by
  obtain ⟨ids, hcompiled⟩ := Registry.parse_compiled hf h
  obtain ⟨r₁, hbuild, hgraph⟩ := hcompiled.built
  obtain ⟨blocks, hwritten⟩ := hcompiled.written
  refine ⟨ids, r₁, blocks, hbuild, hgraph, Registry.length_buildRoots _ hbuild, hwritten, ?_⟩
  intro i n hn
  obtain ⟨hname, hlost⟩ := Registry.undeclared_iff_overtaken hf hbuild hn
  rw [← hgraph] at hname hlost
  refine ⟨hname, ?_, ?_⟩
  · intro hfree
    have hdeclared : r.graph.isDeclared n = true := by
      rw [← Bool.not_eq_false, hlost]
      exact hfree
    exact hwritten.exists_declaration hcompiled (List.mem_of_getElem? hn) hdeclared
  · intro hovertaken hmet
    obtain ⟨-, hdeclared⟩ := (hcompiled.mem_emission n).mp hmet
    rw [hlost.mpr hovertaken] at hdeclared
    cases hdeclared

end

/-- A shelf whose lowest board is a text, and then the board itself as a root, under the same id and with a
title. -/
def shelfAndBoard : Registry Catalog := .queued {} ⟨[]⟩ "" [
  .obj [("title", .str "Shelf"), ("type", .str "object"), ("properties", .obj [
    ("lowest", .obj [("id", .str "board"), ("type", .str "string")])])],
  .obj [("id", .str "board"), ("title", .str "Board"), ("type", .str "object")]]

/-- Its second root is overtaken. -/
theorem shelfAndBoard_overtaken : shelfAndBoard.Overtaken 1 1 := by
  obtain ⟨before, r₁, hbefore, htest⟩ := exists_of_succeeds
    (Registry.buildRoots (shelfAndBoard.pending.take 1) shelfAndBoard)
    (fun _ (r : Registry Catalog) => decide (r.graph.find? "board" = some 1 ∧
      (r.graph.node? 1).isSome = true ∧ r.graph.isDeclared 1 = false ∧ r.graph.nameOf 1 = "Lowest"))
    (by decide +kernel)
  obtain ⟨htaken, hsome, hundeclared, hname⟩ := of_decide_eq_true htest
  obtain ⟨node, hnode⟩ := Option.isSome_iff_exists.mp hsome
  have hmade := Registry.made_buildRoots (Registry.fresh_queued _ _ _ _) hbefore hnode
  rw [Graph.isDeclared_of_node hnode] at hundeclared
  rw [Graph.nameOf_of_node hnode] at hname
  have hnamed : node.name ≠ "" := by simp [hname]
  exact ⟨rfl, rfl, hbefore, htaken, hnode, (hmade.undeclared_iff hnamed).mp hundeclared⟩

theorem parse_declares_roots_shelfAndBoard :
    ∃ text r blocks, shelfAndBoard.Fresh ∧ Registry.parse shelfAndBoard = .ok text r ∧
      text = "interface Shelf \x7b\n  lowest?: string;\n\x7d" ∧ Written r text blocks ∧
      (∃ ds ∈ blocks, ∃ d ∈ ds, d.declared = "Shelf") ∧ 1 ∉ r.draft.emission.toList := by
  have hfresh : shelfAndBoard.Fresh := Registry.fresh_queued _ _ _ _
  obtain ⟨text, r, hparse, htest⟩ := exists_of_succeeds (Registry.parse shelfAndBoard)
    (fun text (r : Registry Catalog) => decide (
      text = "interface Shelf \x7b\n  lowest?: string;\n\x7d" ∧ r.graph.nameOf 0 = "Shelf"))
    (by decide +kernel)
  obtain ⟨htext, hname⟩ := of_decide_eq_true htest
  obtain ⟨ids, r₁, blocks, hbuild, -, -, hwritten, hroots⟩ := parse_declares_roots hfresh hparse
  obtain ⟨ids', r₂, hbuild', htest⟩ := exists_of_succeeds
    (Registry.buildRoots shelfAndBoard.pending shelfAndBoard) (fun ids _ => decide (ids = [0, 1]))
    (by decide +kernel)
  obtain ⟨rfl, -⟩ := EStateM.Result.ok.inj (hbuild.symm.trans hbuild')
  obtain rfl := of_decide_eq_true htest
  have hfree : ¬ shelfAndBoard.Overtaken 0 0 := by
    rintro ⟨hroot, hid, -⟩
    cases hroot
    cases hid
  exact ⟨text, r, blocks, hfresh, hparse, htext, hwritten, hname ▸ (hroots 0 0 rfl).2.1 hfree,
    (hroots 1 1 rfl).2.2 shelfAndBoard_overtaken⟩

end TypeScribe
