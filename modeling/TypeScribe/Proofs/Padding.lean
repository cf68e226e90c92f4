import TypeScribe.Proofs.Alignment
import Mathlib.Data.List.Permutation

/-!
# Null members contribute nothing

Documents that are pruned alike compile alike (`compile_pruned`): however many null members stand in the
compositions and type lists of the one and of the other, the same declarations come out.

Their graphs are aligned. **Converting** aligned graphs writes the same on pages that correspond, and nothing on the
others (`Graph.Aligned.convertWithin`).
-/

namespace TypeScribe

/-! ## Converting -/

/-- **Aligned drafts**: the same is written on pages that correspond, nothing on the others, and nodes that
correspond are declared in turn. -/
structure Draft.Aligned (m : Pairing) (d d' : Draft) : Prop where
  pages : ∀ {i j : NodeId}, m.Pairs i j → d.page i = d'.page j
  left : ∀ {i : NodeId}, (some i, none) ∈ m → d.text i = ""
  right : ∀ {j : NodeId}, (none, some j) ∈ m → d'.text j = ""
  emission : List.Forall₂ m.Pairs d.emission.toList d'.emission.toList

namespace Draft.Aligned

variable {m : Pairing} {g g' : Graph} {d d' : Draft}

theorem blank (m : Pairing) : Draft.Aligned m {} {} :=
  ⟨fun _ => rfl, fun _ => rfl, fun _ => rfl, .nil⟩

theorem swap (h : Draft.Aligned m d d') : Draft.Aligned m.swap d' d :=
  ⟨fun hij => (h.pages (Pairing.mem_swap.mp hij)).symm, fun hi => h.right (Pairing.mem_swap.mp hi),
    fun hj => h.left (Pairing.mem_swap.mp hj), h.emission.flip.imp fun _ _ => Pairing.mem_swap.mpr⟩

theorem text (h : Draft.Aligned m d d') {i j : NodeId} (hij : m.Pairs i j) : d.text i = d'.text j := by
  rw [Draft.text, Draft.text, h.pages hij]

/-- The pages of two nodes that correspond are turned alike. -/
theorem turn (hg : Graph.Aligned m g g') (h : Draft.Aligned m d d') {i j : NodeId} (hij : m.Pairs i j)
    (f : Page → Page) : Draft.Aligned m (d.turn i f) (d'.turn j f) where
  pages {k l} hkl := by
    rw [page_turn, page_turn, h.pages hij, h.pages hkl]
    by_cases hk : k = i
    · subst hk
      rw [if_pos rfl, if_pos (Option.some.inj (hg.left_unique hkl hij))]
    · have hl : l ≠ j := by
        rintro rfl
        exact hk (Option.some.inj (hg.right_unique hkl hij))
      rw [if_neg hk, if_neg hl]
  left {k} hk := by
    have hne : k ≠ i := by
      rintro rfl
      cases hg.left_unique hk hij
    rw [Draft.text, page_turn, if_neg hne]
    exact h.left hk
  right {k} hk := by
    have hne : k ≠ j := by
      rintro rfl
      cases hg.right_unique hk hij
    rw [Draft.text, page_turn, if_neg hne]
    exact h.right hk
  emission := h.emission

theorem emit (h : Draft.Aligned m d d') {i j : NodeId} (hij : m.Pairs i j) :
    Draft.Aligned m (d.emit i) (d'.emit j) where
  pages := h.pages
  left := h.left
  right := h.right
  emission := by
    simp only [Draft.emit, Array.toList_push]
    exact List.rel_append h.emission (.cons hij .nil)

/-- The page of a node without a counterpart is turned, and there is still nothing on it. -/
theorem turnLeft (hg : Graph.Aligned m g g') (h : Draft.Aligned m d d') {i : NodeId}
    (hi : (some i, none) ∈ m) {f : Page → Page} (hf : ((f (d.page i)).inline).getD "" = "") :
    Draft.Aligned m (d.turn i f) d' where
  pages {k l} hkl := by
    have hne : k ≠ i := by
      rintro rfl
      cases hg.left_unique hi hkl
    rw [page_turn, if_neg hne, h.pages hkl]
  left {k} hk := by
    rw [Draft.text, page_turn]
    split
    · exact hf
    · exact h.left hk
  right := h.right
  emission := h.emission

variable {node node' : Node}

/-- Starting paired nodes keeps the drafts in step. -/
theorem begun (hg : Graph.Aligned m g g') (h : Draft.Aligned m d d') {i j : NodeId} (hij : m.Pairs i j)
    (halike : Node.Alike m node node') : Draft.Aligned m (d.begun i node) (d'.begun j node') := by
  rw [Draft.begun, Draft.begun, halike.declared, halike.name]
  split
  · exact (h.turn hg hij _).emit hij
  · exact h.turn hg hij _

/-- Closing paired nodes with the same texts keeps the drafts in step. -/
theorem finished (hg : Graph.Aligned m g g') (h : Draft.Aligned m d d') {i j : NodeId} (hij : m.Pairs i j)
    (halike : Node.Alike m node node') (e a : String) :
    Draft.Aligned m (d.finished i node e a) (d'.finished j node' e a) := by
  have hdeclaration : Spelling.declaration node e a = Spelling.declaration node' e a := by
    have hshape := halike.shape
    rw [Spelling.declaration, Spelling.declaration, halike.name]
    generalize node.shape = s at hshape ⊢
    generalize node'.shape = s' at hshape ⊢
    cases hshape <;> rfl
  have hundeclared : Spelling.undeclared node e a = Spelling.undeclared node' e a := by
    have hshape := halike.shape
    rw [Spelling.undeclared, Spelling.undeclared]
    generalize node.shape = s at hshape ⊢
    generalize node'.shape = s' at hshape ⊢
    cases hshape <;> rfl
  rw [Draft.finished, Draft.finished, halike.declared, hdeclaration, hundeclared]
  exact h.turn hg hij _

end Draft.Aligned

/-- **Two ways to convert nodes go along** in aligned drafts: nodes that correspond are converted alike, and
converting any other leaves nothing behind. -/
structure GoesAlong (m : Pairing) (convert convert' : NodeId → Write Unit) : Prop where
  both : ∀ {i j : NodeId}, m.Pairs i j → ∀ {d d' : Draft}, d.Aligned m d' →
    Concur (Draft.Aligned m) (convert i d) (convert' j d')
  left : ∀ {i : NodeId}, (some i, none) ∈ m → ∀ {d d' : Draft}, d.Aligned m d' →
    ∃ d₁, convert i d = .ok () d₁ ∧ d₁.Aligned m d'
  right : ∀ {j : NodeId}, (none, some j) ∈ m → ∀ {d d' : Draft}, d.Aligned m d' →
    ∃ d₁, convert' j d' = .ok () d₁ ∧ d.Aligned m d₁

namespace GoesAlong

variable {m : Pairing} {g g' : Graph} {convert convert' : NodeId → Write Unit} {d d' : Draft}

/-- Lists of nodes that correspond have the same texts. -/
theorem texts (h : GoesAlong m convert convert') {is js : List NodeId} (hlists : m.Lists is js) :
    ∀ {d d' : Draft}, d.Aligned m d' →
      Concur (Draft.Aligned m) (Write.texts convert is d) (Write.texts convert' js d') := by
  induction hlists with
  | nil => exact fun hd => .ok hd
  | @both i j is js hij _ ih =>
    intro d d' hd
    refine Concur.bind (h.both hij hd) fun _ d d' hd => ?_
    have hsame : Concur (Draft.Aligned m) (Write.inlineText i d) (Write.inlineText j d') := by
      change Concur _ (.ok (d.text i) d) (.ok (d'.text j) d')
      rw [hd.text hij]
      exact .ok hd
    exact Concur.bind hsame fun text d d' hd => Concur.bind (ih hd) fun more d d' hd => .ok hd
  | @left i is js hi _ ih =>
    intro d d' hd
    obtain ⟨d₁, hconvert, hd₁⟩ := h.left hi hd
    have htext : Write.inlineText i d₁ = .ok "" d₁ := congrArg (EStateM.Result.ok · d₁) (hd₁.left hi)
    rw [Write.texts, bind_ok _ hconvert, bind_ok _ htext]
    simpa using ih hd₁
  | @right j is js hj _ ih =>
    intro d d' hd
    obtain ⟨d₁, hconvert, hd₁⟩ := h.right hj hd
    have htext : Write.inlineText j d₁ = .ok "" d₁ := congrArg (EStateM.Result.ok · d₁) (hd₁.right hj)
    rw [Write.texts.eq_def convert' (j :: js)]
    dsimp only
    rw [bind_ok _ hconvert, bind_ok _ htext]
    simpa using ih hd₁

theorem groups (h : GoesAlong m convert convert') {as as' : List Augmentation}
    (hgroups : List.Forall₂ (Augmentation.Alike m) as as') : ∀ {d d' : Draft}, d.Aligned m d' →
      Concur (Draft.Aligned m) (Write.groups convert as d) (Write.groups convert' as' d') := by
  induction hgroups with
  | nil => exact fun hd => .ok hd
  | @cons a a' as as' halike _ ih =>
    intro d d' hd
    refine Concur.bind (h.texts halike.members hd) fun texts d d' hd => ?_
    refine Concur.bind (ih hd) fun more d d' hd => ?_
    rw [halike.keyword]
    exact .ok hd

theorem fields (h : GoesAlong m convert convert') {fs fs' : List Field}
    (hfields : List.Forall₂ (Field.Alike m) fs fs') : ∀ {d d' : Draft}, d.Aligned m d' →
      Concur (Draft.Aligned m) (Write.fields convert fs d) (Write.fields convert' fs' d') := by
  induction hfields with
  | nil => exact fun hd => .ok hd
  | @cons f f' fs fs' halike _ ih =>
    intro d d' hd
    refine Concur.bind (h.both halike.type hd) fun _ d d' hd => ?_
    have hsame : Concur (Draft.Aligned m) (Write.embedded f.type d) (Write.embedded f'.type d') := by
      change Concur _ (.ok (Layout.orNull (d.text f.type)) d) (.ok (Layout.orNull (d'.text f'.type)) d')
      rw [hd.text halike.type]
      exact .ok hd
    refine Concur.bind hsame fun type d d' hd => Concur.bind (ih hd) fun more d d' hd => ?_
    rw [halike.name, halike.required]
    exact .ok hd

/-- Shapes that correspond have the same text. -/
theorem expression (h : GoesAlong m convert convert') (hg : Graph.Aligned m g g') (hd : d.Aligned m d')
    (indent : Json) {node node' : Node} (hshape : Shape.Alike m node.shape node'.shape)
    (augmentation : String) :
    Concur (Draft.Aligned m) (Write.expression convert g indent node augmentation d)
      (Write.expression convert' g' indent node' augmentation d') := by
  rw [Write.expression, Write.expression]
  generalize node.shape = s at hshape
  generalize node'.shape = s' at hshape
  cases hshape with
  | scalar s => exact .ok hd
  | composite => exact .ok hd
  | unbuilt => exact .error
  | choice alternatives => exact Concur.bind (h.texts alternatives hd) fun texts d d' hd => .ok hd
  | @array i j item =>
    refine Concur.bind (h.both item hd) fun _ d d' hd => ?_
    change Concur _ (.ok (Layout.element (Layout.orNull (d.text i)) ++ "[]") d)
      (.ok (Layout.element (Layout.orNull (d'.text j)) ++ "[]") d')
    rw [hd.text item]
    exact .ok hd
  | object fields =>
    refine Concur.bind (h.fields fields hd) fun texts d d' hd => ?_
    cases Layout.objectTypeUnder indent texts with
    | ok text => exact .ok hd
    | error fault => exact .error
  | reference ref target =>
    have hkey := hg.keys target
    dsimp only
    generalize g.find? target = o at hkey
    generalize g'.find? target = o' at hkey
    cases hkey with
    | none => exact .error
    | @some i j hij =>
      refine Concur.bind (h.both hij hd) fun _ d d' hd => ?_
      rw [bind_ok _ (Write.page_apply i d), bind_ok _ (Write.page_apply j d'), hd.pages hij]
      cases (d'.page j).inline with
      | some text => exact .ok hd
      | none =>
        obtain ⟨node, node', hnode, hnode', -⟩ := hg.pairs hij
        simp only [hnode, hnode']
        exact .error

/-- The bodies of paired nodes are written alike. -/
theorem body (h : GoesAlong m convert convert') (hg : Graph.Aligned m g g') (hd : d.Aligned m d')
    (indent : Json) {i j : NodeId} (hij : m.Pairs i j) {node node' : Node}
    (halike : Node.Alike m node node') :
    Concur (Draft.Aligned m) (Write.body convert g indent i node d)
      (Write.body convert' g' indent j node' d') := by
  refine Concur.bind (h.groups halike.augmentations hd) fun groups d d' hd => ?_
  refine Concur.bind (h.expression hg hd indent halike.shape _) fun e d d' hd => ?_
  rw [Write.finish_apply, Write.finish_apply]
  exact .ok (hd.finished hg hij halike _ _)

/-- A null type without a counterpart is finished at once, and has no text. -/
theorem body_null (hg : Graph.Aligned m g g') (hd : d.Aligned m d') (indent : Json) {i : NodeId}
    (hi : (some i, none) ∈ m) {node : Node} (hnull : node.IsNull) :
    ∃ d₁, Write.body convert g indent i node (d.begun i node) = .ok () d₁ ∧ d₁.Aligned m d' := by
  have hexpression (augmentation : String) :
      Write.expression convert g indent node augmentation = pure "" := by
    rw [Write.expression, hnull.shape]
    rfl
  have hbody : Write.body convert g indent i node (d.begun i node) =
      .ok () ((d.begun i node).finished i node "" "") := by
    simp only [Write.body, hnull.augmentations, Write.groups, hexpression, pure_bind]
    exact Write.finish_apply i node "" "" _
  refine ⟨_, hbody, ?_⟩
  rw [Draft.finished, Draft.begun]
  simp only [hnull.declared]
  refine Draft.Aligned.turnLeft hg (hd.turnLeft hg hi ?_) hi ?_
  · exact hd.left hi
  · simp [Spelling.undeclared, hnull.shape, Layout.augmented]

end GoesAlong

namespace Graph.Aligned

variable {m : Pairing} {g g' : Graph}

/-- A null that has no partner on the right is converted without a trace. -/
theorem convertWithin_left (h : Aligned m g g') (indent : Json) (depth : Nat) {i : NodeId}
    (hi : (some i, none) ∈ m) {d d' : Draft} (hd : d.Aligned m d') :
    ∃ d₁, g.convertWithin indent depth i d = .ok () d₁ ∧ d₁.Aligned m d' := by
  cases hstarted : (d.page i).started with
  | true => exact ⟨d, convertWithin_started depth hstarted, hd⟩
  | false =>
    cases depth with
    | zero => exact ⟨d, rfl, hd⟩
    | succ depth =>
      obtain ⟨node, hnode, hnull⟩ := h.left hi
      rw [convertWithin_new depth hstarted hnode]
      exact GoesAlong.body_null h hd indent hi hnull

/-- A null that has no partner on the left is converted without a trace. -/
theorem convertWithin_right (h : Aligned m g g') (indent : Json) (depth : Nat) {j : NodeId}
    (hj : (none, some j) ∈ m) {d d' : Draft} (hd : d.Aligned m d') :
    ∃ d₁, g'.convertWithin indent depth j d' = .ok () d₁ ∧ d.Aligned m d₁ := by
  obtain ⟨d₁, hok, hd₁⟩ := h.swap.convertWithin_left indent depth (Pairing.mem_swap.mpr hj) hd.swap
  exact ⟨d₁, hok, m.swap_swap ▸ hd₁.swap⟩

/-- **Aligned graphs are converted alike.** -/
theorem convertWithin (h : Aligned m g g') (indent : Json) (depth : Nat) :
    GoesAlong m (g.convertWithin indent depth) (g'.convertWithin indent depth) := by
  induction depth with
  | zero => exact ⟨fun _ _ _ hd => .ok hd, fun _ _ _ hd => ⟨_, rfl, hd⟩, fun _ _ _ hd => ⟨_, rfl, hd⟩⟩
  | succ depth ih =>
    refine ⟨?_, h.convertWithin_left indent (depth + 1), h.convertWithin_right indent (depth + 1)⟩
    intro i j hij d d' hd
    have hpage := hd.pages hij
    cases hstarted : (d.page i).started with
    | true =>
      rw [convertWithin_started _ hstarted, convertWithin_started _ (hpage ▸ hstarted)]
      exact .ok hd
    | false =>
      obtain ⟨node, node', hnode, hnode', halike⟩ := h.pairs hij
      rw [convertWithin_new depth hstarted hnode, convertWithin_new depth (hpage ▸ hstarted) hnode']
      exact ih.body h (hd.begun h hij halike) indent hij halike

/-- Roots that correspond are converted alike, in graphs that are whole. -/
theorem guardedEach (h : Aligned m g g') (hw : g.Whole) (hw' : g'.Whole) (indent : Json) {is js : List NodeId}
    (hids : List.Forall₂ m.Pairs is js) : ∀ {d d' : Draft}, d.Aligned m d' →
      Concur (Draft.Aligned m) (g.guardedEach indent false is d) (g'.guardedEach indent false js d') := by
  induction hids with
  | nil => exact fun hd => .ok hd
  | @cons i j is js hij _ ih =>
    intro d d' hd
    have hleft : g.guardedWithin indent false g.size i d = g.convertWithin indent (max g.size g'.size) i d := by
      rw [guardedWithin_false, convertWithin_eq hw indent (Nat.le_max_left ..) (h.lt_left hij) d]
      rfl
    have hright : g'.guardedWithin indent false g'.size j d' =
        g'.convertWithin indent (max g.size g'.size) j d' := by
      rw [guardedWithin_false, convertWithin_eq hw' indent (Nat.le_max_right ..) (h.lt_right hij) d']
      rfl
    rw [Graph.guardedEach, Graph.guardedEach]
    refine Concur.bind ?_ fun _ d d' hd => ih hd
    rw [hleft, hright]
    exact (h.convertWithin indent _).both hij hd

theorem nameOf (h : Aligned m g g') {i j : NodeId} (hij : m.Pairs i j) : g.nameOf i = g'.nameOf j := by
  obtain ⟨node, node', hnode, hnode', halike⟩ := h.pairs hij
  rw [nameOf_of_node hnode, nameOf_of_node hnode', halike.name]

/-- Of nodes that correspond, those are kept that correspond. -/
theorem keep (h : Aligned m g g') {is js : List NodeId} (hids : List.Forall₂ m.Pairs is js) :
    ∀ seen : List String, List.Forall₂ m.Pairs (Draft.keep g seen is).1 (Draft.keep g' seen js).1 := by
  induction hids with
  | nil => exact fun _ => .nil
  | @cons i j is js hij _ ih =>
    intro seen
    rw [Draft.keep_cons, Draft.keep_cons, h.nameOf hij]
    split
    · exact ih seen
    · exact .cons hij (ih _)

theorem blocks {d d' : Draft} (hd : d.Aligned m d') {is js : List NodeId}
    (hids : List.Forall₂ m.Pairs is js) : d.blocks is = d'.blocks js := by
  induction hids with
  | nil => rfl
  | cons hij _ ih =>
    rw [Draft.blocks, Draft.blocks, List.mapM_cons, List.mapM_cons, hd.pages hij]
    exact congrArg _ (funext fun block => congrArg (· >>= _) ih)

/-- Aligned graphs and drafts are rendered as the same text. -/
theorem render (h : Aligned m g g') {d d' : Draft} (hd : d.Aligned m d') (settings : Settings)
    (commandLine : String) : d.render g settings commandLine = d'.render g' settings commandLine := by
  have hkept : d.blocks (d.kept g) = d'.blocks (d'.kept g') := blocks hd (h.keep hd.emission [])
  rw [Draft.render, Draft.render, hkept]

end Graph.Aligned

/-! ## Compilations -/

namespace Registry

variable {σ τ : Type} [Source σ] [Source τ] [LawfulSource τ]

/-- **Roots that are built** are built from any others that are pruned alike. -/
theorem buildRoots_pruned (roots : List Json) : ∀ {roots' : List Json} {r r' : Registry σ}
    {q : Registry τ} {ids : List NodeId} {m : Pairing}, r.settings = q.settings →
    r.workshop.Aligned m q.workshop → Source.Still q.workshop.source "" →
    roots.map (Json.prune .fragment) = roots'.map (Json.prune .fragment) →
    buildRoots roots r = .ok ids r' →
    ∃ m' ids' q', buildRoots roots' q = .ok ids' q' ∧ m ⊆ m' ∧ List.Forall₂ m'.Pairs ids ids' ∧
      r'.workshop.Aligned m' q'.workshop := by
  induction roots with
  | nil =>
    intro roots' r r' q ids m _ haligned _ hprune h
    obtain rfl := List.map_eq_nil_iff.mp hprune.symm
    cases h
    exact ⟨m, [], q, rfl, List.Subset.refl m, .nil, haligned⟩
  | cons root rest ih =>
    intro roots' r r' q ids m hsettings haligned hstill hprune h
    obtain ⟨root', rest', rfl, hroot', hrest'⟩ := List.map_eq_cons_iff.mp hprune.symm
    obtain ⟨id, w, node, more, hroot, hnode, hname, hmore, rfl⟩ := buildRoots_cons h
    obtain ⟨m₁, id', v, hbuild, hm₁, hpair, hv, hbecomes⟩ :=
      Build.root_pruned haligned hstill hroot'.symm hroot
    obtain ⟨_, node', hsame, hnode', halike⟩ := hv.graph.pairs hpair
    obtain rfl : node = _ := Option.some.inj (hnode.symm.trans hsame)
    obtain ⟨m₂, more', q', hlater, hm₂, hpairs, hlast⟩ := ih
      (r := { r with pending := rest, workshop := w }) (q := { q with pending := rest', workshop := v })
      hsettings hv (hstill.becomes hbecomes) hrest'.symm hmore
    refine ⟨m₂, id' :: more', q', ?_, List.Subset.trans hm₁ hm₂, .cons (hm₂ hpair) hpairs, hlast⟩
    exact buildRoots_cons_ok (hsettings ▸ hbuild) hnode' (halike.name ▸ hname) hlater

end Registry

/-- **What compiles** compiles to the same from documents that are pruned alike. -/
theorem compile_pruned_of_ok {σ τ : Type} [Source σ] [Source τ] [LawfulSource τ] {s : σ} {t : τ}
    (hstill : Source.Still t "") (hserve : Source.ServeUpTo (Json.prune .fragment) s t)
    {roots roots' : List Json} (hprune : roots.map (Json.prune .fragment) = roots'.map (Json.prune .fragment))
    {settings : Settings} {commandLine text : String} (h : compile settings s commandLine roots = .ok text) :
    compile settings t commandLine roots' = .ok text := by
  obtain ⟨r', hall⟩ := compile_ok_iff.mp h
  obtain ⟨r, hr, hparse⟩ := Registry.compileAll_ready settings s commandLine roots
  obtain ⟨q, hq, hparse'⟩ := Registry.compileAll_ready settings t commandLine roots'
  have hsettings : r.settings = q.settings := hr.settings.trans hq.settings.symm
  have hline : r.commandLine = q.commandLine := hr.commandLine.trans hq.commandLine.symm
  have hblank : r.workshop.Aligned [] q.workshop := by
    refine ⟨?_, ?_⟩
    · change Graph.Aligned [] r.graph q.graph
      rw [hr.graph, hq.graph]
      exact .blank
    · rw [hr.source, hq.source]
      exact hserve
  obtain ⟨ids, r₁, hbuild, hbuilt, hrun, hrender, -⟩ := Registry.parse_steps hr.toFresh (hparse ▸ hall)
  obtain ⟨m, ids', q₁, hbuild', -, hids, haligned⟩ := Registry.buildRoots_pruned roots hsettings hblank
    (hq.source ▸ hstill) hprune (hr.pending ▸ hbuild)
  have hbuilt' := Registry.buildRoots_built hq.toFresh hbuild'
  have hsettings₁ : r₁.settings = q₁.settings :=
    hbuilt.settings.trans (hsettings.trans hbuilt'.settings.symm)
  have hline₁ : r₁.commandLine = q₁.commandLine :=
    hbuilt.commandLine.trans (hline.trans hbuilt'.commandLine.symm)
  rw [hsettings₁] at hrun hrender
  obtain ⟨d', hrun', hd'⟩ := (haligned.graph.guardedEach hbuilt.whole hbuilt'.whole _ hids
    (.blank m)).exists_ok hrun
  have hrendered : r'.draft.render r₁.graph _ _ = d'.render q₁.graph _ _ :=
    haligned.graph.render hd' q₁.settings q₁.commandLine
  rw [hline₁, hrendered] at hrender
  obtain ⟨q', hlast⟩ := Registry.parse_of hq.toFresh (hq.pending ▸ hbuild') hrun' hrender
  exact compile_ok_iff.mpr ⟨q', hparse' ▸ hlast⟩

/-- **Null members contribute nothing.** If the roots and the documents of two sources are the same once all
null members are left out, the roots compile with both sources or with none, and to the same text. -/
theorem compile_pruned {σ τ : Type} [Source σ] [LawfulSource σ] [Source τ] [LawfulSource τ] {s : σ} {t : τ}
    (hs : Source.Still s "") (ht : Source.Still t "")
    (hserve : Source.ServeUpTo (Json.prune .fragment) s t) {roots roots' : List Json}
    (hprune : roots.map (Json.prune .fragment) = roots'.map (Json.prune .fragment)) (settings : Settings)
    (commandLine text : String) :
    compile settings s commandLine roots = .ok text ↔ compile settings t commandLine roots' = .ok text :=
  ⟨compile_pruned_of_ok ht hserve hprune, compile_pruned_of_ok hs hserve.symm hprune.symm⟩

/-- Documents that refer to each other, with members put into all compositions and entries into all types. -/
def garden (members entries : List Json) : Catalog := ⟨[
  ("plant", .obj [("id", .str "P"), ("title", .str "Plant"), ("type", .str "object"), ("properties", .obj [
      ("height", .obj [("type", .arr (entries ++ [.str "number", .arr (.str "string" :: entries)]))]),
      ("type", .obj [("type", .arr entries)])]),
    ("anyOf", .arr (members ++ [.obj [("$ref", .str "bed")]] ++ members))]),
  ("bed", .obj [("title", .str "Bed"), ("allOf", .arr (.obj [("type", .str "array"), ("items", .obj [
      ("oneOf", .arr (members ++ [.obj [("$ref", .str "P")]])), ("allOf", .arr members)])] :: members))])]⟩

/-- A root that refers to them. -/
def gardener (members : List Json) : Json :=
  .obj [("title", .str "Gardener"), ("anyOf", .arr (members ++ [.obj [("$ref", .str "plant")]]))]

theorem compile_pruned_garden :
    ∃ text, compile {} (garden [] []) "" [gardener []] = .ok text ∧
      compile {} (garden [.obj [("type", .str "null")], .obj [("type", .str "null")]] [.str "null"]) ""
        [gardener [.obj [("type", .str "null")]]] = .ok text := by
  obtain ⟨text, r, hall, -⟩ := exists_of_succeeds
    (Registry.compileAll [gardener []] (.new {} (garden [] []) "")) (fun _ _ => true) (by decide +kernel)
  have htext : compile {} (garden [] []) "" [gardener []] = .ok text := compile_ok_iff.mpr ⟨r, hall⟩
  have hserve : Source.ServeUpTo (Json.prune .fragment) (garden [] [])
      (garden [.obj [("type", .str "null")], .obj [("type", .str "null")]] [.str "null"]) :=
    Catalog.serveUpTo (fun v => by cases v <;> rfl) (by cbv)
  refine ⟨text, htext, ?_⟩
  exact (compile_pruned (Catalog.still _ "") (Catalog.still _ "") hserve (by cbv) {} "" text).mp htext

end TypeScribe
