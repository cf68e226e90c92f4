import TypeScribe.Proofs.Depth
import TypeScribe.Proofs.Emission
import TypeScribe.Proofs.Resolving

/-!
# Another root only adds declarations

All roots are built before any of them is converted, so a further root comes in between: what it builds
goes into the same graph and the same table. Yet it changes nothing of what the others come to
(`compile_append`).

* **Building.** The roots before it are built as if it were not there, since building looks at the source
  and at the graph, and neither at the queue nor at the log (`Registry.buildRoots_append`).
* **Converting.** The graph has grown when they are converted. A whole graph is closed under arrows, and
  none of its nodes or keys has changed, so conversion does the same (`Graph.convertWithin_grown`).
* **Rendering.** What is converted after them leaves their pages alone, and of the declarations of one name
  the first is kept, so theirs are kept in front (`Draft.render_append`).
-/

namespace TypeScribe

/-! ## Building does not look at the log -/

/-- **Workshops match** if they have the same source and the same graph. Their logs may differ. -/
structure Workshop.Matches {σ : Type} (w v : Workshop σ) : Prop where
  source : w.source = v.source
  graph : w.graph = v.graph

namespace Workshop.Matches

variable {σ : Type} {w v : Workshop σ}

/-- Workshops that match, as a bond. -/
def bond (σ : Type) : Bond σ σ where
  holds _ := Workshop.Matches
  failed _ := Workshop.Matches
  graph h := h.graph
  weaken _ h := h
  enter _ _ _ _ _ _ h := ⟨h.source, by simp only [enter, update, h.graph]⟩
  adjust _ _ _ h := ⟨h.source, by simp only [adjust, update, h.graph]⟩
  fail _ h := h

variable [Source σ]

/-- Resolving a reference keeps to the bond of growing constructions, whatever budget is left. -/
theorem links (settings : Settings) (budget : Nat) :
    (bond σ).Links (fun _ => True) (Build.resolve settings budget) (Build.resolve settings budget) := by
  refine Bond.resolve (fun _ h => h) ?_ ?_ settings budget
  · intro w v ref key h
    have h : w.Matches v := h
    refine ⟨by rw [h.source], ?_, h.graph⟩
    simp only [asking, h.source]
  · intro w v key id h
    have h : w.Matches v := h
    rw [Build.bindNew, Build.onGraph_apply, Build.onGraph_apply]
    exact .ok ⟨h.source, by simp only [update, h.graph]⟩

/-- **Building a document** does the same in workshops that match. -/
theorem root (h : w.Matches v) (settings : Settings) (schema : Json) (name : Option String)
    (path : String) (keys : List String) :
    Together Workshop.Matches (fun _ => Workshop.Matches)
      (Build.root settings schema name path keys w) (Build.root settings schema name path keys v) := by
  have hrefers : (Schema.ofJson schema).Refers fun _ => True := Schema.ofJson_refers fun _ _ => trivial
  have hbuild := Schema.build_together (links settings (Source.budget w.source schema)) _ hrefers name
    path (show (bond σ).holds keys w v from h)
  change Together _ _
    ((Schema.ofJson schema).build (Build.resolve settings (Source.budget w.source schema)) name path keys w)
    ((Schema.ofJson schema).build (Build.resolve settings (Source.budget v.source schema)) name path keys v)
  rw [← h.source]
  exact hbuild

end Workshop.Matches

namespace Registry

variable {σ : Type}

/-- **Registries match** if they have the same settings, and workshops that match. -/
structure Matches (r q : Registry σ) : Prop where
  settings : r.settings = q.settings
  workshop : r.workshop.Matches q.workshop

variable [Source σ]

/-- Once the first root is built and has a name, the others follow. -/
theorem buildRoots_cons_ok {r r' : Registry σ} {schema : Json} {rest : List Json} {id : NodeId}
    {w : Workshop σ} {node : Node} {more : List NodeId}
    (hroot : Build.root r.settings schema none "#" [] r.workshop = .ok id w)
    (hnode : w.graph.node? id = some node) (hname : node.name ≠ "")
    (hmore : buildRoots rest { r with pending := rest, workshop := w } = .ok more r') :
    buildRoots (schema :: rest) r = .ok (id :: more) r' := by
  rw [buildRoots_apply, hroot]
  simp only [hnode, hname, if_false]
  rw [bind_ok _ hmore]
  rfl

/-- **Roots in front of others** are built as if these were not there. -/
theorem buildRoots_append (further : List Json) (roots : List Json) :
    ∀ {r r' q : Registry σ} {ids : List NodeId}, r.Matches q →
      buildRoots (roots ++ further) r = .ok ids r' →
      ∃ ids₁ ids₂ r₁ q₁, buildRoots roots q = .ok ids₁ q₁ ∧ r₁.Matches q₁ ∧
        buildRoots further r₁ = .ok ids₂ r' ∧ ids = ids₁ ++ ids₂ := by
  induction roots with
  | nil =>
    intro r r' q ids hmatch h
    exact ⟨[], ids, r, q, rfl, hmatch, h, rfl⟩
  | cons schema rest ih =>
    intro r r' q ids hmatch h
    obtain ⟨id, w, node, more, hroot, hnode, hname, hmore, rfl⟩ := buildRoots_cons h
    have hsame := hmatch.workshop.root r.settings schema none "#" []
    rw [hroot] at hsame
    cases hq : Build.root r.settings schema none "#" [] q.workshop with
    | error failure v =>
      rw [hq] at hsame
      cases hsame
    | ok id' v =>
      rw [hq] at hsame
      cases hsame with
      | ok states =>
        have hnext : Matches { r with pending := rest ++ further, workshop := w }
            { q with pending := rest, workshop := v } := ⟨hmatch.settings, states⟩
        obtain ⟨ids₁, ids₂, r₁, q₁, hrest, hmatch₁, hfurther, rfl⟩ := ih hnext hmore
        refine ⟨id :: ids₁, ids₂, r₁, q₁, ?_, hmatch₁, hfurther, rfl⟩
        exact buildRoots_cons_ok (hmatch.settings ▸ hq) (states.graph ▸ hnode) hname hrest

end Registry

/-! ## Converting in a larger graph -/

section

variable {g g' : Graph} {convert convert' : NodeId → Write Unit}

/-- Texts of members depend on what converting each of them does. -/
theorem Write.texts_congr {ids : List NodeId} (h : ∀ id ∈ ids, convert id = convert' id) :
    texts convert ids = texts convert' ids := by
  induction ids with
  | nil => rfl
  | cons id rest ih =>
    rw [texts, texts, h id (List.mem_cons_self ..), ih fun n hn => h n (List.mem_cons_of_mem _ hn)]

theorem Write.groups_congr {augmentations : List Augmentation}
    (h : ∀ id ∈ augmentations.flatMap Augmentation.members, convert id = convert' id) :
    groups convert augmentations = groups convert' augmentations := by
  induction augmentations with
  | nil => rfl
  | cons a rest ih =>
    rw [List.flatMap_cons] at h
    rw [groups, groups, texts_congr fun n hn => h n (List.mem_append_left _ hn),
      ih fun n hn => h n (List.mem_append_right _ hn)]

/-- Texts of fields depend on what converting the type of each of them does. -/
theorem Write.fields_congr {fs : List Field}
    (h : ∀ id ∈ fs.map Field.type, convert id = convert' id) : fields convert fs = fields convert' fs := by
  induction fs with
  | nil => rfl
  | cons f rest ih =>
    rw [fields, fields, h f.type (List.mem_cons_self ..), ih fun n hn => h n (List.mem_cons_of_mem _ hn)]

/-- The shape of a complete node comes to the same in a larger graph. -/
theorem Write.expression_grown (hgrows : Graph.Grows none g g') {node : Node} (hnode : g.Complete node)
    (h : ∀ id, id < g.size → convert id = convert' id) (indent : Json) (augmentation : String) :
    expression convert g' indent node augmentation = expression convert' g indent node augmentation := by
  have hheld : ∀ n ∈ node.shape.children, convert n = convert' n :=
    fun n hn => h n (hnode.held n (List.mem_append_left _ hn))
  cases hshape : node.shape with
  | scalar s => simp only [expression, hshape]
  | composite => simp only [expression, hshape]
  | choice alternatives =>
    rw [hshape] at hheld
    have htexts : texts convert alternatives = texts convert' alternatives := texts_congr hheld
    simp only [expression, hshape, htexts]
  | array item =>
    cases item with
    | none => simp only [expression, hshape]
    | some item =>
      rw [hshape] at hheld
      simp only [expression, hshape, hheld item (by simp [Shape.children])]
  | object fs =>
    rw [hshape] at hheld
    simp only [expression, hshape, fields_congr hheld]
  | reference ref target =>
    obtain ⟨n, hfind, hlt⟩ := hnode.target ref target hshape
    simp only [expression, hshape, hfind, hgrows.table target n hfind, h n hlt,
      hgrows.kept n hlt (by simp)]

/-- The body of a complete node reads the same in a graph that has grown since. -/
theorem Write.body_grown (hgrows : Graph.Grows none g g') {node : Node} (hnode : g.Complete node)
    (h : ∀ id, id < g.size → convert id = convert' id) (indent : Json) (id : NodeId) :
    body convert g' indent id node = body convert' g indent id node := by
  have hmembers : groups convert node.augmentations = groups convert' node.augmentations :=
    groups_congr fun n hn => h n (hnode.held n (List.mem_append_right _ hn))
  simp only [body, hmembers, expression_grown hgrows hnode h]

namespace Graph

/-- **Conversion of a node does the same in a larger graph**, if the graph it is in was whole. -/
theorem convertWithin_grown (hw : g.Whole) (hgrows : Grows none g g') (indent : Json) (depth : Nat) :
    ∀ id, id < g.size → g'.convertWithin indent depth id = g.convertWithin indent depth id := by
  induction depth with
  | zero =>
    intro id _
    rfl
  | succ depth ih =>
    intro id hid
    obtain ⟨node, hnode⟩ := exists_node hid
    have hbody := Write.body_grown hgrows (hw id node hnode) ih indent id
    simp only [convertWithin, hgrows.kept id hid (by simp), hnode, hbody]

/-- Conversion in turn does the same in a larger graph. -/
theorem guardedEach_grown (hw : g.Whole) (hgrows : Grows none g g') (indent : Json) (ids : List NodeId)
    (hids : ∀ id ∈ ids, id < g.size) :
    g'.guardedEach indent false ids = g.guardedEach indent false ids := by
  induction ids with
  | nil => rfl
  | cons id rest ih =>
    have hid := hids id (List.mem_cons_self ..)
    have hone : g'.guardedWithin indent false g'.size id = g.guardedWithin indent false g.size id := by
      rw [guardedWithin_false, guardedWithin_false, convertWithin_grown hw hgrows indent _ id hid]
      funext d
      exact convertWithin_eq hw indent hgrows.size hid d
    rw [guardedEach, guardedEach, hone, ih fun n hn => hids n (List.mem_cons_of_mem _ hn)]

theorem guardedEach_append (indent : Json) (guarded : Bool) (ids more : List NodeId) :
    g.guardedEach indent guarded (ids ++ more) =
      g.guardedEach indent guarded ids >>= fun _ => g.guardedEach indent guarded more := by
  induction ids with
  | nil => rfl
  | cons id rest ih =>
    rw [List.cons_append, guardedEach, guardedEach, ih, bind_assoc]

/-- **Conversion leaves alone what was converted before**: the pages of nodes that were met stay, and
declarations are only added. -/
theorem guardedEach_extends (hw : g.Whole) {indent : Json} {ids more : List NodeId} {d d' : Draft}
    (hids : ∀ id ∈ ids ++ more, id < g.size)
    (h : g.guardedEach indent false ids {} = .ok () d)
    (h' : g.guardedEach indent false more d = .ok () d') :
    d.emission.toList <+: d'.emission.toList ∧ ∀ n ∈ d.emission.toList, d'.page n = d.page n := by
  have hblank : Tracks g indent false {} {} := tracks_blank
  have hfirst := guardedEach_follows hw ids Walk.Valid.blank rfl hblank
    (List.subset_append_left ids more) fun n hn => hids n (List.mem_append_left _ hn)
  rw [h] at hfirst
  obtain ⟨ht, -⟩ := hfirst
  obtain ⟨hv, hs⟩ := valid_foldl hw.bounded ids Walk.Valid.blank rfl (List.subset_append_left ids more)
  have hsecond := guardedEach_follows hw more hv hs ht (List.subset_append_right ids more)
    fun n hn => hids n (List.mem_append_right _ hn)
  rw [h'] at hsecond
  obtain ⟨ht', hpages⟩ := hsecond
  constructor
  · rw [ht.emission, ht'.emission]
    exact (le_foldl more).seen.filter _
  · intro n hn
    rw [ht.emission] at hn
    exact hpages n (List.mem_filter.mp hn).1

end Graph

end

/-! ## Rendering what was there before -/

/-- A joined list of texts begins with the joined texts of its first part. -/
theorem exists_intercalate_append (separator : String) (as bs : List String) :
    ∃ more, separator.intercalate (as ++ bs) = separator.intercalate as ++ more := by
  by_cases has : as = []
  · exact ⟨separator.intercalate bs, by simp [has]⟩
  · by_cases hbs : bs = []
    · exact ⟨"", by simp [hbs]⟩
    · exact ⟨_, (intercalate_append separator hbs has).trans (String.append_assoc ..)⟩

namespace Draft

variable {g g' : Graph} {d d' : Draft}

/-- What comes later changes nothing of what is kept before. -/
theorem keep_append (g : Graph) (order more : List NodeId) : ∀ seen : List String,
    ∃ later, (keep g seen (order ++ more)).1 = (keep g seen order).1 ++ later := by
  induction order with
  | nil => exact fun seen => ⟨(keep g seen more).1, rfl⟩
  | cons id rest ih =>
    intro seen
    rw [List.cons_append, keep_cons, keep_cons]
    split
    · exact ih seen
    · obtain ⟨later, hlater⟩ := ih (g.nameOf id :: seen)
      exact ⟨later, by rw [hlater, List.cons_append]⟩

/-- What is kept depends on names alone. -/
theorem keep_congr {order : List NodeId} (h : ∀ n ∈ order, g'.nameOf n = g.nameOf n) :
    ∀ seen : List String, (keep g' seen order).1 = (keep g seen order).1 := by
  induction order with
  | nil => exact fun _ => rfl
  | cons id rest ih =>
    intro seen
    have ih := ih fun n hn => h n (List.mem_cons_of_mem _ hn)
    rw [keep_cons, keep_cons, h id (List.mem_cons_self ..), ih, ih]

/-- Nodes that have blocks can be rendered. -/
theorem blocks_of_forall₂ {ids : List NodeId} {blocks : List String}
    (h : List.Forall₂ (fun n block => (d.page n).block = some block) ids blocks) :
    d.blocks ids = .ok blocks := by
  induction h with
  | nil => rfl
  | @cons id block rest more hblock _ ih =>
    rw [Draft.blocks, List.mapM_cons, hblock]
    change ((d.blocks rest).bind fun more => .ok (block :: more)) = _
    rw [ih]
    rfl

theorem blocks_congr {ids : List NodeId} (h : ∀ n ∈ ids, d'.page n = d.page n) :
    d'.blocks ids = d.blocks ids := by
  induction ids with
  | nil => rfl
  | cons id rest ih =>
    have ih : rest.mapM _ = rest.mapM _ := ih fun n hn => h n (List.mem_cons_of_mem _ hn)
    rw [blocks, blocks, List.mapM_cons, List.mapM_cons, h id (List.mem_cons_self ..), ih]

/-- **What was rendered before comes first.** A draft whose declarations were met first, and whose pages
are as they were, is rendered to the beginning of the text. -/
theorem render_append {settings : Settings} {commandLine text : String}
    (hemission : d.emission.toList <+: d'.emission.toList)
    (hpages : ∀ n ∈ d.emission.toList, d'.page n = d.page n)
    (hnames : ∀ n ∈ d.emission.toList, g'.nameOf n = g.nameOf n)
    (h : d'.render g' settings commandLine = .ok text) :
    ∃ text' more, d.render g settings commandLine = .ok text' ∧ text = text' ++ more := by
  obtain ⟨blocks, hblocks, rfl⟩ := render_ok h
  obtain ⟨order, horder⟩ := hemission
  obtain ⟨later, hlater⟩ := keep_append g' d.emission.toList order []
  have hkept : d'.kept g' = d.kept g ++ later := by
    rw [kept, ← horder, hlater, keep_congr hnames]
    rfl
  rw [hkept] at hblocks
  have hfront := (List.forall₂_take_append blocks (d.kept g) later hblocks.flip).flip
  have hsame : d'.blocks (d.kept g) = d.blocks (d.kept g) :=
    blocks_congr fun n hn => hpages n ((keep_sublist g _ []).subset hn)
  rw [blocks_of_forall₂ hfront] at hsame
  let comment := if settings.comment.isVacant then [] else [Layout.headerComment commandLine]
  let front := blocks.take (d.kept g).length
  obtain ⟨more, hmore⟩ := exists_intercalate_append "\n\n" (comment ++ front)
    (blocks.drop (d.kept g).length)
  refine ⟨"\n\n".intercalate (comment ++ front), more, ?_, ?_⟩
  · change ((d.blocks (d.kept g)).bind fun blocks => .ok ("\n\n".intercalate (comment ++ blocks))) = _
    rw [← hsame]
    rfl
  · rw [← hmore, List.append_assoc, List.take_append_drop]

end Draft

/-! ## Compilations -/

namespace Registry

variable {σ : Type}

/-- **A registry that is ready** to compile roots: they are queued, and nothing else has been done. Only
the log tells that they were queued one by one. -/
structure Ready (settings : Settings) (source : σ) (commandLine : String) (roots : List Json)
    (r : Registry σ) : Prop extends Fresh r where
  pending : r.pending = roots
  settings : r.settings = settings
  source : r.workshop.source = source
  commandLine : r.commandLine = commandLine

/-- Queueing roots puts them behind those that wait, and changes nothing but the log. -/
theorem addAll_apply (roots : List Json) : ∀ r : Registry σ, ∃ log, addAll roots r =
    .ok () { r with pending := r.pending ++ roots, workshop := { r.workshop with log } } := by
  induction roots with
  | nil =>
    intro r
    exact ⟨r.workshop.log, by rw [List.append_nil]; rfl⟩
  | cons schema rest ih =>
    intro r
    obtain ⟨log, hrest⟩ := ih ({ r with pending := r.pending ++ [schema] }.report
      [.queued (r.pending ++ [schema]).length])
    refine ⟨log, hrest.trans ?_⟩
    simp [report]

variable [Source σ]

/-- **Compiling roots from the start** is compiling the queue of a registry that is ready. -/
theorem compileAll_ready (settings : Settings) (source : σ) (commandLine : String) (roots : List Json) :
    ∃ r, Ready settings source commandLine roots r ∧
      compileAll roots (new settings source commandLine) = parse r := by
  obtain ⟨log, hadd⟩ := addAll_apply roots (new settings source commandLine)
  exact ⟨_, ⟨⟨rfl, rfl⟩, rfl, rfl, rfl, rfl⟩, bind_ok _ hadd⟩

/-- Building, converting and rendering in turn make a compilation. -/
theorem parse_of {r r₁ : Registry σ} {ids : List NodeId} {draft : Draft} {text : String} (hf : r.Fresh)
    (hbuild : buildRoots r.pending r = .ok ids r₁)
    (hrun : r₁.graph.guardedEach r₁.settings.indent false ids {} = .ok () draft)
    (hrender : draft.render r₁.graph r₁.settings r₁.commandLine = .ok text) :
    ∃ r', parse r = .ok text r' := by
  have hconvert := convertAll_redrafted ids r₁
  rw [(buildRoots_built hf hbuild).draft, hf.draft, hrun] at hconvert
  obtain ⟨r₂, hconvert, hdone⟩ := hconvert
  rw [← hdone.graph, ← hdone.settings, ← hdone.commandLine, ← hdone.draft] at hrender
  have hlast := render_apply r₂
  rw [hrender] at hlast
  rw [parse_apply, bind_ok _ hbuild, bind_ok _ hconvert]
  exact ⟨_, hlast⟩

/-- **A compilation in two stages**: the roots in front are built and converted as if the others were not there,
and what these add leaves the pages, the names and the order of the declarations before alone. -/
structure Staged (q : Registry σ) (roots further : List Json) (ids more : List NodeId) (q₁ r₁ : Registry σ)
    (d d' : Draft) : Prop where
  front : buildRoots roots q = .ok ids q₁
  back : ∃ r, r.Matches q₁ ∧ buildRoots further r = .ok more r₁
  built : q.Built q₁ ids
  whole : r₁.graph.Whole
  held : ∀ id ∈ ids ++ more, id < r₁.graph.size
  grows : Graph.Grows none q₁.graph r₁.graph
  run : q₁.graph.guardedEach q₁.settings.indent false ids {} = .ok () d
  runAll : r₁.graph.guardedEach q₁.settings.indent false (ids ++ more) {} = .ok () d'
  emission : d.emission.toList <+: d'.emission.toList
  pages : ∀ n ∈ d.emission.toList, d'.page n = d.page n
  names : ∀ n ∈ d.emission.toList, r₁.graph.nameOf n = q₁.graph.nameOf n

/-- A compilation of roots with further ones behind them goes in two stages. -/
theorem parse_staged {r r' q : Registry σ} {roots further : List Json} {text : String} (hf : r.Fresh)
    (hfq : q.Fresh) (hmatch : r.Matches q) (hline : r.commandLine = q.commandLine)
    (hr : r.pending = roots ++ further) (h : parse r = .ok text r') :
    ∃ ids more q₁ r₁ d d', Staged q roots further ids more q₁ r₁ d d' ∧
      d'.render r₁.graph q₁.settings q₁.commandLine = .ok text := by
  obtain ⟨ids, r₁, hbuild, hbuilt, hrun, hrender, -⟩ := parse_steps hf h
  rw [hr] at hbuild
  obtain ⟨ids₁, ids₂, r₂, q₁, hfront, hmatch₁, hback, rfl⟩ := buildRoots_append further roots hmatch hbuild
  have hbuilt₁ := buildRoots_built hfq hfront
  have hsettings : r₁.settings = q₁.settings :=
    hbuilt.settings.trans (hmatch.settings.trans hbuilt₁.settings.symm)
  -- what the others build comes on top of the graph of the roots in front
  have hranged : q.graph.Ranged := by
    rw [hfq.graph]
    intro key id hfind
    cases hfind
  have hgrows : Graph.Grows none q₁.graph r₁.graph := by
    have hgraph : r₂.graph = q₁.graph := hmatch₁.workshop.graph
    have hranged₁ := (buildRoots_grows roots hranged hfront).1.ranged hranged
    exact hgraph ▸ (buildRoots_grows further (hgraph ▸ hranged₁) hback).1
  rw [hsettings] at hrun
  have hparts := hrun
  rw [Graph.guardedEach_append] at hparts
  obtain ⟨_, d, hrun₁, hrun₂⟩ := ok_of_bind hparts
  obtain ⟨hemission, hpages⟩ := Graph.guardedEach_extends hbuilt.whole hbuilt.held hrun₁ hrun₂
  rw [Graph.guardedEach_grown hbuilt₁.whole hgrows _ ids₁ hbuilt₁.held] at hrun₁
  have ht := Graph.guardedEach_tracks hbuilt₁.whole hbuilt₁.held q₁.settings.indent false
  rw [hrun₁] at ht
  have hnames : ∀ n ∈ d.emission.toList, r₁.graph.nameOf n = q₁.graph.nameOf n := by
    intro n hn
    rw [ht.emission] at hn
    have hlt := (Graph.walk_valid hbuilt₁.whole.bounded).bounded n (List.mem_filter.mp hn).1
    rw [Graph.nameOf, Graph.nameOf, hgrows.kept n hlt (by simp)]
  rw [hsettings, hbuilt.commandLine, hline, ← hbuilt₁.commandLine] at hrender
  exact ⟨ids₁, ids₂, q₁, r₁, d, r'.draft,
    ⟨hfront, ⟨r₂, hmatch₁, hback⟩, hbuilt₁, hbuilt.whole, hbuilt.held, hgrows, hrun₁, hrun, hemission, hpages,
      hnames⟩, hrender⟩

/-- **Roots in front of others compile** if all of them do, to the beginning of the text. -/
theorem parse_append {r r' q : Registry σ} {roots further : List Json} {text : String} (hf : r.Fresh)
    (hfq : q.Fresh) (hmatch : r.Matches q) (hline : r.commandLine = q.commandLine)
    (hr : r.pending = roots ++ further) (hq : q.pending = roots) (h : parse r = .ok text r') :
    ∃ text' more q', parse q = .ok text' q' ∧ text = text' ++ more := by
  obtain ⟨ids, more, q₁, r₁, d, d', hstaged, hrender⟩ := parse_staged hf hfq hmatch hline hr h
  obtain ⟨text', rest, htext, rfl⟩ :=
    Draft.render_append hstaged.emission hstaged.pages hstaged.names hrender
  obtain ⟨q', hparse⟩ := parse_of hfq (hq ▸ hstaged.front) hstaged.run htext
  exact ⟨text', rest, q', hparse, rfl⟩

end Registry

theorem compile_ok_iff {σ : Type} [Source σ] {settings : Settings} {source : σ} {commandLine text : String}
    {roots : List Json} : compile settings source commandLine roots = .ok text ↔
      ∃ r, Registry.compileAll roots (.new settings source commandLine) = .ok text r := by
  rw [compile]
  cases Registry.compileAll roots (.new settings source commandLine) <;> simp

/-- **Another root only adds declarations.** If roots compile together with further ones, they compile
without them, and their text is the beginning of the longer one. -/
theorem compile_append {σ : Type} [Source σ] {settings : Settings} {source : σ} {commandLine text : String}
    {roots further : List Json} (h : compile settings source commandLine (roots ++ further) = .ok text) :
    ∃ text' more, compile settings source commandLine roots = .ok text' ∧ text = text' ++ more := by
  obtain ⟨r', hall⟩ := compile_ok_iff.mp h
  obtain ⟨r, hr, hparse⟩ := Registry.compileAll_ready settings source commandLine (roots ++ further)
  obtain ⟨q, hq, hparse'⟩ := Registry.compileAll_ready settings source commandLine roots
  have hmatch : r.Matches q := by
    refine ⟨hr.settings.trans hq.settings.symm, hr.source.trans hq.source.symm, ?_⟩
    exact hr.graph.trans hq.graph.symm
  obtain ⟨text', more, q', hfront, rfl⟩ := Registry.parse_append hr.toFresh hq.toFresh hmatch
    (hr.commandLine.trans hq.commandLine.symm) hr.pending hq.pending (hparse ▸ hall)
  exact ⟨text', more, compile_ok_iff.mpr ⟨q', hparse' ▸ hfront⟩, rfl⟩

/-- Documents of which one refers to the other. -/
def village : Catalog := ⟨[
  ("house", .obj [("id", .str "H"), ("title", .str "House"), ("type", .str "object"), ("properties", .obj [
    ("street", .obj [("$ref", .str "street")])])]),
  ("street", .obj [("title", .str "Street"), ("type", .str "array"), ("items", .obj [("$ref", .str "H")])])]⟩

/-- A root that refers to one of them. -/
def household : Json :=
  .obj [("title", .str "Household"), ("type", .str "object"), ("properties", .obj [
    ("home", .obj [("$ref", .str "house")])])]

/-- A root that takes an id of the documents, refers to the other one, and has a namesake. -/
def neighbour : Json :=
  .obj [("title", .str "Neighbour"), ("type", .str "object"), ("properties", .obj [
    ("home", .obj [("id", .str "H"), ("type", .str "string")]),
    ("street", .obj [("$ref", .str "street")]),
    ("other", .obj [("title", .str "Household"), ("type", .str "object")])])]

theorem compile_append_neighbour :
    ∃ text text' more, compile {} village "" ([household] ++ [neighbour]) = .ok text ∧
      compile {} village "" [household] = .ok text' ∧ text = text' ++ more := by
  obtain ⟨text, r, hall, -⟩ := exists_of_succeeds
    (Registry.compileAll ([household] ++ [neighbour]) (.new {} village "")) (fun _ _ => true)
    (by decide +kernel)
  have htext : compile {} village "" ([household] ++ [neighbour]) = .ok text := compile_ok_iff.mpr ⟨r, hall⟩
  obtain ⟨text', more, hfront, hsplit⟩ := compile_append htext
  exact ⟨text, text', more, htext, hfront, hsplit⟩

end TypeScribe
