import TypeScribe.Registry
import TypeScribe.Proofs.Construction
import TypeScribe.Proofs.Conversion

/-!
# The course of a compilation

What the steps on a registry do, in terms of its graph and its draft. Building leaves the draft alone
and makes a whole graph (`Registry.buildRoots_built`). Converting leaves the graph alone, and what it
writes is what conversion in turn writes (`Registry.convertAll_redrafted`). A compilation that
succeeds is the one after the other, and then what is rendered (`Registry.parse_steps`).
-/

namespace TypeScribe

namespace Registry

variable {σ : Type} {r r' r₁ r₂ : Registry σ}

/-- **Fresh registries**: nothing is built, and nothing is written. Roots may be queued. -/
structure Fresh (r : Registry σ) : Prop where
  graph : r.graph = {}
  draft : r.draft = {}

/-- Queueing a root leaves a registry fresh. -/
theorem Fresh.add {schema title : Json} {u : Unit} (hf : r.Fresh)
    (h : Registry.add schema title r = .ok u r') : r'.Fresh := by
  rw [Registry.add] at h
  cases htitled : titled schema title with
  | error failure =>
    rw [htitled] at h
    cases h
  | ok root =>
    rw [htitled] at h
    cases h
    exact ⟨hf.graph, hf.draft⟩

/-- A registry with roots queued, and nothing else done. -/
def queued (settings : Settings) (source : σ) (commandLine : String) (roots : List Json) : Registry σ :=
  { new settings source commandLine with pending := roots }

theorem fresh_queued (settings : Settings) (source : σ) (commandLine : String) (roots : List Json) :
    (queued settings source commandLine roots).Fresh :=
  ⟨rfl, rfl⟩

/-- **What building leaves behind**: a whole graph with the given nodes, and all else as it was. -/
structure Built (r r' : Registry σ) (ids : List NodeId) : Prop where
  whole : r'.graph.Whole
  held : ∀ id ∈ ids, id < r'.graph.size
  draft : r'.draft = r.draft
  settings : r'.settings = r.settings
  commandLine : r'.commandLine = r.commandLine

/-- **What converting leaves behind**: the given draft, and all else but the log as it was. -/
structure Redrafted (r r' : Registry σ) (draft : Draft) : Prop where
  graph : r'.graph = r.graph
  draft : r'.draft = draft
  settings : r'.settings = r.settings
  commandLine : r'.commandLine = r.commandLine

/-! ## Converting and rendering -/

theorem redrafted_withDraft (r : Registry σ) (draft : Draft) : r.Redrafted (r.withDraft draft) draft :=
  ⟨rfl, rfl, rfl, rfl⟩

theorem Redrafted.trans {d d' : Draft} (h : r.Redrafted r₁ d) (h' : r₁.Redrafted r₂ d') :
    r.Redrafted r₂ d' where
  graph := h'.graph.trans h.graph
  draft := h'.draft
  settings := h'.settings.trans h.settings
  commandLine := h'.commandLine.trans h.commandLine

/-- Converting a node is a step of conversion on the draft. -/
theorem convert_apply (id : NodeId) (r : Registry σ) :
    convert id r =
      match r.graph.guardedWithin r.settings.indent false r.graph.size id r.draft with
      | .ok _ draft => .ok () (r.withDraft draft)
      | .error failure draft => .error failure (r.withDraft draft) := by
  rw [Graph.guardedWithin_false]
  change writing (fun graph => graph.convert r.settings.indent id) r = _
  rw [writing, Graph.convert]
  cases r.graph.convertWithin r.settings.indent r.graph.size id r.draft <;> rfl

/-- **Converting nodes in turn** writes what conversion in turn writes. -/
theorem convertAll_redrafted (ids : List NodeId) : ∀ r : Registry σ,
    match r.graph.guardedEach r.settings.indent false ids r.draft with
    | .ok _ draft => ∃ r', convertAll ids r = .ok () r' ∧ r.Redrafted r' draft
    | .error failure draft => ∃ r', convertAll ids r = .error failure r' ∧ r.Redrafted r' draft := by
  induction ids with
  | nil =>
    intro r
    exact ⟨r, rfl, rfl, rfl, rfl, rfl⟩
  | cons id rest ih =>
    intro r
    rw [Graph.guardedEach, convertAll, bind_apply]
    have hone := convert_apply id r
    cases hid : r.graph.guardedWithin r.settings.indent false r.graph.size id r.draft with
    | error failure draft =>
      rw [hid] at hone
      exact ⟨_, bind_error _ hone, redrafted_withDraft r draft⟩
    | ok u draft =>
      rw [hid] at hone
      rw [bind_ok _ hone]
      have hfirst := redrafted_withDraft r draft
      have hrest := ih (r.withDraft draft)
      rw [hfirst.graph, hfirst.settings, hfirst.draft] at hrest
      change match r.graph.guardedEach r.settings.indent false rest draft with
        | .ok _ draft => _
        | .error failure draft => _
      cases hres : r.graph.guardedEach r.settings.indent false rest draft with
      | error failure draft' =>
        rw [hres] at hrest
        obtain ⟨r', hconvert, hredrafted⟩ := hrest
        exact ⟨r', hconvert, hfirst.trans hredrafted⟩
      | ok u draft' =>
        rw [hres] at hrest
        obtain ⟨r', hconvert, hredrafted⟩ := hrest
        exact ⟨r', hconvert, hfirst.trans hredrafted⟩

/-- Rendering reports what is dropped, and changes nothing else. -/
theorem render_apply (r : Registry σ) : render r =
    match r.draft.render r.graph r.settings r.commandLine with
    | .ok text => .ok text (r.report ((r.draft.dropped r.graph).filterMap (dropping r.graph)))
    | .error failure =>
      .error failure (r.report ((r.draft.dropped r.graph).filterMap (dropping r.graph))) := by
  change (match r.draft.render r.graph r.settings r.commandLine with
    | .ok text => pure text
    | .error failure => throw failure : Session σ String) (r.report _) = _
  cases r.draft.render r.graph r.settings r.commandLine <;> rfl

/-- Rendering reads the draft, and leaves it as it is. -/
theorem render_ok {text : String} (h : render r = .ok text r') :
    r.draft.render r.graph r.settings r.commandLine = .ok text ∧ r.Redrafted r' r.draft := by
  rw [render_apply] at h
  cases hrender : r.draft.render r.graph r.settings r.commandLine with
  | ok found =>
    rw [hrender] at h
    cases h
    exact ⟨rfl, rfl, rfl, rfl, rfl⟩
  | error failure =>
    rw [hrender] at h
    cases h

/-! ## Building -/

section

variable [Source σ]

/-- **Building roots in turn**, told from the first: it leaves the queue, is built, has to have a name, and
then the others follow. -/
theorem buildRoots_apply (schema : Json) (rest : List Json) (r : Registry σ) :
    buildRoots (schema :: rest) r =
      match Build.root r.settings schema none "#" [] r.workshop with
      | .error failure w => .error failure { r with pending := rest, workshop := w }
      | .ok id w =>
        match w.graph.node? id with
        | none => .error .nodeUnknown { r with pending := rest, workshop := w }
        | some node =>
          if node.name = "" then
            .error (.unnamed schema node.path) { r with pending := rest, workshop := w }
          else
            (buildRoots rest >>= fun more => pure (id :: more) : Session σ (List NodeId))
              { r with pending := rest, workshop := w } := by
  have hbuild : build schema none "#" [] { r with pending := rest } =
      match Build.root r.settings schema none "#" [] r.workshop with
      | .ok id w => .ok id { r with pending := rest, workshop := w }
      | .error failure w => .error failure { r with pending := rest, workshop := w } := by
    change building (Build.root r.settings schema none "#" []) { r with pending := rest } = _
    rw [building]
    cases Build.root r.settings schema none "#" [] r.workshop <;> rfl
  rw [buildRoots]
  change (build schema none "#" [] >>= _) { r with pending := rest } = _
  cases hroot : Build.root r.settings schema none "#" [] r.workshop with
  | error failure w =>
    rw [hroot] at hbuild
    exact bind_error _ hbuild
  | ok id w =>
    rw [hroot] at hbuild
    rw [bind_ok _ hbuild]
    change (match w.graph.node? id with
      | none => throw .nodeUnknown
      | some node =>
        if node.name = "" then throw (.unnamed schema node.path)
        else do
          let more ← buildRoots rest
          return id :: more : Session σ (List NodeId)) { r with pending := rest, workshop := w } = _
    cases hnode : w.graph.node? id with
    | none =>
      simp only [hnode]
      rfl
    | some node =>
      by_cases hname : node.name = ""
      · simp only [hnode, hname, if_true]
        rfl
      · simp only [hnode, hname, if_false]

/-- The first root is built by itself, and the others go on from there. Its name is not empty. -/
theorem buildRoots_cons {schema : Json} {rest : List Json} {ids : List NodeId}
    (h : buildRoots (schema :: rest) r = .ok ids r') :
    ∃ id w node more, Build.root r.settings schema none "#" [] r.workshop = .ok id w ∧
      w.graph.node? id = some node ∧ node.name ≠ "" ∧
      buildRoots rest { r with pending := rest, workshop := w } = .ok more r' ∧ ids = id :: more := by
  rw [buildRoots_apply] at h
  cases hroot : Build.root r.settings schema none "#" [] r.workshop with
  | error failure w =>
    rw [hroot] at h
    cases h
  | ok id w =>
    rw [hroot] at h
    cases hnode : w.graph.node? id with
    | none =>
      simp only [hnode] at h
      cases h
    | some node =>
      simp only [hnode] at h
      split at h
      · cases h
      · obtain ⟨more, r₃, hmore, h⟩ := ok_of_bind h
        cases h
        exact ⟨id, w, node, more, rfl, hnode, ‹_›, hmore, rfl⟩

/-- Building roots in turn grows the graph. -/
theorem buildRoots_grows (roots : List Json) : ∀ {r r' : Registry σ} {ids : List NodeId},
    r.graph.Ranged → buildRoots roots r = .ok ids r' →
    Graph.Grows none r.graph r'.graph ∧ (∀ id ∈ ids, id < r'.graph.size) ∧ r'.draft = r.draft ∧
      r'.settings = r.settings ∧ r'.commandLine = r.commandLine := by
  induction roots with
  | nil =>
    intro r r' ids _ h
    cases h
    exact ⟨.refl _ _, by simp, rfl, rfl, rfl⟩
  | cons schema rest ih =>
    intro r r' ids hr h
    obtain ⟨id, w, node, more, hroot, -, -, hmore, rfl⟩ := buildRoots_cons h
    obtain ⟨hgrows, hlt⟩ := Build.root_grows hr hroot
    obtain ⟨hgrows', hheld, hdraft, hsettings, hline⟩ :=
      ih (by exact hgrows.ranged hr) hmore
    refine ⟨hgrows.trans hgrows', ?_, hdraft, hsettings, hline⟩
    intro n hn
    rcases List.mem_cons.mp hn with rfl | hn
    · exact Nat.lt_of_lt_of_le hlt hgrows'.size
    · exact hheld n hn

/-- **Building roots** on a fresh registry makes a whole graph. -/
theorem buildRoots_built {roots : List Json} {ids : List NodeId} (hf : r.Fresh)
    (h : buildRoots roots r = .ok ids r') : r.Built r' ids := by
  have hr : r.graph.Ranged := by
    rw [hf.graph]
    intro key id hfind
    cases hfind
  have hw : r.graph.Whole := by
    rw [hf.graph]
    intro id node hnode
    cases hnode
  obtain ⟨hgrows, hheld, hdraft, hsettings, hline⟩ := buildRoots_grows roots hr h
  exact ⟨hgrows.whole hw, hheld, hdraft, hsettings, hline⟩

/-! ## Compiling -/

theorem parse_apply (r : Registry σ) : parse r =
    (buildRoots r.pending >>= fun ids => convertAll ids >>= fun _ => render : Session σ String) r := rfl

/-- **The steps of a compilation that succeeds**: roots are built, converted in turn from a blank draft,
and rendered. -/
theorem parse_steps {text : String} (hf : r.Fresh) (h : parse r = .ok text r') :
    ∃ ids r₁, buildRoots r.pending r = .ok ids r₁ ∧ r.Built r₁ ids ∧
      r₁.graph.guardedEach r₁.settings.indent false ids {} = .ok () r'.draft ∧
      r'.draft.render r₁.graph r₁.settings r₁.commandLine = .ok text ∧ r₁.Redrafted r' r'.draft := by
  rw [parse_apply] at h
  obtain ⟨ids, r₁, hbuild, h⟩ := ok_of_bind h
  obtain ⟨_, r₂, hconvert, h⟩ := ok_of_bind h
  have hbuilt := buildRoots_built hf hbuild
  obtain ⟨hrender, hlog⟩ := render_ok h
  have hrun := convertAll_redrafted ids r₁
  rw [hbuilt.draft, hf.draft] at hrun
  cases hres : r₁.graph.guardedEach r₁.settings.indent false ids {} with
  | error failure draft =>
    rw [hres] at hrun
    obtain ⟨r₃, hfail, -⟩ := hrun
    rw [hconvert] at hfail
    cases hfail
  | ok u draft =>
    rw [hres] at hrun
    obtain ⟨r₃, hsame, hdone⟩ := hrun
    rw [hconvert] at hsame
    cases hsame
    have hdraft : r'.draft = draft := hlog.draft.trans hdone.draft
    rw [hdone.graph, hdone.settings, hdone.commandLine, hdone.draft] at hrender
    refine ⟨ids, r₁, hbuild, hbuilt, by rw [hres, hdraft], hdraft ▸ hrender, ?_⟩
    exact hdraft ▸ hdone.trans (hdone.draft ▸ hlog)

/-- **A compilation that succeeds** has built a whole graph, has converted its roots in turn from a
blank draft, and has rendered what is written. -/
theorem parse_ok {text : String} (hf : r.Fresh) (h : parse r = .ok text r') :
    ∃ ids r₁, buildRoots r.pending r = .ok ids r₁ ∧ r.Built r₁ ids ∧ r'.graph = r₁.graph ∧
      r'.settings = r.settings ∧
      r'.graph.guardedEach r'.settings.indent false ids {} = .ok () r'.draft ∧
      r'.draft.render r'.graph r'.settings r'.commandLine = .ok text := by
  obtain ⟨ids, r₁, hbuild, hbuilt, hrun, hrender, hdone⟩ := parse_steps hf h
  rw [← hdone.graph, ← hdone.settings] at hrun
  rw [← hdone.graph, ← hdone.settings, ← hdone.commandLine] at hrender
  exact ⟨ids, r₁, hbuild, hbuilt, hdone.graph, hdone.settings.trans hbuilt.settings, hrun, hrender⟩

/-- **What a compilation that succeeds leaves behind**: the whole graph of its roots, a draft that
tracks the walk from them, and its text. -/
structure Compiled (r r' : Registry σ) (ids : List NodeId) (text : String) : Prop where
  built : ∃ r₁, buildRoots r.pending r = .ok ids r₁ ∧ r'.graph = r₁.graph
  settings : r'.settings = r.settings
  whole : r'.graph.Whole
  held : ∀ n ∈ ids, n < r'.graph.size
  tracks : Tracks r'.graph r'.settings.indent false r'.draft (r'.graph.walk ids)
  rendered : r'.draft.render r'.graph r'.settings r'.commandLine = .ok text

/-- Every run that succeeds on a fresh registry is a compilation of its roots. -/
theorem parse_compiled {text : String} (hf : r.Fresh) (h : parse r = .ok text r') :
    ∃ ids, r.Compiled r' ids text := by
  obtain ⟨ids, r₁, hbuild, hbuilt, hgraph, hsettings, hrun, hrender⟩ := parse_ok hf h
  have hwhole : r'.graph.Whole := hgraph ▸ hbuilt.whole
  have hheld : ∀ n ∈ ids, n < r'.graph.size := hgraph ▸ hbuilt.held
  have ht := Graph.guardedEach_tracks hwhole hheld r'.settings.indent false
  rw [hrun] at ht
  exact ⟨ids, ⟨r₁, hbuild, hgraph⟩, hsettings, hwhole, hheld, ht, hrender⟩

namespace Compiled

variable {ids : List NodeId} {text : String}

theorem valid (h : r.Compiled r' ids text) : (r'.graph.walk ids).Valid r'.graph ids :=
  Graph.walk_valid h.whole.bounded

/-- The declarations met are the declared nodes that can be reached. -/
theorem mem_emission (h : r.Compiled r' ids text) (n : NodeId) :
    n ∈ r'.draft.emission.toList ↔ r'.graph.Reachable ids n ∧ r'.graph.isDeclared n = true := by
  rw [h.tracks.emission, List.mem_filter]
  exact and_congr_left fun _ => Graph.mem_preorder_iff h.whole.bounded h.held n

/-- No block is written twice. -/
theorem emission_nodup (h : r.Compiled r' ids text) : r'.draft.emission.toList.Nodup := by
  rw [h.tracks.emission]
  exact h.valid.nodup.filter _

/-- Whatever was reached is closed. -/
theorem mem_closed (h : r.Compiled r' ids text) {n : NodeId} (hn : r'.graph.Reachable ids n) :
    n ∈ (r'.graph.walk ids).closed :=
  Graph.mem_closed_of_seen h.valid (Graph.walk_stack h.whole.bounded)
    ((Graph.mem_preorder_iff h.whole.bounded h.held n).mpr hn)

/-- All that a walk has closed can be reached from where it began. -/
theorem reachable_of_closed (h : r.Compiled r' ids text) {n : NodeId} (hn : n ∈ (r'.graph.walk ids).closed) :
    r'.graph.Reachable ids n :=
  h.valid.reached n ((h.valid.mem_seen_iff n).mpr (Or.inr hn))

/-- The walk from one root: so many steps take it to its end. -/
theorem walk_eq (h : r.Compiled r' ids text) {root : NodeId} {count : Nat}
    (hroots : succeeds (fun ids _ => decide (ids = [root])) (buildRoots r.pending r) = true)
    (hstack : (r'.graph.advance^[count] (r'.graph.enter root {})).stack = []) :
    r'.graph.walk ids = r'.graph.advance^[count] (r'.graph.enter root {}) := by
  obtain ⟨r₁, hbuild, -⟩ := h.built
  rw [hbuild] at hroots
  obtain rfl : ids = [root] := of_decide_eq_true hroots
  have hend := r'.graph.run_iterate (r'.graph.enter root {}) count
  rw [Graph.run_nil hstack] at hend
  exact hend.symm

end Compiled

end

end Registry

end TypeScribe
