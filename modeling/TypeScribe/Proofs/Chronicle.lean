import TypeScribe.Proofs.Emission
import TypeScribe.Proofs.History

/-!
# Construction keeps a sound diary

Construction with a diary does what construction does, and its diary is sound until it succeeds, or says why
it fails (`Schema.trace_follows`). The induction goes along the schema. It carries that the node whose parts
are being built was given no link, which holds because all that is built on the way is newer.

A document that is loaded may be known under its id already, or begin a node under its location. For the
latter the location must not be known, and it is not: nothing is written between looking for it and that
(`Build.trace_follows`).
-/

namespace TypeScribe

open Diary

variable {σ : Type} [Source σ] {start : σ} {settings : Settings}

/-- **What is asked of resolving references** with a diary: it follows resolving them without, and the link
leads to a node with a name. -/
def Diary.Links (start : σ) (settings : Settings) (link : String → Build σ Link)
    (traced : String → Traced σ Link) : Prop :=
  ∀ (ref : String) {d : Diary σ}, d.Sound start →
    Follows (fun l d' => Onward start d.graph.size d d' ∧ d'.graph.Named l.target)
      (Failed start settings) (link ref d.workshop) (traced ref d)

/-! ## Fragments -/

section

variable {link : String → Build σ Link} {traced : String → Traced σ Link} {d : Diary σ} {id : NodeId}

/-- A node is changed that was given no link, or keeps its shape. -/
theorem Traced.changed_follows {f : Node → Node} (b : Nat) (hd : d.Sound start)
    (hlabel : ∀ node, (f node).label = node.label)
    (hkept : HasLink id d.past → ∀ node, (f node).shape = node.shape)
    (hshape : ∀ node ref target, (f node).shape = .reference ref target →
      node.shape = .reference ref target) :
    Follows (fun _ => Onward start b d) (Failed start settings)
      (Build.onGraph (·.adjust id f) d.workshop)
      (Traced.noted .changed (Build.onGraph (·.adjust id f)) d) := by
  refine .noted (Build.onGraph_apply _ _) ⟨hd.adjust hlabel hkept hshape, .after _ ?_ (by simp)⟩
  exact (Graph.Grows.adjust d.graph id f).size

/-- Setting a shape that is no reference is noted as a change of the node. -/
theorem Traced.reshape_follows {shape : Shape} (hd : d.Sound start) (hn : ¬ HasLink id d.past)
    (hshape : ∀ ref target, shape ≠ .reference ref target) :
    Follows (fun _ => Onward start id d) (Failed start settings) (Build.reshape id shape d.workshop)
      (Traced.noted .changed (Build.reshape id shape) d) :=
  Traced.changed_follows id hd (fun _ => rfl) (fun hlink => absurd hlink hn)
    fun _ ref target heq => absurd heq (hshape ref target)

/-- Adding a field is noted as a change of the node, and needs that the node has no link. -/
theorem Traced.addField_follows (field : Field) (b : Nat) (hd : d.Sound start)
    (hn : ¬ HasLink id d.past) :
    Follows (fun _ => Onward start b d) (Failed start settings) (Build.addField id field d.workshop)
      (Traced.noted .changed (Build.addField id field) d) := by
  refine Traced.changed_follows b hd ?_ (fun hlink => absurd hlink hn) ?_
  · intro node
    split <;> rfl
  · intro node ref target heq
    split at heq
    · cases heq
    · exact heq

theorem Traced.augment_follows (augmentations : List Augmentation) (b : Nat) (hd : d.Sound start) :
    Follows (fun _ => Onward start b d) (Failed start settings)
      (Build.augment id augmentations d.workshop)
      (Traced.noted .changed (Build.augment id augmentations) d) :=
  Traced.changed_follows b hd (fun _ => rfl) (fun _ _ => rfl) fun _ _ _ heq => heq

mutual

/-- **Building a fragment** keeps a sound diary, if its keys are not known. -/
theorem Schema.trace_follows (hlink : Diary.Links start settings link traced) (s : Schema) (hs : s.Faithful)
    (name : Option String) (path : String) {keys : List String} {d : Diary σ} (hd : d.Sound start)
    (hkeys : ∀ key ∈ keys, d.graph.knows key = false) :
    Follows (fun id d' => Onward start d.graph.size d d' ∧ id < d'.graph.size) (Failed start settings)
      (s.build link name path keys d.workshop) (s.trace traced name path keys d) := by
  cases hknown : s.facts.id.bind d.graph.find? with
  | some id =>
    rw [Schema.build_known s hknown, Schema.trace_known s hknown]
    obtain ⟨key, -, hfind⟩ := Option.bind_eq_some_iff.mp hknown
    have hreached : Onward start d.graph.size d (d.after (.reached s.facts.source) d.workshop) :=
      ⟨hd.reach _, .after _ (Nat.le_refl _) (by simp)⟩
    exact .ok (d := d.after _ _) ⟨hreached, hd.ranged key id hfind⟩
  | none =>
    match s, hs with
    | .unsupported facts, _ =>
      have hknown : facts.id.bind d.graph.find? = none := hknown
      rw [Schema.build_unsupported hknown, Schema.trace_unsupported hknown]
      exact .error (d := d.after _ _) ((hd.reach _).failed (.unsupported _ _))
    | .fragment _ body groups, .fragment fields hbroken hparts hmembers =>
      have hknown : (Schema.factsOf fields).id.bind d.graph.find? = none := hknown
      rw [Schema.build_added hknown, Schema.trace_new hknown]
      refine (Traced.begin_follows hd hknown hkeys body groups name).bind ?_
      intro _ d₁ h₁
      have hcause : ∀ defect, body = .broken defect → Cause start settings d₁.past defect.failure := by
        intro defect hbody
        obtain ⟨hkind, hdefective⟩ := hbroken defect hbody
        exact .broken h₁.reached hkind hdefective
      refine (Body.trace_follows hlink body hparts _ _ name path h₁.sound h₁.lt h₁.unlinked hcause).bind ?_
      intro _ d₂ h₂
      have h₁₂ := h₁.toOnward.trans h₂
      refine (Group.traceAll_follows hlink groups hmembers _ path h₂.sound).bind ?_
      intro augmentations d₃ h₃
      have h₁₃ := h₁₂.trans (h₃.mono h₁₂.since.size)
      refine (Traced.augment_follows augmentations d.graph.size h₃.sound).bind ?_
      intro _ d₄ h₄
      refine .ok ⟨h₁₃.trans h₄, ?_⟩
      exact Nat.lt_of_lt_of_le h₁.lt
        (Nat.le_trans h₂.since.size (Nat.le_trans h₃.since.size h₄.since.size))

/-- Building the parts of a node that was given no link. -/
theorem Body.trace_follows (hlink : Diary.Links start settings link traced) (body : Body)
    (hparts : ∀ s ∈ body.parts, s.Faithful) (id : NodeId) (facts : Facts) (name : Option String)
    (path : String) {d : Diary σ} (hd : d.Sound start) (hlt : id < d.graph.size)
    (hn : ¬ HasLink id d.past)
    (hcause : ∀ defect, body = .broken defect → Cause start settings d.past defect.failure) :
    Follows (fun _ => Onward start id d) (Failed start settings)
      (body.build link id facts name path d.workshop) (body.trace traced id facts name path d) := by
  match body with
  | .scalar s => exact .ok (hd.onward id)
  | .composite => exact .ok (hd.onward id)
  | .choice alternatives =>
    refine (Schema.traceAll_follows hlink alternatives hparts _ _ hd).bind ?_
    intro ids d₁ h₁
    refine (Traced.reshape_follows h₁.sound (h₁.since.unlinked hlt hn) (by simp)).imp ?_
    exact fun _ d₂ h₂ => (h₁.mono hlt.le).trans h₂
  | .array items =>
    have hitems := hparts items (List.mem_singleton_self items)
    refine (Schema.trace_follows hlink items hitems name _ hd (by simp)).bind ?_
    intro item d₁ h₁
    refine (Traced.reshape_follows h₁.1.sound (h₁.1.since.unlinked hlt hn) (by simp)).imp ?_
    exact fun _ d₂ h₂ => (h₁.1.mono hlt.le).trans h₂
  | .object required properties =>
    refine Body.traceFields_follows hlink properties ?_ required id path hd hlt hn
    exact fun p hp => hparts p.2 (List.mem_map.mpr ⟨p, hp, rfl⟩)
  | .broken defect => exact .error (hd.failed (hcause defect rfl))
  | .reference none => exact .error (hd.failed (.unsupported _ _))
  | .reference (some ref) =>
    refine (hlink ref hd).bind ?_
    rintro l d₁ ⟨h₁, hnamed⟩
    have hsound := h₁.sound.link (Nat.lt_of_lt_of_le hlt h₁.since.size) (h₁.since.unlinked hlt hn) hnamed
    refine .noted (Build.onGraph_apply _ _) ((h₁.mono hlt.le).trans ⟨hsound, .after _ ?_ ?_⟩)
    · exact (Graph.Grows.adjust d₁.graph id _).size
    · rintro n link ⟨⟩
      exact Nat.le_refl _

theorem Body.traceFields_follows (hlink : Diary.Links start settings link traced)
    (properties : List (String × Schema)) (hp : ∀ p ∈ properties, p.2.Faithful)
    (required : List String) (id : NodeId) (path : String) {d : Diary σ} (hd : d.Sound start)
    (hlt : id < d.graph.size) (hn : ¬ HasLink id d.past) :
    Follows (fun _ => Onward start id d) (Failed start settings)
      (Body.buildFields link required properties id path d.workshop)
      (Body.traceFields traced required properties id path d) := by
  match properties with
  | [] => exact .ok (hd.onward id)
  | (name, schema) :: rest =>
    have hschema := hp (name, schema) (List.mem_cons_self ..)
    refine (Schema.trace_follows hlink schema hschema _ _ hd (by simp)).bind ?_
    rintro type d₁ ⟨h₁, -⟩
    refine (Traced.addField_follows _ d.graph.size h₁.sound (h₁.since.unlinked hlt hn)).bind ?_
    intro _ d₂ h₂
    have h₁₂ := h₁.trans h₂
    refine (Body.traceFields_follows hlink rest (fun p hmem => hp p (List.mem_cons_of_mem _ hmem)) required
      id path h₂.sound (Nat.lt_of_lt_of_le hlt h₁₂.since.size) (h₁₂.since.unlinked hlt hn)).imp ?_
    exact fun _ d₃ h₃ => (h₁₂.mono hlt.le).trans h₃

/-- A list of fragments is built as its trace tells. -/
theorem Schema.traceAll_follows (hlink : Diary.Links start settings link traced) (schemas : List Schema)
    (hs : ∀ s ∈ schemas, s.Faithful) (path : String) (index : Nat) {d : Diary σ}
    (hd : d.Sound start) :
    Follows (fun _ => Onward start d.graph.size d) (Failed start settings)
      (Schema.buildAll link schemas path index d.workshop)
      (Schema.traceAll traced schemas path index d) := by
  match schemas with
  | [] => exact .ok (hd.onward _)
  | schema :: rest =>
    refine (Schema.trace_follows hlink schema (hs schema (List.mem_cons_self ..)) none _ hd (by simp)).bind ?_
    rintro id d₁ ⟨h₁, -⟩
    refine (Schema.traceAll_follows hlink rest (fun s hmem => hs s (List.mem_cons_of_mem _ hmem)) path
      (index + 1) h₁.sound).bind ?_
    exact fun ids d₂ h₂ => .ok (h₁.trans (h₂.mono h₁.since.size))

theorem Group.traceAll_follows (hlink : Diary.Links start settings link traced) (groups : List Group)
    (hg : ∀ group ∈ groups, ∀ s ∈ group.parts, s.Faithful) (facts : Facts) (path : String)
    {d : Diary σ} (hd : d.Sound start) :
    Follows (fun _ => Onward start d.graph.size d) (Failed start settings)
      (Group.buildAll link groups facts path d.workshop)
      (Group.traceAll traced groups facts path d) := by
  match groups with
  | [] => exact .ok (hd.onward _)
  | .malformed keyword :: _ => exact .error (hd.failed (.unsupported _ _))
  | .members keyword schemas :: rest =>
    have hschemas := hg (.members keyword schemas) (List.mem_cons_self ..)
    refine (Schema.traceAll_follows hlink schemas hschemas _ _ hd).bind ?_
    intro members d₁ h₁
    refine (Group.traceAll_follows hlink rest (fun group hmem => hg group (List.mem_cons_of_mem _ hmem))
      facts path h₁.sound).bind ?_
    exact fun more d₂ h₂ => .ok (h₁.trans (h₂.mono h₁.since.size))

end

end

/-! ## References -/

namespace Build

variable {d : Diary σ}

/-- The link to a key that is known leads to a node with a name, or there is no such link. -/
theorem linkTo_follows (ref : String) {key : String} (hd : d.Sound start)
    (hknown : d.graph.knows key = true) :
    Follows (fun l d' => Onward start d.graph.size d d' ∧ d'.graph.Named l.target)
      (Failed start settings) (linkTo ref key d.workshop) (Traced.step (linkTo ref key) d) := by
  obtain ⟨id, hfind⟩ := Option.isSome_iff_exists.mp hknown
  obtain ⟨node, hnode⟩ := Graph.exists_node (hd.ranged key id hfind)
  have happly : linkTo ref key d.workshop = _ := linkTo_apply hfind hnode
  by_cases hname : node.name = ""
  · rw [if_pos hname] at happly
    rw [happly, Traced.step_error happly]
    exact .error (hd.failed (.unnamed _ _))
  · rw [if_neg hname] at happly
    rw [happly, Traced.step_ok happly]
    exact .ok ⟨hd.onward _, id, node, hfind, hnode, hname⟩

/-- A key is known once it is bound. -/
theorem bindNew_follows (key : String) {id : NodeId} (b : Nat) (hd : d.Sound start)
    (hlt : id < d.graph.size) :
    Follows (fun _ d' => Onward start b d d' ∧ d'.graph.knows key = true) (Failed start settings)
      (bindNew key id d.workshop) (Traced.noted .changed (bindNew key id) d) := by
  refine .noted (onGraph_apply _ _) ⟨⟨hd.bindNew key hlt, .after _ ?_ (by simp)⟩, ?_⟩
  · change d.graph.size ≤ (if d.graph.knows key = true then d.graph else d.graph.bind key id).size
    split <;> exact Nat.le_refl _
  · change (if d.graph.knows key = true then d.graph else d.graph.bind key id).knows key = true
    split
    · assumption
    · exact (Graph.knows_bind _ key id key).mpr (Or.inl rfl)

/-- **Resolving references** keeps a sound diary, whatever the budget. -/
theorem trace_follows (settings : Settings) (budget : Nat) :
    Diary.Links start settings (resolve settings budget) (trace settings budget) := by
  intro ref d hd
  cases hkey : d.graph.keyOf settings ref with
  | error failure =>
    rw [resolve_failed budget hkey, trace_failed budget hkey]
    exact .error (hd.failed (.unlocated (locate_of_keyOf hkey)))
  | ok key =>
    cases hknown : d.graph.knows key with
    | true =>
      rw [resolve_known budget hkey hknown, trace_known budget hkey hknown]
      exact linkTo_follows ref hd hknown
    | false =>
      match budget with
      | 0 =>
        rw [resolve_endless hkey hknown, trace_endless hkey hknown]
        exact .error (hd.failed .endless)
      | budget + 1 =>
        rw [resolve_new budget hkey hknown, trace_new budget hkey hknown]
        have hasked : Sound start { d with workshop := d.workshop.asking ref key } :=
          hd.quiet rfl (hd.source.load key)
        cases hload : (Source.load d.workshop.source key).result with
        | error fault =>
          exact .error (d := { d with workshop := d.workshop.asking ref key })
            (hasked.failed (.unloaded hd.source hload))
        | ok fields =>
          have hkeys : ∀ k ∈ [key], d.graph.knows k = false := by simpa using hknown
          refine (Schema.trace_follows (trace_follows settings budget) _ (Schema.ofJson_faithful _) none _
            hasked hkeys).bind ?_
          rintro id d₁ ⟨h₁, hlt⟩
          have h₀₁ : Onward start d.graph.size d d₁ :=
            ⟨h₁.sound, h₁.since.past, h₁.since.size, h₁.since.links⟩
          refine (bindNew_follows key d.graph.size h₁.sound hlt).bind ?_
          rintro _ d₂ ⟨h₂, hknown₂⟩
          refine (linkTo_follows ref h₂.sound hknown₂).imp ?_
          rintro l d₃ ⟨h₃, hnamed⟩
          have h₀₂ := h₀₁.trans h₂
          exact ⟨h₀₂.trans (h₃.mono h₀₂.since.size), hnamed⟩

/-- **Building a document** keeps a sound diary. -/
theorem traceRoot_follows (schema : Json) (hd : d.Sound start) :
    Follows (fun id d' => Onward start d.graph.size d d' ∧ id < d'.graph.size) (Failed start settings)
      (root settings schema none "#" [] d.workshop) (traceRoot settings schema d) :=
  Schema.trace_follows (trace_follows settings (Source.budget d.workshop.source schema)) _
    (Schema.ofJson_faithful schema) none "#" hd (by simp)

end Build

/-! ## Roots -/

namespace Registry

/-- A registry and a diary of the same construction, which goes on. -/
structure Keeps (start : σ) (r : Registry σ) (d : Diary σ) : Prop where
  workshop : r.workshop = d.workshop
  sound : d.Sound start

/-- A registry and a diary of the same construction, which has failed. -/
structure Lost (start : σ) (settings : Settings) (failure : Failure) (r : Registry σ) (d : Diary σ) :
    Prop where
  workshop : r.workshop = d.workshop
  failed : d.Failed start settings failure

/-- **Building roots in turn** keeps a sound diary until it succeeds, or says why it fails. -/
theorem buildRoots_traced (roots : List Json) : ∀ {r : Registry σ} {d : Diary σ}, Keeps start r d →
    Together (Keeps start) (Lost start r.settings) (buildRoots roots r)
      (Build.traceRoots r.settings roots d) := by
  induction roots with
  | nil => exact fun h => .ok h
  | cons schema rest ih =>
    intro r d h
    have hroot : Follows _ (Failed start r.settings) _ _ := Build.traceRoot_follows schema h.sound
    rw [Build.traceRoots_apply, buildRoots_apply, h.workshop]
    generalize Build.root r.settings schema none "#" [] d.workshop = built at hroot
    generalize Build.traceRoot r.settings schema d = traced at hroot
    cases hroot with
    | error holds => exact .error ⟨rfl, holds⟩
    | @ok id d₁ holds =>
      obtain ⟨h₁, hlt⟩ := holds
      obtain ⟨node, hnode⟩ := Graph.exists_node hlt
      have hnode' : d₁.workshop.graph.node? id = some node := hnode
      simp only [hnode, hnode']
      split
      · exact .error ⟨rfl, h₁.sound.failed (.unnamed _ _)⟩
      · have hnext : Keeps start { r with pending := rest, workshop := d₁.workshop } d₁ := ⟨rfl, h₁.sound⟩
        exact Together.bind (ih hnext) fun _ _ _ h₂ => .ok h₂

/-! ## Compilations -/

variable {r r' : Registry σ} {failure : Failure}

/-- **Where a compilation fails**: in construction, or in conversion. The graph is what construction has
left. -/
theorem parse_fails (hf : r.Fresh) (h : parse r = .error failure r') :
    (∃ r₁, buildRoots r.pending r = .error failure r₁ ∧ r'.graph = r₁.graph) ∨
    ∃ ids r₁, buildRoots r.pending r = .ok ids r₁ ∧ r'.graph = r₁.graph ∧
      Fault r₁.graph r.settings.indent false (r₁.graph.walk ids) failure := by
  rw [parse_apply] at h
  cases hbuild : buildRoots r.pending r with
  | error cause r₁ =>
    rw [bind_error _ hbuild] at h
    cases h
    exact Or.inl ⟨_, rfl, rfl⟩
  | ok ids r₁ =>
    rw [bind_ok _ hbuild] at h
    have hbuilt := buildRoots_built hf hbuild
    have htracks := Graph.guardedEach_tracks hbuilt.whole hbuilt.held r₁.settings.indent false
    have hrun := convertAll_redrafted ids r₁
    rw [hbuilt.draft, hf.draft] at hrun
    cases hres : r₁.graph.guardedEach r₁.settings.indent false ids {} with
    | error cause draft =>
      rw [hres] at hrun htracks
      obtain ⟨r₂, hconvert, hdone⟩ := hrun
      rw [bind_error _ hconvert] at h
      cases h
      exact Or.inr ⟨ids, r₁, rfl, hdone.graph, hbuilt.settings ▸ htracks⟩
    | ok u draft =>
      rw [hres] at hrun htracks
      obtain ⟨r₂, hconvert, hdone⟩ := hrun
      rw [bind_ok _ hconvert] at h
      rw [← hdone.graph, ← hdone.settings, ← hdone.draft] at htracks
      obtain ⟨text, r₃, hrender⟩ := render_succeeds (hdone.graph.symm ▸ hbuilt.whole) htracks
      rw [hrender] at h
      cases h

/-- The roots of a registry built in turn, with a diary. -/
def traced (r : Registry σ) : EStateM.Result Failure (Diary σ) (List NodeId) :=
  Build.traceRoots r.settings r.pending ⟨r.workshop, []⟩

/-- **What is noted** while the roots of a registry are built. -/
def history (r : Registry σ) : List Moment := (leaves r.traced).past

/-- A fresh registry begins a sound diary. -/
theorem Fresh.sound (hf : r.Fresh) : Sound r.workshop.source ⟨r.workshop, []⟩ := by
  have hgraph : Diary.graph ⟨r.workshop, []⟩ = {} := hf.graph
  refine ⟨.refl _, ?_, ?_, ?_⟩
  · rw [hgraph]
    intro key id hfind
    cases hfind
  · rw [hgraph]
    intro n id hid
    cases hid
  · rw [hgraph]
    exact .nil

/-- A compilation leaves the graph that construction has left. -/
theorem graph_leaves_parse (hf : r.Fresh) :
    (leaves (parse r)).graph = (leaves (buildRoots r.pending r)).graph := by
  cases h : parse r with
  | ok text r' =>
    obtain ⟨ids, r₁, hbuild, -, -, -, hdone⟩ := parse_steps hf h
    rw [hbuild]
    exact hdone.graph
  | error failure r' =>
    rcases parse_fails hf h with ⟨r₁, hbuild, hgraph⟩ | ⟨ids, r₁, hbuild, hgraph, -⟩
    · rw [hbuild]
      exact hgraph
    · rw [hbuild]
      exact hgraph

/-- Building the queued roots of a fresh registry is what its diary tells. -/
theorem Fresh.traced (hf : r.Fresh) : Together (Keeps r.workshop.source)
    (Lost r.workshop.source r.settings) (buildRoots r.pending r) r.traced :=
  buildRoots_traced r.pending ⟨rfl, hf.sound⟩

/-- **Construction with a diary does what construction does**: it has the same outcome, in the same
workshop. -/
theorem mapState_traced (hf : r.Fresh) :
    mapState Diary.workshop r.traced = mapState Registry.workshop (buildRoots r.pending r) := by
  have htraced := hf.traced
  generalize buildRoots r.pending r = built at htraced ⊢
  generalize r.traced = traced at htraced ⊢
  cases htraced with
  | ok states => rw [mapState, mapState, states.workshop]
  | error states => rw [mapState, mapState, states.workshop]

/-- **The history of a compilation** leads to the graph that it leaves, whether it succeeds or fails. -/
theorem history_parse (hf : r.Fresh) : History r.history (leaves (parse r)).graph := by
  have htraced := hf.traced
  rw [graph_leaves_parse hf, history]
  generalize buildRoots r.pending r = built at htraced ⊢
  generalize r.traced = traced at htraced ⊢
  cases htraced with
  | @ok _ r₁ d states =>
    have hgraph : r₁.graph = d.graph := congrArg Workshop.graph states.workshop
    exact hgraph ▸ states.sound.history
  | @error _ r₁ d states =>
    have hgraph : r₁.graph = d.graph := congrArg Workshop.graph states.workshop
    exact hgraph ▸ states.failed.history

/-- **Why a compilation fails**: construction has a cause, or conversion a fault. -/
theorem cause_parse (hf : r.Fresh) (h : parse r = .error failure r') :
    Cause r.workshop.source r.settings r.history failure ∨
      ∃ g w, Fault g r.settings.indent false w failure := by
  rcases parse_fails hf h with ⟨r₁, hbuild, -⟩ | ⟨ids, r₁, -, -, hfault⟩
  · have htraced := hf.traced
    rw [hbuild] at htraced
    rw [history]
    generalize r.traced = traced at htraced ⊢
    cases htraced with
    | error states => exact Or.inl states.failed.cause
  · exact Or.inr ⟨_, _, hfault⟩

end Registry

end TypeScribe
