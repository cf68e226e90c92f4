import TypeScribe.Proofs.Course
import TypeScribe.Proofs.Depth
import TypeScribe.Proofs.Shelves

/-!
# Compilation comes to an end

Construction has a budget of nested loads, and conversion a bound on how many nodes it enters one inside
the other. Neither is ever used up, so that both are what they would be without (`parse_ends`): no
compilation fails for want of budget, a larger budget makes no difference to the construction of any
document, nor a larger depth to the conversion of any node. On the way no location is asked for twice.
-/

namespace TypeScribe

/-- Rendering fails for one cause only. -/
theorem Draft.blocks_error {draft : Draft} {failure : Failure} : ∀ {ids : List NodeId},
    draft.blocks ids = .error failure → failure = .declarationUnfinished := by
  intro ids
  induction ids with
  | nil =>
    intro h
    cases h
  | cons id rest ih =>
    intro h
    rw [blocks, List.mapM_cons] at h
    cases hblock : (draft.page id).block with
    | none =>
      rw [hblock] at h
      exact (Except.error.inj h).symm
    | some block =>
      rw [hblock] at h
      change ((draft.blocks rest).bind fun more => .ok (block :: more)) = .error failure at h
      cases hrest : draft.blocks rest with
      | ok more =>
        rw [hrest] at h
        cases h
      | error cause =>
        rw [hrest] at h
        obtain rfl : cause = failure := Except.error.inj h
        exact ih hrest

/-- Rendering has no loop that could fail to end. -/
theorem Draft.render_ne_endless {draft : Draft} {g : Graph} {settings : Settings} {commandLine : String}
    {failure : Failure} (h : draft.render g settings commandLine = .error failure) :
    failure ≠ .endless := by
  rw [render] at h
  cases hblocks : draft.blocks (draft.kept g) with
  | ok blocks =>
    rw [hblocks] at h
    cases h
  | error cause =>
    rw [hblocks] at h
    obtain rfl : cause = failure := Except.error.inj h
    simp [blocks_error hblocks]

namespace Registry

variable {σ : Type}

/-- A registry whose source notes what it is asked for. -/
def recorded (r : Registry σ) : Registry (Recorded σ) :=
  { r with workshop := { r.workshop with source := ⟨r.workshop.source, []⟩ } }

/-- A registry without the notes of its source. -/
def plain (r : Registry (Recorded σ)) : Registry σ := { r with workshop := r.workshop.plain }

/-- A registry is **beside** its record: the same but for the notes, and no location noted twice. -/
structure Beside [Source σ] (start : σ) (r : Registry (Recorded σ)) (q : Registry σ) : Prop where
  plain : q = r.plain
  rest : Recording.Rest r.settings start r.workshop q.workshop

/-- What is left of it when a step fails. -/
structure Stopped (failure : Failure) (r : Registry (Recorded σ)) (q : Registry σ) : Prop where
  plain : q = r.plain
  nodup : r.workshop.source.asked.Nodup
  cause : failure ≠ .endless

variable [Source σ] {start : σ} {r r' : Registry (Recorded σ)} {q q' : Registry σ}

/-- A registry is beside its record as long as nothing was asked for. -/
theorem beside_recorded (q : Registry σ) : Beside q.workshop.source q.recorded q :=
  ⟨rfl, rfl, by simp, List.nodup_nil, by simp [recorded], .refl _,
    by simp [Graph.unknown, Settings.locations]⟩

/-- A change that leaves the source and the graph alone. -/
theorem Beside.update (h : Beside start r q) (hplain : q' = r'.plain)
    (hsource : r'.workshop.source = r.workshop.source) (hgraph : r'.graph = r.graph) :
    Beside start r' q' where
  plain := hplain
  rest := by
    have hrest : Recording.Rest r.settings start r'.workshop q'.workshop :=
      h.rest.update (by rw [hplain]; rfl) hsource (by simp) fun location hknown => by
        change r'.graph.knows location = true ∨ _
        rwa [hgraph]
    exact { hrest with room := by simp [Graph.unknown, Settings.locations] }

/-! ## Converting and rendering -/

/-- Converting a root goes the same way beside a construction that notes what it asks for. -/
theorem convert_together {id : NodeId} (h : Beside start r q) (hw : r.graph.Whole)
    (hid : id < r.graph.size) :
    Together (fun r' q' => Beside start r' q' ∧ r'.graph = r.graph) Stopped
      (convert id r) (convert id q) := by
  obtain rfl := h.plain
  change Together _ _ (writing (fun graph => graph.convert r.settings.indent id) r)
    (writing (fun graph => graph.convert r.settings.indent id) r.plain)
  cases hstep : r.graph.convert r.settings.indent id r.draft with
  | ok a draft =>
    have hleft : writing (fun graph => graph.convert r.settings.indent id) r =
        .ok a (r.withDraft draft) := by
      rw [writing, hstep]
    have hright : writing (fun graph => graph.convert r.settings.indent id) r.plain =
        .ok a (r.plain.withDraft draft) := by
      rw [writing, show r.plain.graph.convert r.settings.indent id r.plain.draft = _ from hstep]
    rw [hleft, hright]
    exact .ok ⟨h.update rfl rfl rfl, rfl⟩
  | error failure draft =>
    have hleft : writing (fun graph => graph.convert r.settings.indent id) r =
        .error failure (r.withDraft draft) := by
      rw [writing, hstep]
    have hright : writing (fun graph => graph.convert r.settings.indent id) r.plain =
        .error failure (r.plain.withDraft draft) := by
      rw [writing, show r.plain.graph.convert r.settings.indent id r.plain.draft = _ from hstep]
    rw [hleft, hright]
    exact .error ⟨rfl, h.rest.nodup, Graph.convert_ne_endless hw hid hstep⟩

/-- Converting the roots in turn goes the same way, as the graph is whole and stays as it is. -/
theorem convertAll_together (ids : List NodeId) : ∀ {r : Registry (Recorded σ)} {q : Registry σ},
    Beside start r q → r.graph.Whole → (∀ id ∈ ids, id < r.graph.size) →
    Together (Beside start) Stopped (convertAll ids r) (convertAll ids q) := by
  induction ids with
  | nil => exact fun h _ _ => .ok h
  | cons id rest ih =>
    intro r q h hw hids
    refine Together.bind (convert_together h hw (hids id (List.mem_cons_self ..))) ?_
    rintro _ r₁ q₁ ⟨h₁, hgraph⟩
    exact ih h₁ (hgraph ▸ hw) fun n hn => hgraph ▸ hids n (List.mem_cons_of_mem _ hn)

theorem render_together (h : Beside start r q) :
    Together (Beside start) Stopped (render r) (render q) := by
  obtain rfl := h.plain
  have hsame : r.plain.draft.render r.plain.graph r.plain.settings r.plain.commandLine =
      r.draft.render r.graph r.settings r.commandLine := rfl
  rw [render_apply, render_apply, hsame]
  cases hrender : r.draft.render r.graph r.settings r.commandLine with
  | ok text => exact .ok (h.update rfl rfl rfl)
  | error failure => exact .error ⟨rfl, h.rest.nodup, Draft.render_ne_endless hrender⟩

/-! ## Building -/

/-- A step of construction that keeps the record of the workshop keeps that of the registry. -/
theorem building_together {α : Type} {step : Build (Recorded σ) α} {step' : Build σ α}
    (h : Together (Recording.Rest r.settings start) Recording.Failed (step r.workshop)
      (step' r.workshop.plain)) :
    Together (Beside start) Stopped (building step r) (building step' r.plain) := by
  have hworkshop : r.plain.workshop = r.workshop.plain := rfl
  rw [building, building, hworkshop]
  generalize step r.workshop = left at h ⊢
  generalize step' r.workshop.plain = right at h ⊢
  cases h with
  | ok states => exact .ok ⟨by rw [states.plain]; rfl, states⟩
  | error states => exact .error ⟨by rw [states.plain]; rfl, states.nodup, states.cause⟩

variable [LawfulSource σ]

/-- Building a root goes the same way, if the source has nothing at the empty location. -/
theorem build_together (hempty : Source.Withholds start "") (h : Beside start r q) (schema : Json) :
    Together (Beside start) Stopped (build schema none "#" [] r) (build schema none "#" [] q) := by
  obtain rfl := h.plain
  exact building_together (Recording.build hempty h.rest none "#" (Nat.le_refl _) (Nat.le_refl _))

/-- **Building roots in turn** keeps the record. -/
theorem buildRoots_together (hempty : Source.Withholds start "") (roots : List Json) :
    ∀ {r : Registry (Recorded σ)} {q : Registry σ}, Beside start r q →
      Together (Beside start) Stopped (buildRoots roots r) (buildRoots roots q) := by
  induction roots with
  | nil => exact fun h => .ok h
  | cons schema rest ih =>
    intro r q h
    obtain rfl := h.plain
    have hpending : Beside start { r with pending := rest } { r.plain with pending := rest } :=
      h.update rfl rfl rfl
    rw [buildRoots, buildRoots]
    refine Together.bind (.ok hpending) ?_
    intro _ r₁ q₁ h₁
    refine Together.bind (build_together hempty h₁ schema) ?_
    intro id r₂ q₂ h₂
    obtain rfl := h₂.plain
    have hget {τ : Type} (p : Registry τ) : (get : Session τ (Registry τ)) p = .ok p p := rfl
    have hsame : r₂.plain.graph.node? id = r₂.graph.node? id := rfl
    rw [bind_ok _ (hget r₂), bind_ok _ (hget r₂.plain), hsame]
    cases r₂.graph.node? id with
    | none => exact .error ⟨rfl, h₂.rest.nodup, by simp⟩
    | some node =>
      by_cases hname : node.name = ""
      · simp only [hname, if_true]
        exact .error ⟨rfl, h₂.rest.nodup, by simp⟩
      · simp only [hname, if_false]
        exact Together.bind (ih h₂) fun _ _ _ h₃ => .ok h₃

/-- **Compiling** keeps the record. -/
theorem parse_together (hempty : Source.Withholds start "") (hf : q.Fresh) (h : Beside start r q) :
    Together (Beside start) Stopped (parse r) (parse q) := by
  have hroots := buildRoots_together hempty r.pending h
  obtain rfl := h.plain
  have hroots : Together (Beside start) Stopped (buildRoots r.pending r)
      (buildRoots r.pending r.plain) := hroots
  change Together _ _ ((buildRoots r.pending >>= fun roots => convertAll roots >>= fun _ => render) r)
    ((buildRoots r.pending >>= fun roots => convertAll roots >>= fun _ => render) r.plain)
  cases hright : buildRoots r.pending r.plain with
  | error failure q₁ =>
    rw [bind_error _ hright]
    rw [hright] at hroots
    cases hleft : buildRoots r.pending r with
    | ok ids r₁ =>
      rw [hleft] at hroots
      cases hroots
    | error failure' r₁ =>
      rw [bind_error _ hleft]
      rw [hleft] at hroots
      cases hroots with
      | error states => exact .error states
  | ok ids q₁ =>
    rw [bind_ok _ hright]
    rw [hright] at hroots
    cases hleft : buildRoots r.pending r with
    | error failure r₁ =>
      rw [hleft] at hroots
      cases hroots
    | ok ids' r₁ =>
      rw [bind_ok _ hleft]
      rw [hleft] at hroots
      cases hroots with
      | ok h₁ =>
        have hbuilt := buildRoots_built hf hright
        obtain rfl := h₁.plain
        exact Together.bind (convertAll_together ids h₁ hbuilt.whole hbuilt.held)
          fun _ _ _ h₂ => render_together h₂

end Registry

section

variable {σ : Type} [Source σ] [LawfulSource σ] {r : Registry σ}

/-- No compilation fails for want of budget. -/
theorem Registry.parse_ne_endless {r' : Registry σ} {failure : Failure} (hf : r.Fresh)
    (hempty : Source.Withholds r.workshop.source "") (h : parse r = .error failure r') :
    failure ≠ .endless := by
  have htogether := parse_together hempty hf r.beside_recorded
  rw [h] at htogether
  generalize parse r.recorded = recorded at htogether
  cases htogether with
  | error states => exact states.cause

/-- **Building a document is not bounded by its budget**: a larger one makes no difference. -/
theorem Build.root_eq {settings : Settings} {w : Workshop σ} (hempty : Source.Withholds w.source "")
    (schema : Json) (name : Option String) (path : String) {budget : Nat}
    (hbudget : Source.budget w.source schema ≤ budget) :
    (Schema.ofJson schema).build (resolve settings budget) name path [] w =
      root settings schema name path [] w := by
  let noted : Workshop (Recorded σ) := { w with source := ⟨w.source, []⟩ }
  have hrest : Recording.Rest settings w.source noted w :=
    ⟨rfl, by simp, List.nodup_nil, by simp [noted], .refl _, by simp [Graph.unknown, Settings.locations]⟩
  have hlarge := Recording.build hempty hrest name path (Nat.le_refl _) hbudget
  have hsmall := Recording.build hempty hrest name path (Nat.le_refl _)
    (Nat.le_refl (Source.budget w.source schema))
  have hstate := hlarge.eq_mapState Workshop.plain (fun _ _ h => h.plain) fun _ _ _ h => h.plain
  have hstate' := hsmall.eq_mapState Workshop.plain (fun _ _ h => h.plain) fun _ _ _ h => h.plain
  exact hstate.trans hstate'.symm

/-- **Compilation comes to an end and loads every location once.** A compilation, held against one whose
source notes what it is asked for, does the same, and no location is noted twice, whether it succeeds or
fails. It never fails for want of budget. A larger budget makes no difference to the construction of any
document, at any time, and a larger depth none to the conversion of any root. Documents are only asked not
to be served under the empty text, and a shelf of files never does that. -/
theorem parse_ends (hf : r.Fresh) (hempty : Source.Withholds r.workshop.source "") :
    Together
      (fun (q : Registry (Recorded σ)) r' => r' = q.plain ∧ q.workshop.source.asked.Nodup)
      (fun failure q r' => r' = q.plain ∧ q.workshop.source.asked.Nodup ∧ failure ≠ .endless)
      (Registry.parse r.recorded) (Registry.parse r) ∧
    (∀ w : Workshop σ, Source.Becomes r.workshop.source w.source → ∀ schema name path budget,
      Source.budget w.source schema ≤ budget →
        (Schema.ofJson schema).build (Build.resolve r.settings budget) name path [] w =
          Build.root r.settings schema name path [] w) ∧
    (∀ ids r₁, Registry.buildRoots r.pending r = .ok ids r₁ → ∀ id ∈ ids, ∀ depth,
      r₁.graph.size ≤ depth → ∀ d, r₁.graph.convertWithin r.settings.indent depth id d =
        r₁.graph.convert r.settings.indent id d) ∧
    ∀ tree : Files.Tree, tree.home.Plain → tree.entry? tree.home = some .directory →
      Source.Withholds (⟨tree, []⟩ : Files.Shelf) "" := by
  refine ⟨?_, ?_, ?_, fun tree => Files.Shelf.withholds_empty⟩
  · have hbeside : Registry.Beside r.workshop.source r.recorded r :=
      ⟨rfl, rfl, by simp, List.nodup_nil, by simp [Registry.recorded], .refl _,
        by simp [Graph.unknown, Settings.locations]⟩
    have h := Registry.parse_together hempty hf hbeside
    exact h.imp (fun _ _ h => ⟨h.plain, h.rest.nodup⟩) fun _ _ _ h => ⟨h.plain, h.nodup, h.cause⟩
  · exact fun w hw schema name path budget => Build.root_eq (hempty.becomes hw) schema name path
  · intro ids r₁ hbuild id hid depth hdepth d
    have hbuilt := Registry.buildRoots_built hf hbuild
    exact Graph.convertWithin_eq hbuilt.whole r.settings.indent hdepth (hbuilt.held id hid) d

end

/-- Two documents that refer to each other and say nothing else, beside two others of one id that lead to
them. -/
def roundabout : Registry Catalog := .queued { rootDir := .str "d" } ⟨[
    ("d/a", .obj [("title", .str "A"), ("$ref", .str "b")]),
    ("d/b", .obj [("title", .str "B"), ("$ref", .str "a")]),
    ("d/c", .obj [("id", .str "x"), ("title", .str "C"), ("properties", .obj [
      ("a", .obj [("$ref", .str "a")]), ("d", .obj [("$ref", .str "d")])])]),
    ("d/d", .obj [("id", .str "x"), ("title", .str "D"), ("type", .str "string")])]⟩ "" [
  .obj [("title", .str "R"), ("type", .arr [.str "string"]), ("anyOf", .arr [
    .obj [("$ref", .str "c")], .obj [("$ref", .str "b")]])]]

theorem parse_ends_roundabout :
    roundabout.Fresh ∧ Source.Withholds roundabout.workshop.source "" ∧
    (∃ text q, Registry.parse roundabout.recorded = .ok text q ∧
      text = "type R = string & (C | B);\n\ninterface C \x7b\n  a?: A;\n  d?: C;\n\x7d\n\n" ++
        "type A = B;\n\ntype B = A;" ∧ q.workshop.source.asked = ["d/c", "d/a", "d/b", "d/d"]) ∧
    Together
      (fun (q : Registry (Recorded Catalog)) r' => r' = q.plain ∧ q.workshop.source.asked.Nodup)
      (fun failure q r' => r' = q.plain ∧ q.workshop.source.asked.Nodup ∧ failure ≠ .endless)
      (Registry.parse roundabout.recorded) (Registry.parse roundabout) := by
  have hfresh : roundabout.Fresh := Registry.fresh_queued _ _ _ _
  have hempty : Source.Withholds roundabout.workshop.source "" := Catalog.withholds rfl
  refine ⟨hfresh, hempty, ?_, (parse_ends hfresh hempty).1⟩
  obtain ⟨text, q, hparse, htest⟩ := exists_of_succeeds (Registry.parse roundabout.recorded)
    (fun text (q : Registry (Recorded Catalog)) => decide (
      text = "type R = string & (C | B);\n\ninterface C \x7b\n  a?: A;\n  d?: C;\n\x7d\n\n" ++
        "type A = B;\n\ntype B = A;" ∧ q.workshop.source.asked = ["d/c", "d/a", "d/b", "d/d"]))
    (by decide +kernel)
  exact ⟨text, q, hparse, of_decide_eq_true htest⟩

end TypeScribe
