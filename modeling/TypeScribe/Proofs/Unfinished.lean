import TypeScribe.Proofs.Course

/-!
# Texts that are not finished

Conversion may read the text of a node that is still being converted. If the node is declared, its name
is there; if it is not, there is nothing to read, and only behind a reference is this a failure.

The guarded conversion fails wherever there is nothing to read, and where it succeeds it writes what
conversion writes (`Graph.guardedEach_agrees`). So a compilation has used a text that was not finished
exactly if the guarded conversion of its roots fails. This is the case when the walk from the roots has
gone back to an undeclared node by an arrow that is no reference.
-/

namespace TypeScribe

/-! ## Where guards let pass -/

/-- A step agrees with another if it does the same wherever it succeeds. -/
def Agrees {α : Type} (m m' : Write α) : Prop := ∀ d a d', m d = .ok a d' → m' d = .ok a d'

namespace Agrees

variable {α β : Type} {m m' : Write α} {k k' : α → Write β}

theorem refl (m : Write α) : Agrees m m := fun _ _ _ h => h

theorem bind (h : Agrees m m') (hk : ∀ a, Agrees (k a) (k' a)) : Agrees (m >>= k) (m' >>= k') := by
  intro d b d'' hrun
  obtain ⟨a, d', hm, hk'⟩ := ok_of_bind hrun
  rw [bind_ok _ (h d a d' hm)]
  exact hk a d' b d'' hk'

section

variable {convert convert' : NodeId → Write Unit}

theorem texts (h : ∀ id, Agrees (convert id) (convert' id)) (ids : List NodeId) :
    Agrees (Write.texts convert ids) (Write.texts convert' ids) := by
  induction ids with
  | nil => exact refl _
  | cons id rest ih => exact bind (h id) fun _ => bind (refl _) fun _ => bind ih fun _ => refl _

theorem groups (h : ∀ id, Agrees (convert id) (convert' id)) (augmentations : List Augmentation) :
    Agrees (Write.groups convert augmentations) (Write.groups convert' augmentations) := by
  induction augmentations with
  | nil => exact refl _
  | cons a rest ih => exact bind (texts h a.members) fun _ => bind ih fun _ => refl _

theorem fields (h : ∀ id, Agrees (convert id) (convert' id)) (fields : List Field) :
    Agrees (Write.fields convert fields) (Write.fields convert' fields) := by
  induction fields with
  | nil => exact refl _
  | cons f rest ih => exact bind (h f.type) fun _ => bind (refl _) fun _ => bind ih fun _ => refl _

theorem expression (h : ∀ id, Agrees (convert id) (convert' id)) (graph : Graph) (indent : Json)
    (node : Node) (augmentation : String) :
    Agrees (Write.expression convert graph indent node augmentation)
      (Write.expression convert' graph indent node augmentation) := by
  cases hshape : node.shape with
  | scalar s =>
    simp only [Write.expression, hshape]
    exact refl _
  | composite =>
    simp only [Write.expression, hshape]
    exact refl _
  | choice alternatives =>
    simp only [Write.expression, hshape]
    exact bind (texts h alternatives) fun _ => refl _
  | array item =>
    cases item with
    | none =>
      simp only [Write.expression, hshape]
      exact refl _
    | some item =>
      simp only [Write.expression, hshape]
      exact bind (h item) fun _ => refl _
  | object fs =>
    simp only [Write.expression, hshape]
    exact bind (fields h fs) fun _ => refl _
  | reference ref target =>
    simp only [Write.expression, hshape]
    cases graph.find? target with
    | none => exact refl _
    | some id => exact bind (h id) fun _ => refl _

theorem body (h : ∀ id, Agrees (convert id) (convert' id)) (graph : Graph) (indent : Json)
    (id : NodeId) (node : Node) :
    Agrees (Write.body convert graph indent id node) (Write.body convert' graph indent id node) :=
  bind (groups h node.augmentations) fun _ => bind (expression h graph indent node _) fun _ => refl _

end

end Agrees

namespace Graph

variable {g : Graph} {indent : Json}

/-- A guard that lets pass does nothing else. -/
theorem settled_ok {id : NodeId} {d d' : Draft} {u : Unit} (h : Write.settled g id d = .ok u d') :
    d' = d := by
  cases hinline : (d.page id).inline with
  | some text =>
    rw [Write.settled_some hinline] at h
    cases h
    rfl
  | none =>
    cases hnode : g.node? id with
    | some node =>
      rw [Write.settled_none hinline hnode] at h
      cases h
    | none =>
      obtain ⟨page, d₁, hpage, h⟩ := ok_of_bind h
      cases hpage
      simp only [hinline, hnode] at h
      cases h

/-- What a guarded conversion comes to, an unguarded one comes to as well. -/
theorem guard_agrees {convert convert' : NodeId → Write Unit}
    (h : ∀ id, Agrees (convert id) (convert' id)) (part : NodeId) :
    Agrees (g.guard true convert part) (g.guard false convert' part) := by
  intro d u d'' hrun
  obtain ⟨_, d', hconvert, hsettled⟩ := ok_of_bind hrun
  obtain rfl := settled_ok hsettled
  exact bind_ok _ (h part d () d'' hconvert)

/-- A number without a node cannot be converted, guarded or not. -/
theorem guardedWithin_unknown {guarded : Bool} {depth : Nat} {id : NodeId} {d : Draft}
    (h : ¬ (d.page id).started = true) (hnode : g.node? id = none) :
    g.guardedWithin indent guarded (depth + 1) id d = .error .nodeUnknown d := by
  rw [guardedWithin, bind_apply, Write.page_apply]
  simp only [h, hnode]
  rfl

theorem guardedWithin_agrees (depth : Nat) : ∀ id : NodeId,
    Agrees (g.guardedWithin indent true depth id) (g.guardedWithin indent false depth id) := by
  induction depth with
  | zero =>
    intro id
    exact Agrees.refl _
  | succ depth ih =>
    intro id d u d' hrun
    by_cases hstarted : (d.page id).started = true
    · rw [guardedWithin_started hstarted] at hrun ⊢
      exact hrun
    · cases hnode : g.node? id with
      | none =>
        rw [guardedWithin_unknown hstarted hnode] at hrun
        cases hrun
      | some node =>
        rw [guardedWithin_new hstarted hnode] at hrun ⊢
        have hbody := Agrees.body (guard_agrees (g := g) ih) g indent id node
        exact Agrees.bind (Agrees.refl (Write.start id node)) (fun _ => hbody) d u d' hrun

/-- **Where the guarded conversion succeeds**, it writes what conversion writes. -/
theorem guardedEach_agrees (ids : List NodeId) :
    Agrees (g.guardedEach indent true ids) (g.guardedEach indent false ids) := by
  induction ids with
  | nil => exact Agrees.refl _
  | cons id rest ih => exact Agrees.bind (guardedWithin_agrees g.size id) fun _ => ih

end Graph

/-! ## When a text is not finished -/

/-- An object with fields that has been converted has found an indent. -/
theorem Tracks.indented {g : Graph} {setting : Json} {guarded : Bool} {d : Draft}
    {starts : List NodeId} {n : NodeId} {node : Node} {fields : List Field}
    (ht : Tracks g setting guarded d (g.walk starts)) (hwhole : g.Whole)
    (hn : n ∈ (g.walk starts).seen) (hnode : g.node? n = some node)
    (hshape : node.shape = .object fields) (hfields : fields ≠ []) :
    ∃ indent, Indent.ofJson setting = .ok indent := by
  have hclosed := Graph.mem_closed_of_seen (Graph.walk_valid hwhole.bounded)
    (Graph.walk_stack hwhole.bounded) hn
  obtain ⟨l₁, l₂, hsplit⟩ := List.append_of_mem hclosed
  exact (ht.spelled l₁ n l₂ hsplit node hnode).indented fields hshape hfields

/-- **Texts that are not finished.** In a compilation that succeeds, every text that was used was
finished, so that the guarded conversion of the roots ends with the same draft, if and only if the walk
from the roots never went back to an undeclared node. No reference went back to one; but if an arrow
did, a text was used that was not there, and the guarded conversion fails for it. -/
theorem parse_guarded_iff {σ : Type} [Source σ] {r₀ r : Registry σ} {text : String} (hf : r₀.Fresh)
    (h : Registry.parse r₀ = .ok text r) :
    ∃ ids r₁, Registry.buildRoots r₀.pending r₀ = .ok ids r₁ ∧ r.graph = r₁.graph ∧
      (r.graph.guardedEach r₀.settings.indent true ids {} = .ok () r.draft ↔
        (r.graph.walk ids).BackNamed r.graph) ∧
      (∀ a ∈ (r.graph.walk ids).back, a.byReference = true → r.graph.isDeclared a.target = true) ∧
      (¬ (r.graph.walk ids).BackNamed r.graph → ∃ a ∈ (r.graph.walk ids).back, ∃ node d,
        r.graph.node? a.target = some node ∧ node.declared = false ∧ a.byReference = false ∧
        r.graph.guardedEach r₀.settings.indent true ids {} =
          .error (.unnamed node.source node.path) d) := by
  obtain ⟨ids, r₁, hbuild, hbuilt, hgraph, hsettings, hrun, -⟩ := Registry.parse_ok hf h
  rw [← hsettings]
  have hwhole : r.graph.Whole := hgraph ▸ hbuilt.whole
  have hheld : ∀ n ∈ ids, n < r.graph.size := hgraph ▸ hbuilt.held
  have hplain := Graph.guardedEach_tracks hwhole hheld r.settings.indent false
  have hguarded := Graph.guardedEach_tracks hwhole hheld r.settings.indent true
  rw [hrun] at hplain
  have href : ∀ a ∈ (r.graph.walk ids).back, a.byReference = true →
      r.graph.isDeclared a.target = true := by
    intro a ha hbyRef
    by_contra hdecl
    exact hplain.unnoticed a ha ⟨by simpa using hdecl, Or.inl hbyRef⟩
  refine ⟨ids, r₁, hbuild, hgraph, ?_⟩
  cases hres : r.graph.guardedEach r.settings.indent true ids {} with
  | ok u d =>
    rw [hres] at hguarded
    have hnamed : (r.graph.walk ids).BackNamed r.graph := by
      intro a ha
      by_contra hdecl
      exact hguarded.unnoticed a ha ⟨by simpa using hdecl, Or.inr rfl⟩
    have hsame := Graph.guardedEach_agrees ids _ _ _ hres
    rw [hrun] at hsame
    cases hsame
    exact ⟨⟨fun _ => hnamed, fun _ => rfl⟩, href, fun hnot => absurd hnamed hnot⟩
  | error f d =>
    rw [hres] at hguarded
    cases hguarded with
    | @back a node hmem hnoticed htarget =>
      have hnot : ¬ (r.graph.walk ids).BackNamed r.graph := by
        intro hnamed
        have hdecl := hnamed a hmem
        rw [hnoticed.1] at hdecl
        cases hdecl
      refine ⟨⟨fun hok => (nomatch hok), fun hnamed => absurd hnamed hnot⟩, href, fun _ => ?_⟩
      refine ⟨a, hmem, node, d, htarget, ?_, ?_, rfl⟩
      · rw [← Graph.isDeclared_of_node htarget]
        exact hnoticed.1
      · by_contra hbyRef
        have hdecl := href a hmem (by simpa using hbyRef)
        rw [hnoticed.1] at hdecl
        cases hdecl
    | indent hsetting hseen hnode hshape hfields =>
      obtain ⟨indent, hindent⟩ := hplain.indented hwhole hseen hnode hshape hfields
      rw [hsetting] at hindent
      cases hindent

/-- A list that is its own item, and has no name to be called by. -/
def ownItem : Registry Catalog := .queued {} ⟨[]⟩ "" [
  .obj [("title", .str "R"), ("type", .str "object"), ("properties", .obj [
    ("a", .obj [("id", .str "X"), ("type", .str "array"), ("items", .obj [("id", .str "X")])])])]]

/-- Compilation succeeds, and the item is written as if there were none. -/
theorem parse_guarded_ownItem :
    ∃ r ids r₁, ownItem.Fresh ∧
      Registry.parse ownItem = .ok "interface R \x7b\n  a?: null[];\n\x7d" r ∧
      Registry.buildRoots ownItem.pending ownItem = .ok ids r₁ ∧ r.graph = r₁.graph ∧
      ¬ (r.graph.walk ids).BackNamed r.graph ∧
      ∃ a ∈ (r.graph.walk ids).back, ∃ node d, r.graph.node? a.target = some node ∧
        node.declared = false ∧ a.byReference = false ∧
        r.graph.guardedEach ownItem.settings.indent true ids {} =
          .error (.unnamed node.source node.path) d := by
  have hfresh : ownItem.Fresh := Registry.fresh_queued _ _ _ _
  obtain ⟨r, hparse⟩ : ∃ r, Registry.parse ownItem =
      .ok "interface R \x7b\n  a?: null[];\n\x7d" r := ⟨_, rfl⟩
  obtain ⟨ids, r₁, failure, d, hbuild, hfails⟩ : ∃ ids r₁ failure d,
      Registry.buildRoots ownItem.pending ownItem = .ok ids r₁ ∧
      r₁.graph.guardedEach ownItem.settings.indent true ids {} = .error failure d :=
    ⟨_, _, _, _, rfl, rfl⟩
  obtain ⟨ids', r₁', hbuild', hgraph, hiff, -, hfault⟩ := parse_guarded_iff hfresh hparse
  obtain ⟨rfl, rfl⟩ : ids = ids' ∧ r₁ = r₁' := by simpa [hbuild] using hbuild'
  have hnot : ¬ (r.graph.walk ids).BackNamed r.graph := by
    intro hnamed
    have hok := hiff.mpr hnamed
    rw [hgraph, hfails] at hok
    cases hok
  exact ⟨r, ids, r₁, hfresh, hparse, hbuild, hgraph, hnot, hfault hnot⟩

end TypeScribe
