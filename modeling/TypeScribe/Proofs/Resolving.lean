import TypeScribe.Proofs.Together

/-!
# Resolving a reference

What resolving does, in three cases (`Build.resolve_failed`, `resolve_known`, `resolve_new`): there is no
key, the key is known, or its document is loaded and built with one unit of budget less. Only in the last
case does anything depend on the budget.

What a graph keeps when nodes are added, entered under keys and filled, it keeps when references are
resolved, whatever the budget and whatever documents come (`Graph.Invariant`). One such invariant is that
the **labels** of nodes stay, which is used to say how a node is named.
-/

namespace TypeScribe

/-! ## Three cases -/

/-- A workshop whose source has been asked for the key of a reference. -/
def Workshop.asking {σ : Type} [Source σ] (w : Workshop σ) (ref key : String) : Workshop σ :=
  { w with
    source := (Source.load w.source key).source
    log := w.log.push (.resolving ref key) ++ (Source.load w.source key).events.toArray }

/-- What follows on the load of a document: it is built under its key, and the key is bound if it is not
by then. -/
def Build.document {σ : Type} [Source σ] (settings : Settings) (budget : Nat) (ref key : String)
    (fields : Entries Json) : Build σ Link := do
  let id ← (Schema.ofJson (.obj fields)).build (Build.resolve settings budget) none (key ++ "#") [key]
  Build.bindNew key id
  Build.linkTo ref key

/-- The key of a reference in a graph. -/
def Graph.keyOf (g : Graph) (settings : Settings) (ref : String) : Except Failure String :=
  if g.knows ref = true then .ok ref else settings.locate ref

/-- A reference whose key is not known is located there. -/
theorem Graph.locate_of_keyOf {g : Graph} {settings : Settings} {ref key : String}
    (h : g.keyOf settings ref = .ok key) (hnew : g.knows key = false) : settings.locate ref = .ok key := by
  rw [keyOf] at h
  split at h
  · rename_i hknown
    cases h
    rw [hnew] at hknown
    cases hknown
  · exact h

namespace Build

variable {σ : Type} {settings : Settings} {ref key : String} {failure : Failure} {w : Workshop σ}

theorem keyOf_apply (settings : Settings) (ref : String) (w : Workshop σ) :
    keyOf settings ref w =
      match w.graph.keyOf settings ref with
      | .ok key => .ok key w
      | .error failure => .error failure w := by
  rw [Graph.keyOf]
  change (if w.graph.knows ref = true then (pure ref : Build σ String) else
    match settings.locate ref with
    | .ok location => pure location
    | .error failure => throw failure) w = _
  by_cases h : w.graph.knows ref = true
  · rw [if_pos h, if_pos h]
    rfl
  · rw [if_neg h, if_neg h]
    cases settings.locate ref <;> rfl

theorem graph_apply (w : Workshop σ) : Build.graph w = .ok w.graph w := rfl

theorem locate_of_keyOf (h : w.graph.keyOf settings ref = .error failure) :
    settings.locate ref = .error failure := by
  rw [Graph.keyOf] at h
  split at h
  · cases h
  · exact h

/-- Linking to a key looks at the node that it stands for. -/
theorem linkTo_eq (ref key : String) (w : Workshop σ) :
    linkTo ref key w =
      match w.graph.find? key with
      | none => .error (.keyUnknown key) w
      | some id =>
        match w.graph.node? id with
        | none => .error .nodeUnknown w
        | some node =>
          if node.name = "" then .error (.unnamed node.source node.path) w else .ok ⟨ref, key⟩ w := by
  rw [linkTo, bind_ok _ (graph_apply w)]
  cases w.graph.find? key with
  | none => rfl
  | some id =>
    dsimp only
    rw [bind_ok _ (graph_apply w)]
    cases w.graph.node? id with
    | none => rfl
    | some node =>
      dsimp only
      split <;> rfl

/-- The link to a key that stands for a node. -/
theorem linkTo_apply {id : NodeId} {node : Node} (hfind : w.graph.find? key = some id)
    (hnode : w.graph.node? id = some node) :
    linkTo ref key w =
      if node.name = "" then .error (.unnamed node.source node.path) w else .ok ⟨ref, key⟩ w := by
  rw [linkTo_eq, hfind]
  simp only [hnode]

variable [Source σ]

/-- A reference without a key fails, and nothing has changed. -/
theorem resolve_failed (budget : Nat) (h : w.graph.keyOf settings ref = .error failure) :
    resolve settings budget ref w = .error failure w := by
  have hkey : keyOf settings ref w = .error failure w := by rw [keyOf_apply, h]
  cases budget <;> exact bind_error _ hkey

/-- A reference whose key is known is linked to what the key stands for. -/
theorem resolve_known (budget : Nat) (h : w.graph.keyOf settings ref = .ok key)
    (hknown : w.graph.knows key = true) :
    resolve settings budget ref w = linkTo ref key w := by
  have hkey : keyOf settings ref w = .ok key w := by rw [keyOf_apply, h]
  cases budget with
  | zero =>
    rw [resolve, bind_ok _ hkey]
    change (if w.graph.knows key = true then linkTo ref key else throw .endless) w = _
    rw [if_pos hknown]
  | succ budget =>
    rw [resolve, bind_ok _ hkey, bind_ok _ (graph_apply w)]
    simp only [hknown]
    rfl

theorem resolve_endless (h : w.graph.keyOf settings ref = .ok key)
    (hnew : w.graph.knows key = false) : resolve settings 0 ref w = .error .endless w := by
  have hkey : keyOf settings ref w = .ok key w := by rw [keyOf_apply, h]
  rw [resolve, bind_ok _ hkey, bind_ok _ (graph_apply w)]
  simp only [hnew]
  rfl

/-- Asking the source, once that is reported. -/
theorem load_reported (ref key : String) (w : Workshop σ) :
    (report (.resolving ref key) >>= fun _ => load key) w =
      match (Source.load w.source key).result with
      | .ok fields => .ok fields (w.asking ref key)
      | .error fault => .error (fault.failure key) (w.asking ref key) := by
  change (match (Source.load w.source key).result with
    | .ok fields => (pure fields : Build σ (Entries Json))
    | .error fault => throw (fault.failure key)) (w.asking ref key) = _
  cases (Source.load w.source key).result <;> rfl

/-- Asking the source for a key that is not known. -/
theorem resolve_new (budget : Nat) (h : w.graph.keyOf settings ref = .ok key)
    (hnew : w.graph.knows key = false) :
    resolve settings (budget + 1) ref w =
      match (Source.load w.source key).result with
      | .error fault => .error (fault.failure key) (w.asking ref key)
      | .ok fields => document settings budget ref key fields (w.asking ref key) := by
  have hkey : keyOf settings ref w = .ok key w := by rw [keyOf_apply, h]
  rw [resolve, bind_ok _ hkey, bind_ok _ (graph_apply w)]
  simp only [hnew]
  change ((report (.resolving ref key) >>= fun _ => load key) >>= document settings budget ref key) w = _
  have hasked := load_reported ref key w
  cases hload : (Source.load w.source key).result with
  | error fault =>
    rw [hload] at hasked
    exact bind_error _ hasked
  | ok fields =>
    rw [hload] at hasked
    exact bind_ok _ hasked

end Build

theorem LoadFault.failure_ne_endless (fault : LoadFault) (location : String) :
    fault.failure location ≠ .endless := by
  unfold failure
  split <;> simp

/-- A reference has a location, unless the root directory is no text. -/
theorem Settings.locate_error {settings : Settings} {ref : String} {failure : Failure}
    (h : settings.locate ref = .error failure) :
    failure = .rootDirNotText ∧ ∀ dir, settings.rootDir ≠ .str dir := by
  rw [locate] at h
  split at h
  · cases h
  · split at h
    · cases h
    · rename_i hdir
      cases h
      exact ⟨rfl, hdir⟩

/-- Locating a document has no loop that could fail to end. -/
theorem Settings.locate_ne_endless {settings : Settings} {ref : String} {failure : Failure}
    (h : settings.locate ref = .error failure) : failure ≠ .endless := by
  simp [(locate_error h).1]

namespace Bond

variable {σ τ : Type} {B : Bond σ τ} {w : Workshop σ} {v : Workshop τ}

/-- A link is made, or not, in the same way. -/
theorem linkTo (ref key : String) (h : B.holds [] w v) :
    Together (B.holds []) B.failed (Build.linkTo ref key w) (Build.linkTo ref key v) := by
  rw [Build.linkTo, Build.linkTo, bind_ok _ (Build.graph_apply w), bind_ok _ (Build.graph_apply v),
    ← B.graph h]
  cases w.graph.find? key with
  | none => exact .error (B.fail (by simp) h)
  | some id =>
    change Together _ _ ((Build.graph >>= _) w) ((Build.graph >>= _) v)
    rw [bind_ok _ (Build.graph_apply w), bind_ok _ (Build.graph_apply v), ← B.graph h]
    cases w.graph.node? id with
    | none => exact .error (B.fail (by simp) h)
    | some node =>
      by_cases hname : node.name = ""
      · simp only [hname, if_true]
        exact .error (B.fail (by simp) h)
      · simp only [hname, if_false]
        exact .ok h

/-- **Resolving references** with one and the same budget keeps a bond, if asking for a document does,
and entering the document under its key. -/
theorem resolve [Source σ] {B : Bond σ σ}
    (hfail : ∀ {keys : List String} {w v : Workshop σ} (failure : Failure), B.holds keys w v →
      B.failed failure w v)
    (hasking : ∀ {w v : Workshop σ} (ref key : String), B.holds [] w v →
      (Source.load w.source key).result = (Source.load v.source key).result ∧
        B.holds [key] (w.asking ref key) (v.asking ref key))
    (hbind : ∀ {w v : Workshop σ} (key : String) (id : NodeId), B.holds [key] w v →
      Together (B.holds []) B.failed (Build.bindNew key id w) (Build.bindNew key id v))
    (settings : Settings) (budget : Nat) :
    B.Links (fun _ => True) (Build.resolve settings budget) (Build.resolve settings budget) := by
  intro ref _ w v h
  have hgraph := B.graph h
  cases hkey : w.graph.keyOf settings ref with
  | error failure =>
    rw [Build.resolve_failed budget hkey, Build.resolve_failed budget (hgraph ▸ hkey)]
    exact .error (hfail failure h)
  | ok key =>
    cases hknown : w.graph.knows key with
    | true =>
      rw [Build.resolve_known budget hkey hknown, Build.resolve_known budget (hgraph ▸ hkey) (hgraph ▸ hknown)]
      exact linkTo ref key h
    | false =>
      match budget with
      | 0 =>
        rw [Build.resolve_endless hkey hknown, Build.resolve_endless (hgraph ▸ hkey) (hgraph ▸ hknown)]
        exact .error (hfail .endless h)
      | budget + 1 =>
        obtain ⟨hresult, hasked⟩ := hasking ref key h
        rw [Build.resolve_new budget hkey hknown,
          Build.resolve_new budget (hgraph ▸ hkey) (hgraph ▸ hknown), ← hresult]
        cases (Source.load w.source key).result with
        | error fault => exact .error (hfail _ hasked)
        | ok fields =>
          have hrefers : (Schema.ofJson (.obj fields)).Refers fun _ => True :=
            Schema.ofJson_refers fun _ _ => trivial
          refine Together.bind (Schema.build_together
            (resolve hfail hasking hbind settings budget) _ hrefers none _ hasked) ?_
          intro id w₁ v₁ h₁
          exact Together.bind (hbind key id h₁) fun _ w₂ v₂ h₂ => linkTo ref key h₂

end Bond

/-! ## Invariants of the graph -/

/-- **Invariants of a graph under construction**: what adding a node, entering one under a key and
changing its parts all keep. -/
structure Graph.Invariant (I : Graph → Prop) : Prop where
  push : ∀ {g : Graph} (facts : Facts) (body : Body) (groups : List Group) (name : Option String)
    (path : String), Schema.Assembled facts body groups → I g →
    I (g.push (Schema.node facts body groups name path))
  bind : ∀ {g : Graph} (key : String) (id : NodeId), I g → I (g.bind key id)
  adjust : ∀ {g : Graph} (id : NodeId) {f : Node → Node}, (∀ node, (f node).label = node.label) →
    I g → I (g.adjust id f)

namespace Graph.Invariant

variable {I : Graph → Prop}

theorem bindAll (hI : Graph.Invariant I) (id : NodeId) (keys : List String) :
    ∀ {g : Graph}, I g → I (g.bindAll id keys) := by
  induction keys with
  | nil => exact fun h => h
  | cons key rest ih =>
    intro g h
    rw [Graph.bindAll]
    split
    · exact ih h
    · exact ih (hI.bind key id h)

/-- An invariant as a bond of a construction with itself. -/
def bond (hI : Graph.Invariant I) (σ : Type) : Bond σ σ where
  holds _ w v := w = v ∧ I w.graph
  failed _ w v := w = v ∧ I w.graph
  graph h := congrArg Workshop.graph h.1
  weaken _ h := h
  enter facts body groups name path hassembled h :=
    ⟨congrArg (Workshop.enter · _ _ _) h.1,
      hI.bindAll _ _ (hI.push facts body groups name path hassembled h.2)⟩
  adjust id f hf h := ⟨congrArg (Workshop.adjust · id f) h.1, hI.adjust id hf h.2⟩
  fail _ h := h

variable {σ : Type}

theorem bindNew (hI : Graph.Invariant I) (key : String) (id : NodeId) {keys : List String}
    {w v : Workshop σ} (h : (hI.bond σ).holds keys w v) :
    Together ((hI.bond σ).holds []) (hI.bond σ).failed (Build.bindNew key id w)
      (Build.bindNew key id v) := by
  obtain ⟨rfl, hw⟩ : w = v ∧ I w.graph := h
  rw [Build.bindNew, Build.onGraph_apply]
  refine .ok ⟨rfl, ?_⟩
  change I (if w.graph.knows key = true then w.graph else w.graph.bind key id)
  split
  · exact hw
  · exact hI.bind key id hw

variable [Source σ]

/-- **Resolving references** keeps every invariant, whatever the budget. -/
theorem links (hI : Graph.Invariant I) (settings : Settings) (budget : Nat) :
    (hI.bond σ).Links (fun _ => True) (Build.resolve settings budget)
      (Build.resolve settings budget) := by
  refine Bond.resolve (fun _ h => h) ?_ (fun key id h => hI.bindNew key id h) settings budget
  rintro w v ref key ⟨rfl, hw⟩
  exact ⟨rfl, rfl, hw⟩

end Graph.Invariant

end TypeScribe
