import TypeScribe.Proofs.Chronicle

/-!
# Keys are written once

The table of a compilation holds ids and locations side by side, and references keep a key, which is looked
up again when they are converted. That is safe (`parse_writes_once`): a key stands for one node for ever, no
two nodes have the same id, and the key of a reference leads to the node that was looked at when the
reference was resolved.

It holds at every moment of every compilation, whatever its source and its root directory, up to its end or
its first failure.
-/

namespace TypeScribe

open Registry

variable {σ : Type} [Source σ] {r r' : Registry σ}

/-- No construction fails for want of a key. -/
theorem Cause.ne_keyUnknown {start : σ} {settings : Settings} {past : List Moment} {failure : Failure}
    (h : Cause start settings past failure) (key : String) : failure ≠ .keyUnknown key := by
  cases h with
  | unsupported => simp
  | unnamed => simp
  | endless => simp
  | unlocated fails => simp [(Settings.locate_error fails).1]
  | @unloaded _ location fault =>
    unfold LoadFault.failure
    split <;> simp
  | @broken _ _ defect => cases defect <;> simp [Defect.failure]

/-- The target of a link that was given is the same node, with the same label, ever after. -/
theorem History.target {past : List Moment} {g : Graph} (h : History past g) {m : Moment} (hm : m ∈ past)
    {id : NodeId} {link : Link} (hlink : m.deed = .linked id link) :
    ∃ n node node', m.graph.find? link.target = some n ∧ m.graph.node? n = some node ∧
      node.name ≠ "" ∧ g.find? link.target = some n ∧ g.node? n = some node' ∧
      node'.label = node.label := by
  obtain ⟨⟨n, node, hfind, hnode, hname⟩, -⟩ := h.linked m hm id link hlink
  have hprecedes := h.precedes hm
  obtain ⟨node', hnode', hlabel⟩ := hprecedes.exists_node hnode
  exact ⟨n, node, node', hfind, hnode, hname, hprecedes.table _ n hfind, hnode', hlabel⟩

/-- **A reference has the link that it was given**, or was given none yet. -/
theorem History.reference_cases {past : List Moment} {g : Graph} (h : History past g) {id : NodeId}
    {ref target : String} (hshape : g.shape? id = some (.reference ref target)) :
    (∃ m ∈ past, m.deed = .linked id ⟨ref, target⟩) ∨ ¬ HasLink id past ∧ ref = "" ∧ target = "" := by
  by_cases hlink : HasLink id past
  · obtain ⟨m, hm, link, hdeed⟩ := hlink
    obtain ⟨-, hgiven⟩ := h.linked m hm id link hdeed
    obtain ⟨rfl, rfl⟩ := Shape.reference.inj (Option.some.inj (hgiven.symm.trans hshape))
    exact Or.inl ⟨m, hm, hdeed⟩
  · refine Or.inr ⟨hlink, ?_⟩
    by_contra hblank
    obtain ⟨m, hm, hdeed⟩ := h.references id ref target hshape (by tauto)
    exact hlink ⟨m, hm, _, hdeed⟩

/-- **Keys are written once** in a compilation. -/
structure Registry.WritesOnce (r : Registry σ) : Prop where
  /-- Construction with a diary has the outcome of construction, in the same workshop. -/
  traced : mapState Diary.workshop r.traced = mapState Registry.workshop (buildRoots r.pending r)
  /-- The last graph noted is the graph that the compilation leaves. -/
  last : (leaves (parse r)).graph = lastGraph r.history
  /-- From each moment to every later one, keys stand for what they stood for, and nodes keep their
  labels. -/
  kept : r.history.Pairwise fun m m' => m.graph.Precedes m'.graph
  /-- At no moment do two nodes have the same id. -/
  distinct : ∀ m ∈ r.history, m.graph.Distinct
  /-- When a node is given its link, the key of the link stands for a node with a name. In the graph that is
  converted the node still has that link, and its key stands for that node. -/
  linked : ∀ m ∈ r.history, ∀ id link, m.deed = .linked id link →
    (leaves (parse r)).graph.shape? id = some (.reference link.ref link.target) ∧
    ∃ n node node', m.graph.find? link.target = some n ∧ m.graph.node? n = some node ∧
      node.name ≠ "" ∧ (leaves (parse r)).graph.find? link.target = some n ∧
      (leaves (parse r)).graph.node? n = some node' ∧ node'.label = node.label
  /-- Every reference was given the link that it has, unless it was given none by then, and refers to
  nothing. -/
  references : ∀ id ref target, (leaves (parse r)).graph.shape? id = some (.reference ref target) →
    (∃ m ∈ r.history, m.deed = .linked id ⟨ref, target⟩) ∨
      ¬ HasLink id r.history ∧ ref = "" ∧ target = ""
  /-- No key is looked up in vain. -/
  found : ∀ key r', parse r ≠ .error (.keyUnknown key) r'

/-- **The table of keys is written once**, and every id is built once, in every compilation. -/
theorem parse_writes_once (hf : r.Fresh) : r.WritesOnce := by
  have hhistory := history_parse hf
  refine ⟨mapState_traced hf, hhistory.last, hhistory.course, hhistory.distinct, ?_,
    fun _ _ _ => hhistory.reference_cases, ?_⟩
  · intro m hm id link hlink
    exact ⟨(hhistory.linked m hm id link hlink).2, hhistory.target hm hlink⟩
  · intro key r' hparse
    rcases cause_parse hf hparse with hcause | ⟨g, w, hfault⟩
    · exact hcause.ne_keyUnknown key rfl
    · cases hfault

/-- The links that were given in turn. -/
def Registry.links (r : Registry σ) : List (NodeId × Link) :=
  r.history.filterMap fun m =>
    match m.deed with
    | .linked id link => some (id, link)
    | _ => none

/-- A document that refers to itself by its id, to another one of the same id by its location, and a fragment
whose id is that location. -/
def crossing : Registry Catalog := .queued { rootDir := .str "d" } ⟨[
    ("d/a", .obj [("id", .str "b"), ("title", .str "A"), ("properties", .obj [
      ("own", .obj [("$ref", .str "b")]), ("other", .obj [("$ref", .str "c")])])]),
    ("d/c", .obj [("id", .str "b"), ("title", .str "C"), ("type", .str "string")])]⟩ "" [
  .obj [("title", .str "R"), ("properties", .obj [
    ("first", .obj [("$ref", .str "a")]), ("again", .obj [("id", .str "d/c"), ("type", .str "number")])])]]

theorem parse_writes_once_crossing :
    crossing.Fresh ∧ crossing.links = [(3, ⟨"b", "b"⟩), (4, ⟨"c", "d/c"⟩), (1, ⟨"a", "d/a"⟩)] ∧
      (leaves (parse crossing)).graph.table = [("b", 2), ("d/a", 2), ("d/c", 2)] ∧
      crossing.WritesOnce :=
  have hfresh : crossing.Fresh := fresh_queued _ _ _ _
  ⟨hfresh, by decide +kernel, by decide +kernel, parse_writes_once hfresh⟩

end TypeScribe
