import TypeScribe.Graph.Convert
import TypeScribe.Proofs.Spelling
import TypeScribe.Proofs.Steps
import TypeScribe.Proofs.Whole

/-!
# Drafts that track a walk

While a graph is converted, its draft **tracks** the state of a walk (`Tracks`): the pages started are
the nodes seen, the emission is what of them is declared, and a page has its text once its node is
declared or closed.

A text that is looked at while its node is open and not declared is not there yet. Conversion notices
this behind a reference only. The **guarded** conversion notices it everywhere and does the same
otherwise; both are treated as one, so that what they do differently can be read off the walk.

Two steps change a draft, and the draft goes on tracking over both: `Tracks.begun` when a node is
entered, and `Tracks.finished` when it is closed.
-/

namespace TypeScribe

/-! ## Pages -/

namespace Draft

/-- The inline text of a node as far as it is written. -/
def text (d : Draft) (id : NodeId) : String := ((d.page id).inline).getD ""

/-- **What turning a page changes**: the page of its own node, and nothing else. -/
theorem page_turn (d : Draft) (i : Nat) (f : Page → Page) (j : Nat) :
    (d.turn i f).page j = if j = i then f (d.page i) else d.page j := by
  have hsize : i < (padded d.pages (i + 1)).size := by
    simp only [padded, Array.size_append, Array.size_replicate]
    omega
  have hpad : ∀ k : Nat, ((padded d.pages (i + 1))[k]?).getD ({} : Page) = (d.pages[k]?).getD {} := by
    intro k
    by_cases hk : k < d.pages.size
    · simp [padded, Array.getElem?_append_left hk]
    · have hk' : d.pages.size ≤ k := Nat.le_of_not_lt hk
      rw [padded, Array.getElem?_append_right hk', Array.getElem?_eq_none hk']
      by_cases hk'' : k - d.pages.size < i + 1 - d.pages.size
      · simp [hk'']
      · simp [hk'']
  simp only [page, turn]
  rw [Array.getElem?_modify]
  by_cases h : j = i
  · subst h
    rw [if_pos rfl, if_pos rfl, ← hpad j]
    simp [hsize]
  · rw [if_neg h, if_neg (Ne.symm h), hpad j]

@[simp]
theorem page_emit (d : Draft) (i j : NodeId) : (d.emit i).page j = d.page j := rfl

@[simp]
theorem emission_turn (d : Draft) (i : NodeId) (f : Page → Page) :
    (d.turn i f).emission = d.emission := rfl

/-- The draft in which a node has just been started. -/
def begun (d : Draft) (id : NodeId) (node : Node) : Draft :=
  if node.declared then (d.turn id fun p => { p with started := true, inline := some node.name }).emit id
  else d.turn id fun p => { p with started := true }

/-- The draft in which a node has just been finished. -/
def finished (d : Draft) (id : NodeId) (node : Node) (expression augmentation : String) : Draft :=
  d.turn id fun p =>
    if node.declared then { p with block := some (Spelling.declaration node expression augmentation) }
    else { p with inline := some (Spelling.undeclared node expression augmentation) }

theorem page_begun_ne (d : Draft) {id n : NodeId} (node : Node) (h : n ≠ id) :
    (d.begun id node).page n = d.page n := by
  rw [begun]
  split
  · rw [page_emit, page_turn, if_neg h]
  · rw [page_turn, if_neg h]

theorem page_finished_ne (d : Draft) {id n : NodeId} (node : Node) (e a : String) (h : n ≠ id) :
    (d.finished id node e a).page n = d.page n := by
  rw [finished, page_turn, if_neg h]

/-- An undeclared node is closed with the text that stands for it. -/
theorem inline_finished (d : Draft) {id : NodeId} {node : Node} (e a : String)
    (h : node.declared = false) :
    ((d.finished id node e a).page id).inline = some (Spelling.undeclared node e a) := by
  simp [finished, page_turn, h]

/-- A declared node is closed with its block. -/
theorem block_finished (d : Draft) {id : NodeId} {node : Node} (e a : String)
    (h : node.declared = true) :
    ((d.finished id node e a).page id).block = some (Spelling.declaration node e a) := by
  simp [finished, page_turn, h]

end Draft

namespace Write

theorem page_apply (id : NodeId) (d : Draft) : page id d = .ok (d.page id) d := rfl

theorem start_apply (id : NodeId) (node : Node) (d : Draft) :
    start id node d = .ok () (d.begun id node) := by
  rw [start, Draft.begun]
  split <;> rfl

theorem finish_apply (id : NodeId) (node : Node) (e a : String) (d : Draft) :
    finish id node e a d = .ok () (d.finished id node e a) := by
  simp only [finish, Draft.finished, Spelling.declaration, Spelling.undeclared]
  cases hd : node.declared <;> cases node.shape <;> rfl

/-- Fails unless a node has its text. -/
def settled (graph : Graph) (id : NodeId) : Write Unit := do
  match (← page id).inline with
  | some _ => pure ()
  | none =>
    match graph.node? id with
    | some node => throw (.unnamed node.source node.path)
    | none => throw .nodeUnknown

theorem settled_some {graph : Graph} {id : NodeId} {d : Draft} {text : String}
    (h : (d.page id).inline = some text) : settled graph id d = .ok () d := by
  rw [settled, bind_apply, page_apply]
  simp only [h]
  rfl

/-- A node that has no text yet is reported as unnamed, with its fragment and path. -/
theorem settled_none {graph : Graph} {id : NodeId} {node : Node} {d : Draft}
    (h : (d.page id).inline = none) (hnode : graph.node? id = some node) :
    settled graph id d = .error (.unnamed node.source node.path) d := by
  rw [settled, bind_apply, page_apply]
  simp only [h, hnode]
  rfl

end Write

/-! ## Guarded conversion -/

/-- Converts a part whose text is used next. If it is **guarded**, the text is looked at first. -/
def Graph.guard (graph : Graph) (guarded : Bool) (convert : NodeId → Write Unit) (part : NodeId) :
    Write Unit := do
  convert part
  if guarded then Write.settled graph part

/-- **Guarded conversion** of a node: a text that is missing is a failure wherever it is met. -/
def Graph.guardedWithin (graph : Graph) (indent : Json) (guarded : Bool) :
    (depth : Nat) → NodeId → Write Unit
  | 0, _ => pure ()
  | depth + 1, id => do
    if (← Write.page id).started then return ()
    match graph.node? id with
    | none => throw .nodeUnknown
    | some node =>
      Write.start id node
      Write.body (graph.guard guarded (Graph.guardedWithin graph indent guarded depth)) graph indent
        id node

/-- Conversion of nodes in turn, guarded or not. -/
def Graph.guardedEach (graph : Graph) (indent : Json) (guarded : Bool) : List NodeId → Write Unit
  | [] => pure ()
  | id :: rest => do
    Graph.guardedWithin graph indent guarded graph.size id
    Graph.guardedEach graph indent guarded rest

/-- Without guards it is the conversion there is. -/
theorem Graph.guardedWithin_false (graph : Graph) (indent : Json) (depth : Nat) :
    graph.guardedWithin indent false depth = graph.convertWithin indent depth := by
  induction depth with
  | zero =>
    funext id
    rfl
  | succ depth ih =>
    funext id
    have hguard : graph.guard false (graph.guardedWithin indent false depth) =
        graph.convertWithin indent depth := by
      funext part
      rw [ih]
      exact bind_pure_unit
    simp only [Graph.guardedWithin, hguard]
    rfl

/-! ## Drafts that track a walk -/

/-- The name of a node. -/
def Graph.nameOf (g : Graph) (id : NodeId) : String := ((g.node? id).map Node.name).getD ""

/-- What can be read of a node when the given ones are closed: its name if it is declared, its text if
it is closed, and nothing otherwise. -/
def Draft.known (d : Draft) (g : Graph) (closed : List NodeId) (n : NodeId) : String :=
  if g.isDeclared n then g.nameOf n else if n ∈ closed then d.text n else ""

/-- The indent of a setting; what is no indent counts as the empty one. -/
def Indent.orBlank (setting : Json) : Indent :=
  match ofJson setting with
  | .ok indent => indent
  | .error _ => .text ""

/-- **The page of a closed node**: its text, spelled by what could be read when it was closed. An
object with fields has found an indent. -/
structure Spelled (g : Graph) (indent : Json) (d : Draft) (before : List NodeId) (n : NodeId)
    (node : Node) : Prop where
  inline : node.declared = false → (d.page n).inline =
    some (Spelling.inline (d.known g before) g (.orBlank indent) node)
  block : node.declared = true → (d.page n).block =
    some (Spelling.block (d.known g before) g (.orBlank indent) node)
  indented : ∀ fields, node.shape = .object fields → fields ≠ [] →
    ∃ i, Indent.ofJson indent = .ok i

/-- An arrow back to a node without a text, where the text is looked at. -/
def Noticed (g : Graph) (guarded : Bool) (a : Arrow) : Prop :=
  g.isDeclared a.target = false ∧ (a.byReference = true ∨ guarded = true)

/-- Every arrow that leads back leads to a declared node. -/
def Walk.BackNamed (w : Walk) (g : Graph) : Prop := ∀ a ∈ w.back, g.isDeclared a.target = true

/-- **The draft tracks the walk.** -/
structure Tracks (g : Graph) (indent : Json) (guarded : Bool) (d : Draft) (w : Walk) : Prop where
  started : ∀ n, (d.page n).started = true ↔ n ∈ w.seen
  emission : d.emission.toList = w.seen.filter g.isDeclared
  named : ∀ n ∈ w.seen, g.isDeclared n = true → (d.page n).inline = some (g.nameOf n)
  missing : ∀ n, n ∉ w.closed → g.isDeclared n = false → (d.page n).inline = none
  spelled : ∀ l₁ n l₂, w.closed = l₁ ++ n :: l₂ → ∀ node, g.node? n = some node →
    Spelled g indent d l₁ n node
  unnoticed : ∀ a ∈ w.back, ¬ Noticed g guarded a

/-- **Why conversion fails**, told by the walk. -/
inductive Fault (g : Graph) (indent : Json) (guarded : Bool) (w : Walk) : Failure → Prop where
  /-- An arrow leads back to a node without a text. -/
  | back {a : Arrow} {node : Node} (mem : a ∈ w.back) (noticed : Noticed g guarded a)
      (target : g.node? a.target = some node) : Fault g indent guarded w (.unnamed node.source node.path)
  /-- An object has fields, and the setting for the indent is none. -/
  | indent {fault : Indent.Fault} {n : NodeId} {node : Node} {fields : List Field}
      (setting : Indent.ofJson indent = .error fault) (seen : n ∈ w.seen)
      (isNode : g.node? n = some node) (shape : node.shape = .object fields) (held : fields ≠ []) :
      Fault g indent guarded w (.indent fault)

section

variable {g : Graph} {indent : Json} {guarded : Bool} {starts : List NodeId} {w w' : Walk}
  {d d' : Draft}

theorem Fault.mono {f : Failure} (hle : w.Le w') (h : Fault g indent guarded w f) :
    Fault g indent guarded w' f := by
  cases h with
  | back hmem hnoticed htarget => exact .back (hle.back.subset hmem) hnoticed htarget
  | indent hset hseen hnode hshape hheld =>
    exact .indent hset (hle.seen.subset hseen) hnode hshape hheld

theorem Graph.isDeclared_of_node {id : NodeId} {node : Node} (h : g.node? id = some node) :
    g.isDeclared id = node.declared := by
  simp [Graph.isDeclared, h]

theorem Graph.node_of_isDeclared {id : NodeId} (h : g.isDeclared id = true) :
    ∃ node, g.node? id = some node ∧ node.declared = true := by
  cases hnode : g.node? id with
  | none => simp [Graph.isDeclared, hnode] at h
  | some node => exact ⟨node, rfl, by simpa [Graph.isDeclared, hnode] using h⟩

theorem Graph.nameOf_of_node {id : NodeId} {node : Node} (h : g.node? id = some node) :
    g.nameOf id = node.name := by
  simp [Graph.nameOf, h]

theorem Graph.exists_node {id : NodeId} (h : id < g.size) : ∃ node, g.node? id = some node :=
  ⟨g.nodes[id], Array.getElem?_eq_getElem h⟩

theorem Draft.text_of_inline {id : NodeId} {t : String} (h : (d.page id).inline = some t) :
    d.text id = t := by
  simp [Draft.text, h]

/-- The page of a closed node stays as it is while the pages of closed nodes do. -/
theorem Spelled.keep {before : List NodeId} {n : NodeId} {node : Node}
    (h : Spelled g indent d before n node) (hn : d'.page n = d.page n)
    (hbefore : ∀ m ∈ before, d'.page m = d.page m) : Spelled g indent d' before n node := by
  have hknown : d'.known g before = d.known g before := by
    funext m
    simp only [Draft.known, Draft.text]
    by_cases hm : m ∈ before
    · rw [hbefore m hm]
    · simp [hm]
  exact ⟨by rw [hn, hknown]; exact h.inline, by rw [hn, hknown]; exact h.block, h.indented⟩

namespace Tracks

/-- What was looked at is there: the text of a node that is declared or closed. -/
theorem inline_isSome (ht : Tracks g indent guarded d w) (hv : w.Valid g starts) {n : NodeId}
    (hn : n ∈ w.seen) (hready : g.isDeclared n = true ∨ n ∉ w.path) :
    ∃ t, (d.page n).inline = some t := by
  by_cases hd : g.isDeclared n = true
  · exact ⟨_, ht.named n hn hd⟩
  · have hpath : n ∉ w.path := hready.resolve_left hd
    have hclosed : n ∈ w.closed := ((hv.mem_seen_iff n).mp hn).resolve_left hpath
    obtain ⟨l₁, l₂, hsplit⟩ := List.append_of_mem hclosed
    obtain ⟨node, hnode⟩ := Graph.exists_node (hv.bounded n hn)
    have hdecl : node.declared = false := by
      rw [← Graph.isDeclared_of_node hnode]
      simpa using hd
    exact ⟨_, (ht.spelled l₁ n l₂ hsplit node hnode).inline hdecl⟩

/-- **What an undeclared node is known by** once it is closed: the text that was spelled when it was. Fewer nodes had
been closed then. -/
theorem known_closed (ht : Tracks g indent guarded d w) (hv : w.Valid g starts) {l₁ l₂ : List NodeId}
    {n m : NodeId} (hsplit : w.closed = l₁ ++ n :: l₂) (hdecl : g.isDeclared m = false) (hmem : m ∈ l₁) :
    ∃ node k₁ k₂, w.closed = k₁ ++ m :: k₂ ∧ k₁.length < l₁.length ∧ g.node? m = some node ∧
      node.declared = false ∧
      d.known g l₁ m = Spelling.inline (d.known g k₁) g (.orBlank indent) node := by
  have hknown : d.known g l₁ m = d.text m := by
    rw [Draft.known, hdecl, if_neg Bool.false_ne_true, if_pos hmem]
  obtain ⟨k₁, k₂, rfl⟩ := List.append_of_mem hmem
  have hsplit' : w.closed = k₁ ++ m :: (k₂ ++ n :: l₂) := by
    rw [hsplit, List.append_assoc, List.cons_append]
  have hseen : m ∈ w.seen := (hv.mem_seen_iff m).mpr (Or.inr (by simp [hsplit']))
  obtain ⟨node, hnode⟩ := Graph.exists_node (hv.bounded m hseen)
  have hnot : node.declared = false := (Graph.isDeclared_of_node hnode).symm.trans hdecl
  have hinline := (ht.spelled k₁ m _ hsplit' node hnode).inline hnot
  exact ⟨node, k₁, _, hsplit', by simp, hnode, hnot, hknown.trans (Draft.text_of_inline hinline)⟩

/-- The lists that a draft tracks are those of seen and closed nodes and of arrows back. -/
theorem congr (ht : Tracks g indent guarded d w) (hseen : w'.seen = w.seen)
    (hclosed : w'.closed = w.closed) (hback : ∀ a ∈ w'.back, ¬ Noticed g guarded a) :
    Tracks g indent guarded d w' where
  started n := by rw [hseen]; exact ht.started n
  emission := by rw [hseen]; exact ht.emission
  named n hn := ht.named n (hseen ▸ hn)
  missing n hn := ht.missing n (hclosed ▸ hn)
  spelled l₁ n l₂ hsplit := ht.spelled l₁ n l₂ (hclosed ▸ hsplit)
  unnoticed := hback

/-- The draft goes on tracking when a node is started and entered. -/
theorem begun (ht : Tracks g indent guarded d w) (hclosed : w.closed ⊆ w.seen) {id : NodeId}
    {node : Node} (hnode : g.node? id = some node) (hnew : id ∉ w.seen) (hw' : w'.seen = w.seen ++ [id])
    (hc : w'.closed = w.closed) (hb : w'.back = w.back) :
    Tracks g indent guarded (d.begun id node) w' where
  started n := by
    rw [hw', List.mem_append, List.mem_singleton]
    by_cases hn : n = id
    · subst hn
      have hpage : ((d.begun n node).page n).started = true := by
        rw [Draft.begun]
        split <;> simp [Draft.page_turn]
      simp [hpage]
    · rw [Draft.page_begun_ne d node hn, ht.started n]
      simp [hn]
  emission := by
    rw [hw', List.filter_append, ← ht.emission]
    rw [Draft.begun]
    cases hd : node.declared with
    | true => simp [Draft.emit, Graph.isDeclared_of_node hnode, hd]
    | false => simp [Graph.isDeclared_of_node hnode, hd]
  named n hn hdecl := by
    by_cases hid : n = id
    · subst hid
      rw [Graph.isDeclared_of_node hnode] at hdecl
      rw [Graph.nameOf_of_node hnode]
      simp [Draft.begun, hdecl, Draft.page_turn]
    · rw [Draft.page_begun_ne d node hid]
      refine ht.named n ?_ hdecl
      simpa [hw', hid] using hn
  missing n hn hdecl := by
    by_cases hid : n = id
    · subst hid
      have hold := ht.missing n (hc ▸ hn) hdecl
      rw [Graph.isDeclared_of_node hnode] at hdecl
      simpa [Draft.begun, hdecl, Draft.page_turn] using hold
    · rw [Draft.page_begun_ne d node hid]
      exact ht.missing n (hc ▸ hn) hdecl
  spelled l₁ n l₂ hsplit m hm := by
    have hsplit' : w.closed = l₁ ++ n :: l₂ := hc ▸ hsplit
    have hne : ∀ k ∈ w.closed, k ≠ id := by
      rintro k hk rfl
      exact hnew (hclosed hk)
    refine (ht.spelled l₁ n l₂ hsplit' m hm).keep ?_ ?_
    · exact Draft.page_begun_ne d node (hne n (by simp [hsplit']))
    · intro k hk
      exact Draft.page_begun_ne d node (hne k (by simp [hsplit', hk]))
  unnoticed a ha := ht.unnoticed a (hb ▸ ha)

/-- What the innermost node reads of the nodes that its arrows lead to is what was written of them,
once all arrows are behind it. -/
theorem known_eq_text (ht : Tracks g indent guarded d w) (hv : w.Valid g starts) {id : NodeId}
    {below : List Frame} (hs : w.stack = ⟨id, []⟩ :: below)
    (hpages : ∀ n, n ≠ id → d'.page n = d.page n) {a : Arrow} (ha : a ∈ g.arrows id) :
    d'.known g w.closed a.target = d.text a.target := by
  have hseen : a.target ∈ w.seen := by
    rcases hv.passed [] ⟨id, []⟩ below hs a ha with h | h | h | h
    · cases h
    · exact (hv.back a h).1
    · exact (hv.mem_seen_iff _).mpr (Or.inr h)
    · cases h
  rw [Draft.known]
  cases hd : g.isDeclared a.target with
  | true => simp [Draft.text_of_inline (ht.named _ hseen hd)]
  | false =>
    by_cases hc : a.target ∈ w.closed
    · have hne : a.target ≠ id := by
        intro he
        refine hv.not_mem_closed ?_ hc
        simp [Walk.path, hs, he]
      simp [hc, Draft.text, hpages _ hne]
    · simp [hc, Draft.text, ht.missing _ hc hd]

/-- The draft goes on tracking when the innermost node is finished and closed. -/
theorem finished (ht : Tracks g indent guarded d w) (hv : w.Valid g starts) {id : NodeId}
    {node : Node} {below : List Frame} {e aug : String} (hnode : g.node? id = some node)
    (hs : w.stack = ⟨id, []⟩ :: below) (he : e = Spelling.expression d.text g (.orBlank indent) node)
    (haug : aug = Spelling.augmentation d.text node)
    (hindent : ∀ fields, node.shape = .object fields → fields ≠ [] →
      ∃ i, Indent.ofJson indent = .ok i) :
    Tracks g indent guarded (d.finished id node e aug)
      { w with closed := w.closed ++ [id], stack := below } := by
  have hid : id ∉ w.closed := hv.not_mem_closed (by simp [Walk.path, hs])
  have hpages : ∀ n, n ≠ id → (d.finished id node e aug).page n = d.page n :=
    fun n hn => Draft.page_finished_ne d node e aug hn
  constructor
  case started =>
    intro n
    by_cases hn : n = id
    · subst hn
      rw [← ht.started n, Draft.finished, Draft.page_turn, if_pos rfl]
      split <;> rfl
    · rw [hpages n hn]
      exact ht.started n
  case emission => exact ht.emission
  case named =>
    intro n hn hdecl
    by_cases hni : n = id
    · subst hni
      rw [← ht.named n hn hdecl]
      rw [Graph.isDeclared_of_node hnode] at hdecl
      simp [Draft.finished, Draft.page_turn, hdecl]
    · rw [hpages n hni]
      exact ht.named n hn hdecl
  case missing =>
    intro n hn hdecl
    obtain ⟨hn, hni⟩ : n ∉ w.closed ∧ n ≠ id := by simpa using hn
    rw [hpages n hni]
    exact ht.missing n hn hdecl
  case spelled =>
    intro l₁ n l₂ hsplit m hm
    rcases List.eq_nil_or_concat l₂ with rfl | ⟨l₂, k, rfl⟩
    · obtain ⟨rfl, hni⟩ := List.append_inj' hsplit rfl
      obtain rfl : id = n := by simpa using hni
      obtain rfl : node = m := Option.some.inj (hnode.symm.trans hm)
      obtain ⟨hexpr, haugm⟩ := Spelling.expression_congr (.orBlank indent) hnode
        fun a ha => ht.known_eq_text hv hs hpages ha
      refine ⟨fun hdecl => ?_, fun hdecl => ?_, hindent⟩
      · rw [Draft.inline_finished d e aug hdecl, Spelling.inline, hdecl, hexpr, haugm, ← he, ← haug]
        rfl
      · rw [Draft.block_finished d e aug hdecl, Spelling.block, hexpr, haugm, ← he, ← haug]
    · have hsplit' : w.closed = l₁ ++ n :: l₂ := by
        have hlast : w.closed ++ [id] = (l₁ ++ n :: l₂) ++ [k] := by simpa using hsplit
        exact (List.append_inj' hlast rfl).1
      have hne : ∀ k ∈ w.closed, k ≠ id := by
        rintro k hk rfl
        exact hid hk
      refine (ht.spelled l₁ n l₂ hsplit' m hm).keep ?_ ?_
      · exact hpages n (hne n (by simp [hsplit']))
      · intro k hk
        exact hpages k (hne k (by simp [hsplit', hk]))
  case unnoticed => exact ht.unnoticed

end Tracks

end

end TypeScribe
