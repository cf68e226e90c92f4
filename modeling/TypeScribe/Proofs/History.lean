import TypeScribe.Proofs.Diary
import TypeScribe.Proofs.Labels
import TypeScribe.Proofs.Loading

/-!
# What a diary says

The table of keys is written in several places, one of them without looking, and in the middle of
constructions that write to it themselves. What holds of it holds at every moment of the diary
(`History`):

* **Keys are written once.** From each moment to every later one keys stand for what they stood for, and
  nodes keep their labels (`Graph.Precedes`).
* **Ids are distinct.** A fragment gets a node only if its id is not known, and then the node is entered
  under it at once.
* **References lead to named nodes.** When a node is given its link, the key of the link stands for a node
  with a name, and the link is never changed again: the parts of a node are built once, and whatever is
  built meanwhile has a higher number (`Diary.Since`).

Here it is shown for each step there is. A diary is **sound** as long as construction goes on, and if it
stops, it stops for a **cause** (`Diary.Sound`, `Diary.Failed`).
-/

namespace TypeScribe

/-! ## Graphs in time -/

/-- The id in a label, if it is a text with at least one character. -/
def Label.id? (label : Label) : Option String := (label.source.field? "id").bind Json.filledText?

namespace Graph

/-- **The id of a node.** -/
def id? (g : Graph) (n : NodeId) : Option String := (g.node? n).bind fun node => node.label.id?

/-- The shape of a node. -/
def shape? (g : Graph) (n : NodeId) : Option Shape := (g.node? n).map Node.shape

/-- **One graph precedes another**: keys still stand for what they stood for, and nodes have the numbers and
the labels they had. -/
structure Precedes (g g' : Graph) : Prop where
  table : ∀ key n, g.find? key = some n → g'.find? key = some n
  labels : g.labels <+: g'.labels

/-- **Ids are distinct**: no two nodes have the same. -/
def Distinct (g : Graph) : Prop := ∀ n m id, g.id? n = some id → g.id? m = some id → n = m

/-- Nodes are **entered** under their ids. -/
def Entered (g : Graph) : Prop := ∀ n id, g.id? n = some id → g.find? id = some n

/-- A key stands for a node **with a name**. -/
def Named (g : Graph) (key : String) : Prop :=
  ∃ n node, g.find? key = some n ∧ g.node? n = some node ∧ node.name ≠ ""

variable {g g' g'' : Graph} {id : NodeId}

theorem id?_eq_labels (g : Graph) (n : NodeId) : g.id? n = g.labels[n]?.bind Label.id? := by
  rw [getElem?_labels, id?]
  cases g.node? n <;> rfl

/-- Where every id leads to the node that has it, no two nodes have one id. -/
theorem Entered.distinct (h : g.Entered) : g.Distinct := by
  intro n m id hn hm
  exact Option.some.inj ((h n id hn).symm.trans (h m id hm))

theorem size_eq_labels (g : Graph) : g.size = g.labels.length := by simp [size, labels]

theorem shape?_push (node : Node) (n : NodeId) :
    (g.push node).shape? n = if n = g.size then some node.shape else g.shape? n := by
  simp only [shape?, node?, push, size, Array.getElem?_push]
  by_cases hn : n = g.nodes.size <;> simp [hn]

theorem size_push (g : Graph) (node : Node) : (g.push node).size = g.size + 1 := by
  simp [size, push]

/-- A new node brings its own id, and the others keep theirs. -/
theorem id?_push (node : Node) (n : NodeId) :
    (g.push node).id? n = if n = g.size then node.label.id? else g.id? n := by
  simp only [id?, node?, push, size, Array.getElem?_push]
  by_cases hn : n = g.nodes.size <;> simp [hn]

theorem shape?_adjust (id : NodeId) (f : Node → Node) (n : NodeId) :
    (g.adjust id f).shape? n =
      if id = n then (g.node? n).map fun node => (f node).shape else g.shape? n := by
  simp only [shape?, node?, adjust, Array.getElem?_modify]
  split
  · rw [Option.map_map]
    rfl
  · rfl

namespace Precedes

theorem refl (g : Graph) : g.Precedes g := ⟨fun _ _ h => h, List.prefix_refl _⟩

theorem trans (h : g.Precedes g') (h' : g'.Precedes g'') : g.Precedes g'' :=
  ⟨fun key n hfind => h'.table key n (h.table key n hfind), h.labels.trans h'.labels⟩

theorem push (g : Graph) (node : Node) : g.Precedes (g.push node) :=
  ⟨fun _ _ h => h, by rw [labels_push]; exact List.prefix_append ..⟩

theorem adjust (g : Graph) (id : NodeId) {f : Node → Node} (hf : ∀ node, (f node).label = node.label) :
    g.Precedes (g.adjust id f) :=
  ⟨fun _ _ h => h, by rw [labels_adjust g id hf]⟩

/-- A key is bound that stands for nothing else. -/
theorem bind {key : String} (hnew : ∀ n, g.find? key = some n → n = id) :
    g.Precedes (g.bind key id) := by
  refine ⟨?_, List.prefix_refl _⟩
  intro k n hfind
  rw [find_bind]
  split
  · rename_i hk
    rw [hnew n (hk ▸ hfind)]
  · exact hfind

theorem size_le (h : g.Precedes g') : g.size ≤ g'.size := by
  rw [size_eq_labels, size_eq_labels]
  exact h.labels.length_le

/-- A node stays, with its label. -/
theorem exists_node (h : g.Precedes g') {n : NodeId} {node : Node} (hnode : g.node? n = some node) :
    ∃ node', g'.node? n = some node' ∧ node'.label = node.label := by
  have hlabel : g.labels[n]? = some node.label := by rw [getElem?_labels, hnode]; rfl
  obtain ⟨more, hmore⟩ := h.labels
  have hstays : g'.labels[n]? = some node.label := by
    rw [← hmore, List.getElem?_append_left (List.getElem?_eq_some_iff.mp hlabel).1, hlabel]
  rw [getElem?_labels] at hstays
  exact Option.map_eq_some_iff.mp hstays

/-- Nodes stay entered if there are no others. -/
theorem entered (h : g.Precedes g') (hlabels : g'.labels = g.labels) (he : g.Entered) : g'.Entered := by
  intro n id hid
  rw [id?_eq_labels, hlabels, ← id?_eq_labels] at hid
  exact h.table id n (he n id hid)

/-- A key that names a node goes on naming it. -/
theorem named (h : g.Precedes g') {key : String} (hk : g.Named key) : g'.Named key := by
  obtain ⟨n, node, hfind, hnode, hname⟩ := hk
  obtain ⟨node', hnode', hlabel⟩ := h.exists_node hnode
  have hsame : node'.name = node.name := congrArg Label.name hlabel
  exact ⟨n, node', h.table key n hfind, hnode', hsame ▸ hname⟩

end Precedes

/-- Lets a key stand for a node, if it is not empty. -/
def bindKey (g : Graph) (key : String) (id : NodeId) : Graph := if key = "" then g else g.bind key id

/-- The empty key is never bound. -/
theorem find_bindKey (g : Graph) (key : String) (id : NodeId) (k : String) :
    (g.bindKey key id).find? k = if k = key ∧ k ≠ "" then some id else g.find? k := by
  rw [bindKey]
  split
  · rename_i hkey
    subst hkey
    rw [if_neg (by simp)]
  · rw [find_bind]
    split <;> simp_all

@[simp]
theorem labels_bindKey (key : String) (id : NodeId) : (g.bindKey key id).labels = g.labels := by
  rw [bindKey]
  split <;> rfl

@[simp]
theorem shape?_bindKey (key : String) (id n : NodeId) : (g.bindKey key id).shape? n = g.shape? n := by
  rw [bindKey]
  split <;> rfl

/-- Binding a key that leads nowhere else keeps all that was known. -/
theorem Precedes.bindKey {key : String} (hnew : ∀ n, g.find? key = some n → n = id) :
    g.Precedes (g.bindKey key id) := by
  rw [Graph.bindKey]
  split
  · exact .refl g
  · exact .bind hnew

theorem ranged_bind {key : String} (h : g.Ranged) (hlt : id < g.size) : (g.bind key id).Ranged := by
  intro k n hfind
  rw [find_bind] at hfind
  split at hfind
  · obtain rfl : id = n := Option.some.inj hfind
    exact hlt
  · exact h k n hfind

end Graph

/-! ## Histories -/

/-- The graph at the end of what was noted. -/
def lastGraph (past : List Moment) : Graph := (past.getLast?.map Moment.graph).getD {}

/-- A node has been given its link. -/
def HasLink (n : NodeId) (past : List Moment) : Prop := ∃ m ∈ past, ∃ link, m.deed = .linked n link

/-- **A history leads to a graph**: keys are written once, ids are distinct at every moment, the link that a
node was given leads to a node with a name and stays, and whatever refers to something was given a
link. -/
structure History (past : List Moment) (g : Graph) : Prop where
  last : g = lastGraph past
  course : past.Pairwise fun m m' => m.graph.Precedes m'.graph
  distinct : ∀ m ∈ past, m.graph.Distinct
  linked : ∀ m ∈ past, ∀ id link, m.deed = .linked id link →
    m.graph.Named link.target ∧ g.shape? id = some (.reference link.ref link.target)
  references : ∀ id ref target, g.shape? id = some (.reference ref target) → ref ≠ "" ∨ target ≠ "" →
    ∃ m ∈ past, m.deed = .linked id ⟨ref, target⟩

namespace History

variable {past : List Moment} {g g' : Graph}

theorem nil : History [] {} where
  last := rfl
  course := .nil
  distinct := by simp
  linked := by simp
  references := by
    intro id ref target h
    cases h

/-- Every moment precedes the end. -/
theorem precedes (h : History past g) {m : Moment} (hm : m ∈ past) : m.graph.Precedes g := by
  obtain ⟨init, last, rfl⟩ : ∃ init last, past = init ++ [last] :=
    (List.eq_nil_or_concat' past).resolve_left (List.ne_nil_of_mem hm)
  obtain rfl : g = last.graph := by simpa [lastGraph] using h.last
  rcases List.mem_append.mp hm with hm | hm
  · exact (List.pairwise_append.mp h.course).2.2 m hm last (List.mem_singleton_self last)
  · obtain rfl := List.mem_singleton.mp hm
    exact .refl _

/-- At the end of a history no two nodes have one id. -/
theorem distinct_last (h : History past g) : g.Distinct := by
  rcases List.eq_nil_or_concat' past with rfl | ⟨init, last, rfl⟩
  · obtain rfl : g = {} := h.last
    intro n m id hn
    cases hn
  · obtain rfl : g = last.graph := by simpa [lastGraph] using h.last
    exact h.distinct last (by simp)

/-- **One more moment**: keys and labels are kept, and so are the shapes of nodes that were given a link. -/
theorem note (h : History past g) (deed : Deed) (hprecedes : g.Precedes g') (hdistinct : g'.Distinct)
    (hkept : ∀ id, HasLink id past → g'.shape? id = g.shape? id)
    (hdeed : ∀ id link, deed = .linked id link →
      g'.Named link.target ∧ g'.shape? id = some (.reference link.ref link.target))
    (hreferences : ∀ id ref target, g'.shape? id = some (.reference ref target) → ref ≠ "" ∨ target ≠ "" →
      g.shape? id = some (.reference ref target) ∨ deed = .linked id ⟨ref, target⟩) :
    History (past ++ [⟨deed, g'⟩]) g' where
  last := by simp [lastGraph]
  course := by
    refine List.pairwise_append.mpr ⟨h.course, List.pairwise_singleton .., ?_⟩
    intro m hm last hlast
    obtain rfl := List.mem_singleton.mp hlast
    exact (h.precedes hm).trans hprecedes
  distinct m hm := by
    rcases List.mem_append.mp hm with hm | hm
    · exact h.distinct m hm
    · obtain rfl := List.mem_singleton.mp hm
      exact hdistinct
  linked m hm id link hlink := by
    rcases List.mem_append.mp hm with hm | hm
    · obtain ⟨hnamed, hshape⟩ := h.linked m hm id link hlink
      exact ⟨hnamed, (hkept id ⟨m, hm, link, hlink⟩).trans hshape⟩
    · obtain rfl := List.mem_singleton.mp hm
      exact hdeed id link hlink
  references id ref target hshape hne := by
    rcases hreferences id ref target hshape hne with hbefore | hnow
    · obtain ⟨m, hm, hlink⟩ := h.references id ref target hbefore hne
      exact ⟨m, List.mem_append_left _ hm, hlink⟩
    · exact ⟨⟨deed, g'⟩, by simp, hnow⟩

/-- One more moment at which nothing but the table has changed. -/
theorem note_table (h : History past g) {deed : Deed} (hdeed : ∀ id link, deed ≠ .linked id link)
    (hprecedes : g.Precedes g') (hlabels : g'.labels = g.labels)
    (hshapes : ∀ id, g'.shape? id = g.shape? id) : History (past ++ [⟨deed, g'⟩]) g' := by
  refine h.note deed hprecedes ?_ (fun id _ => hshapes id) ?_ ?_
  · intro n m id hn hm
    rw [Graph.id?_eq_labels, hlabels, ← Graph.id?_eq_labels] at hn hm
    exact h.distinct_last n m id hn hm
  · exact fun id link heq => absurd heq (hdeed id link)
  · exact fun id ref target hshape _ => Or.inl (hshapes id ▸ hshape)

/-- Whatever was given a link is a node. -/
theorem lt_size (h : History past g) {n : NodeId} (hn : HasLink n past) : n < g.size := by
  obtain ⟨m, hm, link, hlink⟩ := hn
  obtain ⟨-, hshape⟩ := h.linked m hm n link hlink
  obtain ⟨node, hnode, -⟩ := Option.map_eq_some_iff.mp hshape
  exact Graph.lt_size_of_node hnode

/-- **A new node** with an id that is not known, and with no parts yet. -/
theorem push (h : History past g) (he : g.Entered) {node : Node}
    (hnew : ∀ id, node.label.id? = some id → g.find? id = none)
    (hshape : ∀ ref target, node.shape = .reference ref target → ref = "" ∧ target = "") :
    History (past ++ [⟨.changed, g.push node⟩]) (g.push node) := by
  have hother : ∀ n id, node.label.id? = some id → g.id? n ≠ some id := by
    intro n id hid hn
    cases (hnew id hid).symm.trans (he n id hn)
  refine h.note _ (.push g node) ?_ ?_ (by simp) ?_
  · intro n m id hn hm
    rw [Graph.id?_push] at hn hm
    split at hn <;> split at hm
    · exact Eq.trans ‹_› (Eq.symm ‹_›)
    · exact absurd hm (hother m id hn)
    · exact absurd hn (hother n id hm)
    · exact he.distinct n m id hn hm
  · intro id hlink
    rw [Graph.shape?_push, if_neg (Nat.ne_of_lt (h.lt_size hlink))]
  · intro id ref target hid hne
    rw [Graph.shape?_push] at hid
    split at hid
    · obtain ⟨rfl, rfl⟩ := hshape ref target (Option.some.inj hid)
      simp at hne
    · exact Or.inl hid

end History

/-! ## Diaries -/

/-- **Why a construction fails.** -/
inductive Cause {σ : Type} [Source σ] (start : σ) (settings : Settings) (past : List Moment) :
    Failure → Prop where
  | unsupported (source : Json) (path : String) : Cause start settings past (.unsupported source path)
  | unnamed (source : Json) (path : String) : Cause start settings past (.unnamed source path)
  | endless : Cause start settings past .endless
  | unlocated {ref : String} {failure : Failure} (fails : settings.locate ref = .error failure) :
      Cause start settings past failure
  | unloaded {source : σ} {location : String} {fault : LoadFault} (becomes : Source.Becomes start source)
      (fails : (Source.load source location).result = .error fault) :
      Cause start settings past (fault.failure location)
  | broken {fields : Entries Json} {g : Graph} {defect : Defect}
      (reached : ⟨.reached (.obj fields), g⟩ ∈ past) (kind : Kind.ofFields? fields = some .object)
      (defective : Schema.Defective fields defect) : Cause start settings past defect.failure

namespace Diary

variable {σ : Type} {b b' : Nat} {d d' d'' : Diary σ}

/-- **One diary since another**: there is more in it, and links were only given to nodes with numbers from
`b` on. -/
structure Since (b : Nat) (d d' : Diary σ) : Prop where
  past : d.past <+: d'.past
  size : d.graph.size ≤ d'.graph.size
  links : ∀ n, HasLink n d'.past → HasLink n d.past ∨ b ≤ n

namespace Since

theorem refl (b : Nat) (d : Diary σ) : d.Since b d :=
  ⟨List.prefix_refl _, Nat.le_refl _, fun _ h => Or.inl h⟩

theorem trans (h : d.Since b d') (h' : d'.Since b d'') : d.Since b d'' where
  past := h.past.trans h'.past
  size := Nat.le_trans h.size h'.size
  links n hn := (h'.links n hn).elim (h.links n) Or.inr

theorem mono (h : d.Since b d') (hle : b' ≤ b) : d.Since b' d' :=
  ⟨h.past, h.size, fun n hn => (h.links n hn).imp_right (Nat.le_trans hle)⟩

/-- A node with a lower number is given no link. -/
theorem unlinked (h : d.Since b d') {n : NodeId} (hlt : n < b) (hn : ¬ HasLink n d.past) :
    ¬ HasLink n d'.past :=
  fun hlink => (h.links n hlink).elim hn (Nat.not_le.mpr hlt)

/-- A diary goes on with each deed, if the deed links no node below the bound. -/
theorem after {w : Workshop σ} (deed : Deed) (hsize : d.graph.size ≤ w.graph.size)
    (hdeed : ∀ n link, deed = .linked n link → b ≤ n) : d.Since b (d.after deed w) where
  past := List.prefix_append ..
  size := hsize
  links n := by
    rintro ⟨m, hm, link, hlink⟩
    rcases List.mem_append.mp hm with hm | hm
    · exact Or.inl ⟨m, hm, link, hlink⟩
    · obtain rfl := List.mem_singleton.mp hm
      exact Or.inr (hdeed n link hlink)

end Since

variable [Source σ] {start : σ} {settings : Settings}

/-- **Diaries of a construction** that goes on. -/
structure Sound (start : σ) (d : Diary σ) : Prop where
  source : Source.Becomes start d.workshop.source
  ranged : d.graph.Ranged
  entered : d.graph.Entered
  history : History d.past d.graph

/-- Diaries of a construction that has failed. -/
structure Failed (start : σ) (settings : Settings) (failure : Failure) (d : Diary σ) : Prop where
  history : History d.past d.graph
  cause : Cause start settings d.past failure

/-- Diaries of a construction that goes on from another diary. -/
structure Onward (start : σ) (b : Nat) (d d' : Diary σ) : Prop where
  sound : d'.Sound start
  since : d.Since b d'

namespace Onward

theorem trans (h : Onward start b d d') (h' : Onward start b d' d'') : Onward start b d d'' :=
  ⟨h'.sound, h.since.trans h'.since⟩

theorem mono (h : Onward start b d d') (hle : b' ≤ b) : Onward start b' d d' :=
  ⟨h.sound, h.since.mono hle⟩

end Onward

namespace Sound

theorem onward (h : d.Sound start) (b : Nat) : Onward start b d d := ⟨h, .refl b d⟩

theorem failed (h : d.Sound start) {failure : Failure} (hc : Cause start settings d.past failure) :
    Failed start settings failure d := ⟨h.history, hc⟩

/-- What does not touch the graph is of no account. -/
theorem quiet (h : d.Sound start) {w : Workshop σ} (hgraph : w.graph = d.graph)
    (hsource : Source.Becomes start w.source) : Sound start { d with workshop := w } := by
  have hsame : Diary.graph { d with workshop := w } = d.graph := hgraph
  exact ⟨hsource, hsame ▸ h.ranged, hsame ▸ h.entered, hsame ▸ h.history⟩

/-- Nothing but the table has changed. -/
theorem table (h : d.Sound start) {deed : Deed} (hdeed : ∀ id link, deed ≠ .linked id link)
    {w : Workshop σ} (hsource : w.source = d.workshop.source) (hranged : w.graph.Ranged)
    (hprecedes : d.graph.Precedes w.graph) (hlabels : w.graph.labels = d.graph.labels)
    (hshapes : ∀ id, w.graph.shape? id = d.graph.shape? id) : (d.after deed w).Sound start where
  source := hsource ▸ h.source
  ranged := hranged
  entered := hprecedes.entered hlabels h.entered
  history := h.history.note_table hdeed hprecedes hlabels hshapes

/-- A fragment is reached. -/
theorem reach (h : d.Sound start) (fragment : Json) :
    (d.after (.reached fragment) d.workshop).Sound start :=
  h.table (by simp) rfl h.ranged (.refl _) rfl fun _ => rfl

/-- **A key is bound** to a node, if it stands for nothing yet. -/
theorem bindNew (h : d.Sound start) (key : String) {id : NodeId} (hlt : id < d.graph.size) :
    (d.after .changed (d.workshop.update
      (if d.graph.knows key = true then d.graph else d.graph.bind key id) [])).Sound start := by
  by_cases hknown : d.graph.knows key = true
  · rw [if_pos hknown]
    exact h.table (by simp) rfl h.ranged (.refl _) rfl fun _ => rfl
  · rw [if_neg hknown]
    refine h.table (by simp) rfl (Graph.ranged_bind h.ranged hlt) (.bind fun n hn => ?_) rfl fun _ => rfl
    exact absurd (by rw [Graph.knows, hn]; rfl) hknown

/-- **A node is changed** that was given no link, or keeps its shape, and refers to nothing that it did not
refer to. -/
theorem adjust (h : d.Sound start) {id : NodeId} {f : Node → Node}
    (hlabel : ∀ node, (f node).label = node.label)
    (hkept : HasLink id d.past → ∀ node, (f node).shape = node.shape)
    (hshape : ∀ node ref target, (f node).shape = .reference ref target →
      node.shape = .reference ref target) :
    (d.after .changed (d.workshop.adjust id f)).Sound start := by
  have hprecedes : d.graph.Precedes (d.graph.adjust id f) := .adjust _ id hlabel
  have hentered := hprecedes.entered (Graph.labels_adjust _ id hlabel) h.entered
  have hhistory : History (d.past ++ [⟨.changed, d.graph.adjust id f⟩]) (d.graph.adjust id f) := by
    refine h.history.note _ hprecedes hentered.distinct ?_ (by simp) ?_
    · intro n hn
      rw [Graph.shape?_adjust]
      split
      · subst n
        simp only [hkept hn]
        rfl
      · rfl
    · intro n ref target hn _
      rw [Graph.shape?_adjust] at hn
      split at hn
      · obtain ⟨node, hnode, hf⟩ := Option.map_eq_some_iff.mp hn
        exact Or.inl (by rw [Graph.shape?, hnode, Option.map_some, hshape node ref target hf])
      · exact Or.inl hn
  exact ⟨h.source, (Graph.Grows.adjust d.graph id f).ranged h.ranged, hentered, hhistory⟩

/-- **A node is given its link.** -/
theorem link (h : d.Sound start) {id : NodeId} {l : Link} (hlt : id < d.graph.size)
    (hn : ¬ HasLink id d.past) (hnamed : d.graph.Named l.target) :
    (d.after (.linked id l)
      (d.workshop.adjust id fun node => { node with shape := .reference l.ref l.target })).Sound start := by
  let f : Node → Node := fun node => { node with shape := .reference l.ref l.target }
  have hprecedes : d.graph.Precedes (d.graph.adjust id f) := .adjust _ id fun _ => rfl
  have hentered := hprecedes.entered (Graph.labels_adjust _ id fun _ => rfl) h.entered
  have hhistory : History (d.past ++ [⟨.linked id l, d.graph.adjust id f⟩]) (d.graph.adjust id f) := by
    refine h.history.note _ hprecedes hentered.distinct ?_ ?_ ?_
    · intro n hlink
      have hne : id ≠ n := by
        rintro rfl
        exact hn hlink
      rw [Graph.shape?_adjust, if_neg hne]
    · rintro n link ⟨⟩
      obtain ⟨node, hnode⟩ := Graph.exists_node hlt
      exact ⟨hprecedes.named hnamed, by rw [Graph.shape?_adjust, if_pos rfl, hnode]; rfl⟩
    · intro n ref target hshape _
      rw [Graph.shape?_adjust] at hshape
      split at hshape
      · subst n
        obtain ⟨node, -, heq⟩ := Option.map_eq_some_iff.mp hshape
        obtain ⟨rfl, rfl⟩ := Shape.reference.inj heq
        exact Or.inr rfl
      · exact Or.inl hshape
  exact ⟨h.source, (Graph.Grows.adjust d.graph id f).ranged h.ranged, hentered, hhistory⟩

end Sound

/-- **Entering a node** under keys: nothing else has changed, and the keys stand for the node. -/
structure Entering (id : NodeId) (keys : List String) (d d' : Diary σ) : Prop where
  source : d'.workshop.source = d.workshop.source
  ranged : d'.graph.Ranged
  history : History d'.past d'.graph
  precedes : d.graph.Precedes d'.graph
  labels : d'.graph.labels = d.graph.labels
  since : ∀ b, d.Since b d'
  bound : ∀ key ∈ keys, key ≠ "" → d'.graph.find? key = some id

end Diary

section

variable {σ : Type} {id : NodeId} {path : String} {bad : Failure → Diary σ → Prop}

theorem Build.register_apply (id : NodeId) (path key : String) (w : Workshop σ) :
    register id path key w =
      .ok () (w.update (w.graph.bindKey key id) (registrations path [key])) := by
  rw [register, Graph.bindKey]
  by_cases hkey : key = ""
  · simp only [hkey, if_true, registrations, Workshop.update]
    rfl
  · simp only [hkey, if_false, registrations, Workshop.update]
    simp [hkey]
    rfl

/-- **A node is entered** under keys that stand for nothing else. -/
theorem Traced.registerAll_follows (keys : List String) : ∀ {d : Diary σ}, d.graph.Ranged →
    History d.past d.graph → id < d.graph.size →
    (∀ key ∈ keys, ∀ n, d.graph.find? key = some n → n = id) →
    Follows (fun _ => Diary.Entering id keys d) bad (Build.registerAll id path keys d.workshop)
      (Traced.registerAll id path keys d) := by
  induction keys with
  | nil =>
    intro d hranged hhistory _ _
    exact .ok ⟨rfl, hranged, hhistory, .refl _, rfl, fun b => .refl b d, by simp⟩
  | cons key rest ih =>
    intro d hranged hhistory hlt hkeys
    let d₁ := d.after .changed (d.workshop.update (d.graph.bindKey key id) (registrations path [key]))
    have hone : Follows (fun _ d' => d' = d₁) bad (Build.register id path key d.workshop)
        (Traced.noted .changed (Build.register id path key) d) :=
      .noted (Build.register_apply id path key d.workshop) rfl
    refine hone.bind ?_
    rintro _ d' rfl
    have hfind : ∀ k n, d₁.graph.find? k = some n → n = id ∨ d.graph.find? k = some n := by
      intro k n hn
      rw [show d₁.graph = d.graph.bindKey key id from rfl, Graph.find_bindKey] at hn
      split at hn
      · exact Or.inl (Option.some.inj hn).symm
      · exact Or.inr hn
    have hprecedes : d.graph.Precedes d₁.graph := .bindKey (hkeys key (List.mem_cons_self ..))
    have hlabels : d₁.graph.labels = d.graph.labels := Graph.labels_bindKey key id
    have hlt₁ : id < d₁.graph.size := Nat.lt_of_lt_of_le hlt hprecedes.size_le
    have hranged₁ : d₁.graph.Ranged := by
      intro k n hn
      rcases hfind k n hn with rfl | hn
      · exact hlt₁
      · exact Nat.lt_of_lt_of_le (hranged k n hn) hprecedes.size_le
    have hhistory₁ : History d₁.past d₁.graph :=
      hhistory.note_table (by simp) hprecedes hlabels (Graph.shape?_bindKey key id)
    refine (ih hranged₁ hhistory₁ hlt₁ ?_).imp ?_
    · intro k hk n hn
      exact (hfind k n hn).elim (fun h => h) (hkeys k (List.mem_cons_of_mem _ hk) n)
    · intro _ d₂ h
      refine ⟨h.source, h.ranged, h.history, hprecedes.trans h.precedes, h.labels.trans hlabels, ?_, ?_⟩
      · exact fun b => (Diary.Since.after .changed hprecedes.size_le (by simp)).trans (h.since b)
      · intro k hk hne
        rcases List.mem_cons.mp hk with rfl | hk
        · refine h.precedes.table k id ?_
          change (d.graph.bindKey k id).find? k = some id
          rw [Graph.find_bindKey, if_pos ⟨rfl, hne⟩]
        · exact h.bound k hk hne

/-- **A node is begun**: it is there, entered under its keys, and its parts are to be built. -/
structure Diary.Begun [Source σ] (start : σ) (fields : Entries Json) (d d' : Diary σ) : Prop extends
    Diary.Onward start d.graph.size d d' where
  lt : d.graph.size < d'.graph.size
  unlinked : ¬ HasLink d.graph.size d'.past
  reached : ⟨.reached (.obj fields), d.graph⟩ ∈ d'.past

/-- A node is added whose id is not known. -/
theorem Diary.Sound.add [Source σ] {start : σ} {fields : Entries Json} {d : Diary σ} (hd : d.Sound start)
    (hnew : (Schema.factsOf fields).id.bind d.graph.find? = none) (body : Body) (groups : List Group)
    (name : Option String) :
    History (d.add (.obj fields) (Schema.node (Schema.factsOf fields) body groups name path)).past
      (d.graph.push (Schema.node (Schema.factsOf fields) body groups name path)) := by
  refine (hd.reach (.obj fields)).history.push hd.entered ?_ ?_
  · intro id hid
    rw [show (Schema.factsOf fields).id = some id from hid] at hnew
    exact hnew
  · intro ref target hshape
    cases body <;> cases hshape
    exact ⟨rfl, rfl⟩

theorem Diary.since_add (b : Nat) (d : Diary σ) (fragment : Json) (node : Node) :
    d.Since b (d.add fragment node) := by
  refine (Since.after _ (Nat.le_refl _) (by simp)).trans (Since.after _ ?_ (by simp))
  exact (Graph.size_push d.graph node).symm ▸ Nat.le_succ _

/-- **A fragment begins a node** if its id and its other keys are not known. -/
theorem Traced.begin_follows [Source σ] {start : σ} {fields : Entries Json} {keys : List String}
    {d : Diary σ} (hd : d.Sound start) (hnew : (Schema.factsOf fields).id.bind d.graph.find? = none)
    (hkeys : ∀ key ∈ keys, d.graph.knows key = false) (body : Body) (groups : List Group)
    (name : Option String) :
    Follows (fun _ => Diary.Begun start fields d) bad
      (Build.registerAll d.graph.size path ((Schema.factsOf fields).id.toList ++ keys)
        (d.add (.obj fields) (Schema.node (Schema.factsOf fields) body groups name path)).workshop)
      (Traced.registerAll d.graph.size path ((Schema.factsOf fields).id.toList ++ keys)
        (d.add (.obj fields) (Schema.node (Schema.factsOf fields) body groups name path))) := by
  let node := Schema.node (Schema.factsOf fields) body groups name path
  have hsize := Graph.size_push d.graph node
  have hranged := (Graph.Grows.push d.graph node).ranged hd.ranged
  have hsince := fun b => Diary.since_add b d (.obj fields) node
  have hlt : d.graph.size < (d.graph.push node).size := hsize.symm ▸ Nat.lt_succ_self _
  refine (Traced.registerAll_follows (d := d.add (.obj fields) node) _ hranged
    (hd.add hnew body groups name) hlt ?_).imp ?_
  · intro key hkey n hn
    have hn : d.graph.find? key = some n := hn
    rcases List.mem_append.mp hkey with hkey | hkey
    · rw [Option.mem_toList.mp hkey] at hnew
      cases hnew.symm.trans hn
    · have hunknown := hkeys key hkey
      rw [Graph.knows, hn] at hunknown
      cases hunknown
  · intro _ d₂ h
    have hentered : d₂.graph.Entered := by
      intro n id hn
      rw [Graph.id?_eq_labels, h.labels, ← Graph.id?_eq_labels] at hn
      rw [show (d.add (.obj fields) node).graph = d.graph.push node from rfl, Graph.id?_push] at hn
      split at hn
      · subst n
        have hn : (Schema.factsOf fields).id = some id := hn
        obtain ⟨v, -, hfilled⟩ := Option.bind_eq_some_iff.mp hn
        exact h.bound id (List.mem_append_left _ (by simp [hn])) (Json.filledText?_eq_some.mp hfilled).2
      · exact h.precedes.table id n (hd.entered n id hn)
    refine ⟨⟨⟨h.source ▸ hd.source, h.ranged, hentered, h.history⟩, (hsince _).trans (h.since _)⟩,
      Nat.lt_of_lt_of_le hlt h.precedes.size_le, ?_, ?_⟩
    · refine ((hsince _).trans (h.since _)).unlinked (Nat.lt_succ_self _) ?_
      exact fun hlink => Nat.lt_irrefl _ (hd.history.lt_size hlink)
    · refine (h.since 0).past.subset ?_
      simp [Diary.add, Diary.after, Diary.graph]

end

end TypeScribe
