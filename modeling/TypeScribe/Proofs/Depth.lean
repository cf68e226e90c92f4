import TypeScribe.Proofs.Tracking
import TypeScribe.Proofs.Together
import Mathlib.Data.Finset.Card

/-!
# Conversion needs no more depth than there are nodes

Whatever a conversion enters it has started before, and what is started is not entered again. So the
nodes that are being converted one inside the other are all different, and a conversion that may enter as
many as are not started yet does the same as one that may enter more
(`Graph.convertWithin_alike`).
-/

namespace TypeScribe

/-- The nodes whose conversion has not started. -/
def Draft.unstarted (d : Draft) (g : Graph) : Finset NodeId :=
  (Finset.range g.size).filter fun id => (d.page id).started = false

/-- Two steps are **alike** as long as at most a number of nodes is not started: they do the same, and
start more nodes if anything. They may fail, though not for want of a budget of loads. -/
def Alike {α : Type} (g : Graph) (count : Nat) (m m' : Write α) : Prop :=
  ∀ d : Draft, (d.unstarted g).card ≤ count →
    Together (fun s t => s = t ∧ (s.unstarted g).card ≤ count) (fun e s t => s = t ∧ e ≠ .endless)
      (m d) (m' d)

namespace Draft

variable {g : Graph} {d : Draft} {id : NodeId} {node : Node}

theorem mem_unstarted {n : NodeId} : n ∈ d.unstarted g ↔ n < g.size ∧ (d.page n).started = false := by
  simp [unstarted]

/-- One node less is not started when a node is begun. -/
theorem unstarted_begun (hid : id ∈ d.unstarted g) :
    ((d.begun id node).unstarted g).card < (d.unstarted g).card := by
  have hstarted : ((d.begun id node).page id).started = true := by
    rw [begun]
    split <;> simp [page_turn]
  refine Finset.card_lt_card (Finset.ssubset_iff_subset_ne.mpr ⟨?_, ?_⟩)
  · intro n hn
    obtain ⟨hlt, hn⟩ := mem_unstarted.mp hn
    by_cases heq : n = id
    · rw [heq]
      exact hid
    · rw [page_begun_ne d node heq] at hn
      exact mem_unstarted.mpr ⟨hlt, hn⟩
  · intro heq
    rw [← heq, mem_unstarted, hstarted] at hid
    cases hid.2

/-- Finishing a node starts none. -/
theorem unstarted_finished (g : Graph) (d : Draft) (id : NodeId) (node : Node) (e a : String) :
    (d.finished id node e a).unstarted g = d.unstarted g := by
  refine Finset.filter_congr fun n _ => ?_
  by_cases heq : n = id
  · subst heq
    rw [finished, page_turn, if_pos rfl]
    cases node.declared <;> rfl
  · rw [page_finished_ne d node e a heq]

end Draft

namespace Alike

variable {α β : Type} {g : Graph} {count : Nat} {m m' : Write α} {k k' : α → Write β}

theorem bind (h : Alike g count m m') (hk : ∀ a, Alike g count (k a) (k' a)) :
    Alike g count (m >>= k) (m' >>= k') := by
  intro d hd
  refine Together.bind (h d hd) ?_
  rintro a s _ ⟨rfl, hs⟩
  exact hk a s hs

/-- A step that leaves the draft alone. -/
theorem reads (h : ∀ d, (∃ a, m d = .ok a d) ∨ ∃ e, m d = .error e d ∧ e ≠ .endless) :
    Alike g count m m := by
  intro d hd
  rcases h d with ⟨a, hm⟩ | ⟨e, hm, hne⟩
  · rw [hm]
    exact .ok ⟨rfl, hd⟩
  · rw [hm]
    exact .error ⟨rfl, hne⟩

section

variable {convert convert' : NodeId → Write Unit}

theorem texts (h : ∀ id, id < g.size → Alike g count (convert id) (convert' id)) (ids : List NodeId)
    (hids : ∀ id ∈ ids, id < g.size) :
    Alike g count (Write.texts convert ids) (Write.texts convert' ids) := by
  induction ids with
  | nil => exact fun d hd => .ok ⟨rfl, hd⟩
  | cons id rest ih =>
    refine bind (h id (hids id (List.mem_cons_self ..))) fun _ => ?_
    refine bind (fun d hd => .ok ⟨rfl, hd⟩) fun text => ?_
    refine bind (ih fun n hn => hids n (List.mem_cons_of_mem _ hn)) fun more => ?_
    exact fun d hd => .ok ⟨rfl, hd⟩

theorem groups (h : ∀ id, id < g.size → Alike g count (convert id) (convert' id))
    (augmentations : List Augmentation)
    (hids : ∀ id ∈ augmentations.flatMap Augmentation.members, id < g.size) :
    Alike g count (Write.groups convert augmentations) (Write.groups convert' augmentations) := by
  induction augmentations with
  | nil => exact fun d hd => .ok ⟨rfl, hd⟩
  | cons a rest ih =>
    rw [List.flatMap_cons] at hids
    refine bind (texts h a.members fun n hn => hids n (List.mem_append_left _ hn)) fun texts => ?_
    refine bind (ih fun n hn => hids n (List.mem_append_right _ hn)) fun more => ?_
    exact fun d hd => .ok ⟨rfl, hd⟩

theorem fields (h : ∀ id, id < g.size → Alike g count (convert id) (convert' id)) (fs : List Field)
    (hids : ∀ id ∈ fs.map Field.type, id < g.size) :
    Alike g count (Write.fields convert fs) (Write.fields convert' fs) := by
  induction fs with
  | nil => exact fun d hd => .ok ⟨rfl, hd⟩
  | cons f rest ih =>
    refine bind (h f.type (hids f.type (List.mem_cons_self ..))) fun _ => ?_
    refine bind (fun d hd => .ok ⟨rfl, hd⟩) fun type => ?_
    refine bind (ih fun n hn => hids n (List.mem_cons_of_mem _ hn)) fun more => ?_
    exact fun d hd => .ok ⟨rfl, hd⟩

/-- The expression of a complete node asks for nodes of the graph only, so that conversions which
agree on those agree on it. -/
theorem expression (h : ∀ id, id < g.size → Alike g count (convert id) (convert' id)) {node : Node}
    (hnode : g.Complete node) (indent : Json) (augmentation : String) :
    Alike g count (Write.expression convert g indent node augmentation)
      (Write.expression convert' g indent node augmentation) := by
  have hheld : ∀ n ∈ node.shape.children, n < g.size :=
    fun n hn => hnode.held n (List.mem_append_left _ hn)
  cases hshape : node.shape with
  | scalar s =>
    simp only [Write.expression, hshape]
    exact fun d hd => .ok ⟨rfl, hd⟩
  | composite =>
    simp only [Write.expression, hshape]
    exact fun d hd => .ok ⟨rfl, hd⟩
  | choice alternatives =>
    simp only [Write.expression, hshape]
    rw [hshape] at hheld
    exact bind (texts h alternatives hheld) fun _ d hd => .ok ⟨rfl, hd⟩
  | array item =>
    cases item with
    | none => exact absurd hshape hnode.item
    | some item =>
      simp only [Write.expression, hshape]
      rw [hshape] at hheld
      exact bind (h item (hheld item (by simp [Shape.children]))) fun _ d hd => .ok ⟨rfl, hd⟩
  | object fs =>
    simp only [Write.expression, hshape]
    rw [hshape] at hheld
    refine bind (fields h fs hheld) fun texts => reads fun d => ?_
    cases Layout.objectTypeUnder indent texts with
    | ok text => exact Or.inl ⟨text, rfl⟩
    | error fault => exact Or.inr ⟨.indent fault, rfl, by simp⟩
  | reference ref target =>
    simp only [Write.expression, hshape]
    obtain ⟨n, hfind, hlt⟩ := hnode.target ref target hshape
    rw [hfind]
    refine bind (h n hlt) fun _ => reads fun d => ?_
    rw [bind_ok _ (Write.page_apply n d)]
    cases (d.page n).inline with
    | some text => exact Or.inl ⟨Layout.orNull text, rfl⟩
    | none =>
      obtain ⟨target, hnode⟩ := Graph.exists_node hlt
      simp only [hnode]
      exact Or.inr ⟨.unnamed target.source target.path, rfl, by simp⟩

theorem body (h : ∀ id, id < g.size → Alike g count (convert id) (convert' id)) {node : Node}
    (hnode : g.Complete node) (indent : Json) (id : NodeId) :
    Alike g count (Write.body convert g indent id node) (Write.body convert' g indent id node) := by
  refine bind (groups h node.augmentations fun n hn => hnode.held n (List.mem_append_right _ hn))
    fun groups => ?_
  refine bind (expression h hnode indent _) fun e => ?_
  intro d hd
  rw [Write.finish_apply]
  exact .ok ⟨rfl, by rwa [Draft.unstarted_finished]⟩

end

end Alike

namespace Graph

variable {g : Graph}

/-- At any depth a node that has been started is left alone. -/
theorem convertWithin_started {indent : Json} {d : Draft} {id : NodeId} (depth : Nat)
    (h : (d.page id).started = true) : g.convertWithin indent depth id d = .ok () d := by
  cases depth with
  | zero => rfl
  | succ depth =>
    rw [convertWithin, bind_ok _ (Write.page_apply id d)]
    simp only [h, if_true]
    rfl

/-- With a unit of depth to spend, a new node is marked as started, and then its body is written. -/
theorem convertWithin_new {indent : Json} {d : Draft} {id : NodeId} {node : Node} (depth : Nat)
    (h : (d.page id).started = false) (hnode : g.node? id = some node) :
    g.convertWithin indent (depth + 1) id d =
      Write.body (g.convertWithin indent depth) g indent id node (d.begun id node) := by
  rw [convertWithin, bind_ok _ (Write.page_apply id d)]
  simp only [h, hnode]
  change (Write.start id node >>= _) d = _
  rw [bind_ok _ (Write.start_apply id node d)]

/-- **Conversion needs no more depth** than there are nodes that are not started. -/
theorem convertWithin_alike (hw : g.Whole) (indent : Json) (count : Nat) :
    ∀ {depth depth' : Nat}, count ≤ depth → count ≤ depth' → ∀ id, id < g.size →
      Alike g count (g.convertWithin indent depth id) (g.convertWithin indent depth' id) := by
  induction count with
  | zero =>
    intro depth depth' _ _ id hid d hd
    have hstarted : (d.page id).started = true := by
      by_contra hnot
      have hmem : id ∈ d.unstarted g := Draft.mem_unstarted.mpr ⟨hid, by simpa using hnot⟩
      rw [Finset.card_eq_zero.mp (Nat.le_zero.mp hd)] at hmem
      cases hmem
    rw [convertWithin_started depth hstarted, convertWithin_started depth' hstarted]
    exact .ok ⟨rfl, hd⟩
  | succ count ih =>
    intro depth depth' hdepth hdepth' id hid d hd
    cases hstarted : (d.page id).started with
    | true =>
      rw [convertWithin_started depth hstarted, convertWithin_started depth' hstarted]
      exact .ok ⟨rfl, hd⟩
    | false =>
      match depth, depth', hdepth, hdepth' with
      | depth + 1, depth' + 1, hdepth, hdepth' =>
        obtain ⟨node, hnode⟩ := exists_node hid
        rw [convertWithin_new depth hstarted hnode, convertWithin_new depth' hstarted hnode]
        have hfewer : ((d.begun id node).unstarted g).card ≤ count :=
          Nat.le_of_lt_succ (Nat.lt_of_lt_of_le
            (Draft.unstarted_begun (Draft.mem_unstarted.mpr ⟨hid, hstarted⟩)) hd)
        have hbody := Alike.body
          (ih (Nat.le_of_succ_le_succ hdepth) (Nat.le_of_succ_le_succ hdepth')) (hw id node hnode)
          indent id _ hfewer
        exact hbody.mono fun s t h => ⟨h.1, Nat.le_succ_of_le h.2⟩

theorem card_unstarted_le (g : Graph) (d : Draft) : (d.unstarted g).card ≤ g.size := by
  refine (Finset.card_filter_le ..).trans ?_
  rw [Finset.card_range]

/-- **A larger depth makes no difference.** -/
theorem convertWithin_eq (hw : g.Whole) (indent : Json) {depth : Nat} (hdepth : g.size ≤ depth)
    {id : NodeId} (hid : id < g.size) (d : Draft) :
    g.convertWithin indent depth id d = g.convert indent id d := by
  have h := convertWithin_alike hw indent g.size hdepth (Nat.le_refl _) id hid d
    (card_unstarted_le g d)
  have heq := h.eq_mapState (fun s => s) (fun s t h => h.1.symm) fun e s t h => h.1.symm
  rw [convert, heq]
  cases g.convertWithin indent depth id d <;> rfl

/-- Conversion in a whole graph never runs out of depth. -/
theorem convert_ne_endless (hw : g.Whole) {indent : Json} {id : NodeId} (hid : id < g.size)
    {d d' : Draft} {failure : Failure} (h : g.convert indent id d = .error failure d') :
    failure ≠ .endless := by
  have halike := convertWithin_alike hw indent g.size (Nat.le_refl _) (Nat.le_refl _) id hid d
    (card_unstarted_le g d)
  rw [← convert, h] at halike
  cases halike with
  | error states => exact states.2

end Graph

end TypeScribe
