import Mathlib.Data.Finset.Card
import Mathlib.Data.Finset.Range
import Mathlib.Data.List.Perm.Basic
import Mathlib.Logic.Relation
import TypeScribe.Graph.Basic

/-!
# Walks

A **walk** goes through a graph depth first and writes nothing. It is the yardstick for conversion:
which nodes are met, in which order, and which arrows lead back to where the walk still is.

* **Arrows** lead from a node to the nodes it is made of: the members of its composing keywords
  first, then the nodes of its shape, or the node that its reference stands for.
* The **stack** holds the nodes that are open, each with the arrows still ahead. One step passes the
  next arrow of the innermost node, or closes that node when no arrow is left.
* Beside the stack a walk keeps three lists: the nodes **seen**, in the order of their first visit;
  the nodes **closed**, in the order in which they were left; and the arrows that were found to lead
  **back** into an open node.

The invariant `Walk.Valid` says what the lists mean. Its heart is `order`: an arrow of a closed node
leads back, or to a node that was closed before it.
-/

namespace TypeScribe

/-! ## Arrows -/

/-- An arrow of a graph, and whether it goes through a reference. -/
structure Arrow where
  source : NodeId
  target : NodeId
  byReference : Bool
  deriving Repr, DecidableEq

/-- The members of a node's composing keywords, in the order in which the keywords take effect. -/
def Node.members (node : Node) : List NodeId :=
  Keyword.all.flatMap fun keyword =>
    (node.augmentations.filter fun a => decide (a.keyword = keyword)).flatMap Augmentation.members

namespace Graph

/-- Whether a node is declared. -/
def isDeclared (g : Graph) (id : NodeId) : Bool := (g.node? id).any Node.declared

/-- The arrows of a node by its shape: the node a reference stands for, or the nodes it holds. -/
def shapeArrows (g : Graph) (id : NodeId) : Shape → List Arrow
  | .reference _ target => (g.find? target).toList.map fun t => ⟨id, t, true⟩
  | shape => shape.children.map fun t => ⟨id, t, false⟩

/-- **Arrows of a node**, in the order in which they are followed. -/
def arrows (g : Graph) (id : NodeId) : List Arrow :=
  match g.node? id with
  | none => []
  | some node => (node.members.map fun t => ⟨id, t, false⟩) ++ g.shapeArrows id node.shape

/-- One node leads to another if an arrow does. -/
def Leads (g : Graph) (m n : NodeId) : Prop := ∃ a ∈ g.arrows m, a.target = n

/-- The nodes that arrows lead to from some start. -/
def Reachable (g : Graph) (starts : List NodeId) (n : NodeId) : Prop :=
  ∃ m ∈ starts, Relation.ReflTransGen g.Leads m n

/-- Every arrow leads to a node. -/
def Bounded (g : Graph) : Prop := ∀ n, ∀ a ∈ g.arrows n, a.target < g.size

/-- An arrow by shape goes through a reference, or to a node that the shape holds. -/
theorem mem_shapeArrows {g : Graph} {n : NodeId} {shape : Shape} {a : Arrow}
    (h : a ∈ g.shapeArrows n shape) :
    a.source = n ∧
      ((a.byReference = true ∧ ∃ ref key, shape = .reference ref key ∧ g.find? key = some a.target) ∨
        (a.byReference = false ∧ a.target ∈ shape.children)) := by
  have hheld : ∀ {l : List NodeId}, (a ∈ l.map fun t => (⟨n, t, false⟩ : Arrow)) →
      a.source = n ∧ a.byReference = false ∧ a.target ∈ l := by
    intro l hl
    obtain ⟨t, ht, rfl⟩ := List.mem_map.mp hl
    exact ⟨rfl, rfl, ht⟩
  cases shape with
  | reference ref key =>
    obtain ⟨t, ht, rfl⟩ := List.mem_map.mp h
    exact ⟨rfl, Or.inl ⟨rfl, ref, key, rfl, by simpa using ht⟩⟩
  | scalar s => exact ⟨(hheld h).1, Or.inr (hheld h).2⟩
  | choice alternatives => exact ⟨(hheld h).1, Or.inr (hheld h).2⟩
  | array item => exact ⟨(hheld h).1, Or.inr (hheld h).2⟩
  | object fields => exact ⟨(hheld h).1, Or.inr (hheld h).2⟩
  | composite => exact ⟨(hheld h).1, Or.inr (hheld h).2⟩

theorem source_of_mem_arrows {g : Graph} {n : NodeId} {a : Arrow} (h : a ∈ g.arrows n) :
    a.source = n := by
  rw [arrows] at h
  cases hn : g.node? n with
  | none => simp [hn] at h
  | some node =>
    simp only [hn, List.mem_append, List.mem_map] at h
    rcases h with ⟨t, -, rfl⟩ | h
    · rfl
    · exact (mem_shapeArrows h).1

end Graph

/-! ## The machine -/

/-- An open node and the arrows that it has still ahead. -/
structure Frame where
  node : NodeId
  rest : List Arrow
  deriving Repr, DecidableEq

/-- The state of a walk. -/
structure Walk where
  seen : List NodeId := []
  closed : List NodeId := []
  back : List Arrow := []
  stack : List Frame := []
  deriving Repr, DecidableEq

namespace Walk

/-- The open nodes, innermost first. -/
def path (w : Walk) : List NodeId := w.stack.map Frame.node

/-- The walk with an arrow of its innermost node behind it, and that node as given. -/
def pass (w : Walk) (arrow : Arrow) (frame : Frame) (below : List Frame) : Walk :=
  { w with
    back := if arrow.target ∈ w.path then w.back ++ [arrow] else w.back
    stack := frame :: below }

/-- The count of steps that the open nodes still call for. -/
def pending (w : Walk) : Nat := w.stack.length + (w.stack.flatMap Frame.rest).length

end Walk

namespace Graph

/-- Opens a node, unless it was seen before. -/
def enter (g : Graph) (id : NodeId) (w : Walk) : Walk :=
  if id ∈ w.seen ∨ g.size ≤ id then w
  else { w with seen := w.seen ++ [id], stack := ⟨id, g.arrows id⟩ :: w.stack }

/-- **One step**: along the next arrow of the innermost node, or out of it. -/
def advance (g : Graph) (w : Walk) : Walk :=
  match w.stack with
  | [] => w
  | ⟨id, []⟩ :: below => { w with closed := w.closed ++ [id], stack := below }
  | ⟨id, arrow :: rest⟩ :: below => g.enter arrow.target (w.pass arrow ⟨id, rest⟩ below)

/-- The count of nodes not seen yet. -/
def unseen (g : Graph) (w : Walk) : Nat := (Finset.range g.size \ w.seen.toFinset).card

variable {g : Graph} {w : Walk}

theorem enter_of_seen {id : NodeId} (h : id ∈ w.seen) : g.enter id w = w := by
  simp [enter, h]

theorem enter_of_unseen {id : NodeId} (h : id ∉ w.seen) (hlt : id < g.size) :
    g.enter id w =
      { w with seen := w.seen ++ [id], stack := ⟨id, g.arrows id⟩ :: w.stack } := by
  have hle : ¬ g.size ≤ id := Nat.not_le.mpr hlt
  simp [enter, h, hle]

theorem advance_nil (h : w.stack = []) : g.advance w = w := by
  rw [advance, h]

/-- A node without further arrows is closed. -/
theorem advance_close {id : NodeId} {below : List Frame} (h : w.stack = ⟨id, []⟩ :: below) :
    g.advance w = { w with closed := w.closed ++ [id], stack := below } := by
  rw [advance, h]

/-- An arrow is passed, and its target entered. -/
theorem advance_pass {id : NodeId} {arrow : Arrow} {rest : List Arrow} {below : List Frame}
    (h : w.stack = ⟨id, arrow :: rest⟩ :: below) :
    g.advance w = g.enter arrow.target (w.pass arrow ⟨id, rest⟩ below) := by
  rw [advance, h]

/-- Seeing a node for the first time leaves fewer to see. -/
theorem unseen_lt {id : NodeId} (h : id ∉ w.seen) (hlt : id < g.size) {w' : Walk}
    (hseen : w'.seen = w.seen ++ [id]) : g.unseen w' < g.unseen w := by
  apply Finset.card_lt_card
  rw [Finset.ssubset_iff_of_subset]
  · refine ⟨id, ?_, ?_⟩
    · simp [hlt, h]
    · simp [hseen]
  · intro n hn
    simp only [hseen, Finset.mem_sdiff, Finset.mem_range, List.mem_toFinset, List.mem_append,
      List.mem_singleton, not_or] at hn
    simp [hn.1, hn.2.1]

/-- Every step brings a walk nearer to its end. -/
theorem advance_decreases (h : w.stack ≠ []) :
    Prod.Lex (· < ·) (· < ·) (g.unseen (g.advance w), (g.advance w).pending)
      (g.unseen w, w.pending) := by
  obtain ⟨f, below, hs⟩ := List.exists_cons_of_ne_nil h
  obtain ⟨id, rest⟩ := f
  cases rest with
  | nil =>
    rw [advance_close hs]
    apply Prod.Lex.right
    simp [Walk.pending, hs]
  | cons a rest =>
    rw [advance_pass hs]
    -- either a node is entered, and fewer are unseen, or fewer arrows are ahead
    by_cases hstop : a.target ∈ w.seen ∨ g.size ≤ a.target
    · have hstay : g.enter a.target (w.pass a ⟨id, rest⟩ below) = w.pass a ⟨id, rest⟩ below := by
        simp [enter, Walk.pass, hstop]
      rw [hstay]
      apply Prod.Lex.right
      simp [Walk.pending, Walk.pass, hs]
    · obtain ⟨hnew, hlt⟩ := not_or.mp hstop
      apply Prod.Lex.left
      have hlt' : a.target < g.size := Nat.lt_of_not_le hlt
      rw [enter_of_unseen (w := w.pass a ⟨id, rest⟩ below) hnew hlt']
      exact unseen_lt hnew hlt' rfl

/-- Takes steps until no node is open. -/
def run (g : Graph) (w : Walk) : Walk :=
  if w.stack = [] then w else g.run (g.advance w)
termination_by (g.unseen w, w.pending)
decreasing_by exact advance_decreases (by assumption)

/-- **The walk** from some starts, taken in turn. -/
def walk (g : Graph) (starts : List NodeId) : Walk :=
  starts.foldl (fun w id => g.run (g.enter id w)) {}

/-- **Preorder**: the nodes that the walk sees, in the order of their first visit. -/
def preorder (g : Graph) (starts : List NodeId) : List NodeId := (g.walk starts).seen

/-- A walk gets from one state to another by steps. -/
def Reaches (g : Graph) : Walk → Walk → Prop :=
  Relation.ReflTransGen fun w w' => g.advance w = w'

end Graph

/-! ## The invariant -/

/-- Each open node was entered along an arrow of the one below it, and the outermost as a start. -/
def Linked (g : Graph) (starts : List NodeId) : List Frame → Prop
  | [] => True
  | [f] => f.node ∈ starts
  | f :: p :: below => g.Leads p.node f.node ∧ Linked g starts (p :: below)

/-- **Arrows that close a cycle.** The target leads to the source, and it has another way in: it is a
start, or an arrow from elsewhere leads to it. -/
structure Closing (g : Graph) (starts : List NodeId) (a : Arrow) : Prop where
  arrow : a ∈ g.arrows a.source
  cycle : Relation.ReflTransGen g.Leads a.target a.source
  entry : a.target ∈ starts ∨
    ∃ b ∈ g.arrows b.source, b.target = a.target ∧ b.source ≠ a.source

/-- **What the lists of a walk mean.** -/
structure Walk.Valid (g : Graph) (starts : List NodeId) (w : Walk) : Prop where
  nodup : w.seen.Nodup
  bounded : ∀ n ∈ w.seen, n < g.size
  /-- What has been seen is open or closed, and not both. -/
  parted : w.seen.Perm (w.path ++ w.closed)
  linked : Linked g starts w.stack
  ahead : ∀ f ∈ w.stack, f.rest ⊆ g.arrows f.node
  /-- An arrow of an open node is still ahead, leads back, or has been followed. -/
  passed : ∀ above f below, w.stack = above ++ f :: below → ∀ a ∈ g.arrows f.node,
    a ∈ f.rest ∨ a ∈ w.back ∨ a.target ∈ w.closed ∨ a.target ∈ above.map Frame.node
  /-- An arrow of a closed node leads back or to a node closed before. -/
  order : ∀ l₁ n l₂, w.closed = l₁ ++ n :: l₂ → ∀ a ∈ g.arrows n, a ∈ w.back ∨ a.target ∈ l₁
  back : ∀ a ∈ w.back, a.target ∈ w.seen ∧ Closing g starts a
  reached : ∀ n ∈ w.seen, g.Reachable starts n

section

variable {g : Graph} {starts : List NodeId} {w : Walk}

theorem Linked.tail {f : Frame} {below : List Frame} (h : Linked g starts (f :: below)) :
    Linked g starts below := by
  cases below with
  | nil => trivial
  | cons p rest => exact h.2

/-- Whether nodes are linked does not depend on the arrows ahead. -/
theorem Linked.replace {n : NodeId} {rest rest' : List Arrow} {below : List Frame}
    (h : Linked g starts (⟨n, rest⟩ :: below)) : Linked g starts (⟨n, rest'⟩ :: below) := by
  cases below with
  | nil => exact h
  | cons p below => exact h

/-- An open node leads to every node above it, and so to the innermost one. -/
theorem Linked.leads {above below : List Frame} {q f : Frame}
    (h : Linked g starts (above ++ q :: below)) (hf : (above ++ [q]).head? = some f) :
    Relation.ReflTransGen g.Leads q.node f.node := by
  induction above generalizing f with
  | nil =>
    obtain rfl : q = f := by simpa using hf
    exact Relation.ReflTransGen.refl
  | cons u above ih =>
    obtain rfl : u = f := by simpa using hf
    cases above with
    | nil => exact Relation.ReflTransGen.single h.1
    | cons v above => exact (ih h.2 rfl).tail h.1

/-- The way into an open node. -/
theorem Linked.entry {above below : List Frame} {q : Frame}
    (h : Linked g starts (above ++ q :: below)) :
    q.node ∈ starts ∨ ∃ p rest, below = p :: rest ∧ g.Leads p.node q.node := by
  induction above with
  | nil =>
    cases below with
    | nil => exact Or.inl h
    | cons p rest => exact Or.inr ⟨p, rest, rfl, h.1⟩
  | cons u above ih => exact ih h.tail

theorem Walk.mem_back_pass {a b : Arrow} {f : Frame} {below : List Frame} (h : b ∈ w.back) :
    b ∈ (w.pass a f below).back := by
  rw [Walk.pass]
  split
  · exact List.mem_append_left _ h
  · exact h

namespace Walk.Valid

/-- A walk that has not begun. -/
theorem blank : Walk.Valid g starts {} where
  nodup := List.nodup_nil
  bounded := by simp
  parted := List.Perm.nil
  linked := trivial
  ahead := by simp
  passed := by simp
  order := by simp
  back := by simp
  reached := by simp

/-- What was seen is open or closed. -/
theorem mem_seen_iff (h : w.Valid g starts) (n : NodeId) :
    n ∈ w.seen ↔ n ∈ w.path ∨ n ∈ w.closed := by
  rw [h.parted.mem_iff, List.mem_append]

/-- The arrows ahead of the innermost node are arrows of it. -/
theorem ahead_head (h : w.Valid g starts) {n : NodeId} {rest : List Arrow} {below : List Frame}
    (hs : w.stack = ⟨n, rest⟩ :: below) : rest ⊆ g.arrows n := by
  refine h.ahead ⟨n, rest⟩ ?_
  rw [hs]
  exact List.mem_cons_self ..

theorem head_seen (h : w.Valid g starts) {f : Frame} {below : List Frame} (hs : w.stack = f :: below) :
    f.node ∈ w.seen := by
  refine (h.mem_seen_iff f.node).mpr (Or.inl ?_)
  simp [Walk.path, hs]

theorem path_nodup (h : w.Valid g starts) : w.path.Nodup :=
  (List.nodup_append.mp (h.parted.nodup_iff.mp h.nodup)).1

/-- No node is open and closed. -/
theorem not_mem_closed (h : w.Valid g starts) {n : NodeId} (hn : n ∈ w.path) : n ∉ w.closed := by
  intro hc
  exact (List.nodup_append.mp (h.parted.nodup_iff.mp h.nodup)).2.2 n hn n hc rfl

theorem nodup_snoc (h : w.Valid g starts) {n : NodeId} (hn : n ∉ w.seen) :
    (w.seen ++ [n]).Nodup := by
  rw [← List.concat_eq_append]
  exact h.nodup.concat hn

theorem bounded_snoc (h : w.Valid g starts) {n : NodeId} (hlt : n < g.size) :
    ∀ m ∈ w.seen ++ [n], m < g.size := by
  intro m hm
  rcases List.mem_append.mp hm with hm | hm
  · exact h.bounded m hm
  · obtain rfl : m = n := by simpa using hm
    exact hlt

/-- An arrow from the innermost node into an open one closes a cycle. -/
theorem closing (h : w.Valid g starts) {n : NodeId} {a : Arrow} {rest : List Arrow}
    {below : List Frame} (hs : w.stack = ⟨n, a :: rest⟩ :: below) (ha : a.target ∈ w.path) :
    Closing g starts a := by
  have hmem : a ∈ g.arrows n := h.ahead_head hs (List.mem_cons_self ..)
  have hsrc : a.source = n := Graph.source_of_mem_arrows hmem
  obtain ⟨q, hq, hqa⟩ := List.mem_map.mp ha
  obtain ⟨above, under, hsplit⟩ := List.append_of_mem hq
  have hlinked : Linked g starts (above ++ q :: under) := hsplit ▸ h.linked
  have hhead : (above ++ [q]).head? = some ⟨n, a :: rest⟩ := by
    rw [hs] at hsplit
    cases above with
    | nil => simp_all
    | cons u above => simp_all
  refine ⟨by rw [hsrc]; exact hmem, ?_, ?_⟩
  · rw [← hqa, hsrc]
    exact hlinked.leads hhead
  · rcases hlinked.entry with hstart | ⟨p, under', rfl, b, hb, hbt⟩
    · exact Or.inl (hqa ▸ hstart)
    · have hbsrc : b.source = p.node := Graph.source_of_mem_arrows hb
      have hp : p ∈ below := by
        rw [hs] at hsplit
        cases above with
        | nil => simp_all
        | cons u above =>
          obtain rfl : below = above ++ q :: p :: under' := by simp_all
          simp
      have hne : p.node ≠ n := by
        have hnd := h.path_nodup
        rw [Walk.path, hs, List.map_cons, List.nodup_cons] at hnd
        intro he
        exact hnd.1 (List.mem_map.mpr ⟨p, hp, he⟩)
      refine Or.inr ⟨b, by rw [hbsrc]; exact hb, hbt.trans hqa, ?_⟩
      rw [hbsrc, hsrc]
      exact hne

/-- The innermost node is closed. -/
theorem close (h : w.Valid g starts) {n : NodeId} {below : List Frame}
    (hs : w.stack = ⟨n, []⟩ :: below) :
    Walk.Valid g starts { w with closed := w.closed ++ [n], stack := below } where
  nodup := h.nodup
  bounded := h.bounded
  parted := by
    have hp := h.parted
    rw [Walk.path, hs, List.map_cons] at hp
    refine hp.trans ?_
    calc
      n :: below.map Frame.node ++ w.closed
      _ = n :: (below.map Frame.node ++ w.closed) := rfl
      List.Perm _ (below.map Frame.node ++ w.closed ++ [n]) :=
        (List.perm_append_singleton n _).symm
      _ = below.map Frame.node ++ (w.closed ++ [n]) := List.append_assoc ..
  linked := by
    have hl := h.linked
    rw [hs] at hl
    exact hl.tail
  ahead f hf := h.ahead f (by rw [hs]; exact List.mem_cons_of_mem _ hf)
  passed above f under hsplit a ha := by
    have hold := h.passed (⟨n, []⟩ :: above) f under (by rw [hs]; exact congrArg _ hsplit) a ha
    rcases hold with h₁ | h₂ | h₃ | h₄
    · exact Or.inl h₁
    · exact Or.inr (Or.inl h₂)
    · exact Or.inr (Or.inr (Or.inl (List.mem_append_left _ h₃)))
    · rcases List.mem_cons.mp h₄ with h₅ | h₅
      · exact Or.inr (Or.inr (Or.inl (List.mem_append_right _ (by simp [h₅]))))
      · exact Or.inr (Or.inr (Or.inr h₅))
  order l₁ m l₂ hsplit a ha := by
    rcases List.eq_nil_or_concat l₂ with rfl | ⟨l₂, k, rfl⟩
    · obtain ⟨hcl, hnm⟩ := List.append_inj' hsplit rfl
      obtain rfl : n = m := by simpa using hnm
      have hold := h.passed [] ⟨n, []⟩ below hs a ha
      rcases hold with h₁ | h₂ | h₃ | h₄
      · cases h₁
      · exact Or.inl h₂
      · exact Or.inr (hcl ▸ h₃)
      · cases h₄
    · have hcl : w.closed = l₁ ++ m :: l₂ := by
        have hsplit' : w.closed ++ [n] = (l₁ ++ m :: l₂) ++ [k] := by simpa using hsplit
        exact (List.append_inj' hsplit' rfl).1
      exact h.order l₁ m l₂ hcl a ha
  back := h.back
  reached := h.reached

/-- An arrow of the innermost node is passed whose target was seen before. -/
theorem pass_seen (h : w.Valid g starts) {n : NodeId} {a : Arrow} {rest : List Arrow}
    {below : List Frame} (hs : w.stack = ⟨n, a :: rest⟩ :: below) (ha : a.target ∈ w.seen) :
    (w.pass a ⟨n, rest⟩ below).Valid g starts where
  nodup := h.nodup
  bounded := h.bounded
  parted := by
    have hp := h.parted
    rw [Walk.path, hs] at hp
    exact hp
  linked := by
    have hl := h.linked
    rw [hs] at hl
    exact hl.replace
  ahead f hf := by
    rcases List.mem_cons.mp hf with rfl | hf
    · intro b hb
      exact h.ahead_head hs (List.mem_cons_of_mem _ hb)
    · exact h.ahead f (by rw [hs]; exact List.mem_cons_of_mem _ hf)
  passed above f under hsplit b hb := by
    cases above with
    | nil =>
      obtain ⟨rfl, rfl⟩ : ⟨n, rest⟩ = f ∧ below = under := by
        simpa [Walk.pass] using hsplit
      rcases h.passed [] ⟨n, a :: rest⟩ below hs b hb with h₁ | h₂ | h₃ | h₄
      · rcases List.mem_cons.mp h₁ with rfl | h₁
        · rcases (h.mem_seen_iff _).mp ha with hp | hc
          · exact Or.inr (Or.inl (by simp [Walk.pass, hp]))
          · exact Or.inr (Or.inr (Or.inl hc))
        · exact Or.inl h₁
      · exact Or.inr (Or.inl (mem_back_pass h₂))
      · exact Or.inr (Or.inr (Or.inl h₃))
      · cases h₄
    | cons u above =>
      obtain ⟨rfl, rfl⟩ : ⟨n, rest⟩ = u ∧ below = above ++ f :: under := by
        simpa [Walk.pass] using hsplit
      rcases h.passed (⟨n, a :: rest⟩ :: above) f under hs b hb with h₁ | h₂ | h₃ | h₄
      · exact Or.inl h₁
      · exact Or.inr (Or.inl (mem_back_pass h₂))
      · exact Or.inr (Or.inr (Or.inl h₃))
      · exact Or.inr (Or.inr (Or.inr h₄))
  order l₁ m l₂ hsplit b hb := (h.order l₁ m l₂ hsplit b hb).imp_left mem_back_pass
  back b hb := by
    by_cases hp : a.target ∈ w.path
    · have hb' : b ∈ w.back ++ [a] := by simpa [Walk.pass, hp] using hb
      rcases List.mem_append.mp hb' with hb' | hb'
      · exact h.back b hb'
      · obtain rfl : b = a := by simpa using hb'
        exact ⟨ha, h.closing hs hp⟩
    · exact h.back b (by simpa [Walk.pass, hp] using hb)
  reached := h.reached

/-- An arrow of the innermost node is passed, and its target entered. -/
theorem pass_enter (h : w.Valid g starts) {n : NodeId} {a : Arrow} {rest : List Arrow}
    {below : List Frame} (hs : w.stack = ⟨n, a :: rest⟩ :: below) (ha : a.target ∉ w.seen)
    (hlt : a.target < g.size) :
    Walk.Valid g starts
      { w with
        seen := w.seen ++ [a.target]
        stack := ⟨a.target, g.arrows a.target⟩ :: ⟨n, rest⟩ :: below } where
  nodup := h.nodup_snoc ha
  bounded := h.bounded_snoc hlt
  parted := by
    have hp := h.parted
    rw [Walk.path, hs] at hp
    exact (List.perm_append_singleton a.target w.seen).trans (hp.cons a.target)
  linked := by
    have hl := h.linked
    rw [hs] at hl
    exact ⟨⟨a, h.ahead_head hs (List.mem_cons_self ..), rfl⟩, hl.replace⟩
  ahead f hf := by
    rcases List.mem_cons.mp hf with rfl | hf
    · exact List.Subset.refl _
    rcases List.mem_cons.mp hf with rfl | hf
    · intro b hb
      exact h.ahead_head hs (List.mem_cons_of_mem _ hb)
    · exact h.ahead f (by rw [hs]; exact List.mem_cons_of_mem _ hf)
  passed above f under hsplit b hb := by
    match above, hsplit with
    | [], hsplit =>
      obtain ⟨rfl, -⟩ : ⟨a.target, g.arrows a.target⟩ = f ∧ _ = under := by simpa using hsplit
      exact Or.inl hb
    | [u], hsplit =>
      obtain ⟨rfl, rfl, rfl⟩ : ⟨a.target, g.arrows a.target⟩ = u ∧ ⟨n, rest⟩ = f ∧ below = under := by
        simpa using hsplit
      rcases h.passed [] ⟨n, a :: rest⟩ below hs b hb with h₁ | h₂ | h₃ | h₄
      · rcases List.mem_cons.mp h₁ with rfl | h₁
        · exact Or.inr (Or.inr (Or.inr (List.mem_cons_self ..)))
        · exact Or.inl h₁
      · exact Or.inr (Or.inl h₂)
      · exact Or.inr (Or.inr (Or.inl h₃))
      · cases h₄
    | u :: v :: above, hsplit =>
      obtain ⟨rfl, rfl, rfl⟩ : ⟨a.target, g.arrows a.target⟩ = u ∧ ⟨n, rest⟩ = v ∧
          below = above ++ f :: under := by
        simpa using hsplit
      rcases h.passed (⟨n, a :: rest⟩ :: above) f under hs b hb with h₁ | h₂ | h₃ | h₄
      · exact Or.inl h₁
      · exact Or.inr (Or.inl h₂)
      · exact Or.inr (Or.inr (Or.inl h₃))
      · exact Or.inr (Or.inr (Or.inr (List.mem_cons_of_mem _ h₄)))
  order := h.order
  back b hb := ⟨List.mem_append_left _ (h.back b hb).1, (h.back b hb).2⟩
  reached m hm := by
    rcases List.mem_append.mp hm with hm | hm
    · exact h.reached m hm
    · obtain rfl : m = a.target := by simpa using hm
      obtain ⟨r, hr, hrn⟩ := h.reached n (h.head_seen hs)
      exact ⟨r, hr, hrn.tail ⟨a, h.ahead_head hs (List.mem_cons_self ..), rfl⟩⟩

/-- A start is entered. -/
theorem start (h : w.Valid g starts) (hs : w.stack = []) {n : NodeId} (hn : n ∈ starts)
    (hnew : n ∉ w.seen) (hlt : n < g.size) :
    Walk.Valid g starts { w with seen := w.seen ++ [n], stack := [⟨n, g.arrows n⟩] } where
  nodup := h.nodup_snoc hnew
  bounded := h.bounded_snoc hlt
  parted := by
    have hp := h.parted
    rw [Walk.path, hs] at hp
    exact (List.perm_append_singleton n w.seen).trans (hp.cons n)
  linked := hn
  ahead f hf := by
    obtain rfl : f = ⟨n, g.arrows n⟩ := by simpa using hf
    exact List.Subset.refl _
  passed above f under hsplit b hb := by
    cases above with
    | nil =>
      obtain ⟨rfl, -⟩ : ⟨n, g.arrows n⟩ = f ∧ under = [] := by simpa using hsplit
      exact Or.inl hb
    | cons u above => simp at hsplit
  order := h.order
  back b hb := ⟨List.mem_append_left _ (h.back b hb).1, (h.back b hb).2⟩
  reached m hm := by
    rcases List.mem_append.mp hm with hm | hm
    · exact h.reached m hm
    · obtain rfl : m = n := by simpa using hm
      exact ⟨m, hn, Relation.ReflTransGen.refl⟩

/-- **Every step keeps the invariant.** -/
theorem advance (h : w.Valid g starts) (hb : g.Bounded) : (g.advance w).Valid g starts := by
  rcases hs : w.stack with _ | ⟨⟨n, rest⟩, below⟩
  · rw [Graph.advance_nil hs]
    exact h
  · cases rest with
    | nil =>
      rw [Graph.advance_close hs]
      exact h.close hs
    | cons a rest =>
      rw [Graph.advance_pass hs]
      by_cases ha : a.target ∈ w.seen
      · rw [Graph.enter_of_seen (w := w.pass a ⟨n, rest⟩ below) ha]
        exact h.pass_seen hs ha
      · have hlt : a.target < g.size := hb n a (h.ahead_head hs (List.mem_cons_self ..))
        have hpath : a.target ∉ w.path := fun hp => ha ((h.mem_seen_iff _).mpr (Or.inl hp))
        rw [Graph.enter_of_unseen (w := w.pass a ⟨n, rest⟩ below) ha hlt]
        simpa [Walk.pass, hpath] using h.pass_enter hs ha hlt

/-- So does every sequence of steps. -/
theorem reaches (h : w.Valid g starts) (hb : g.Bounded) {w' : Walk} (hr : g.Reaches w w') :
    w'.Valid g starts := by
  induction hr with
  | refl => exact h
  | tail _ hstep ih => exact hstep ▸ ih.advance hb

end Walk.Valid

end

/-! ## Whole walks -/

section

variable {g : Graph} {starts : List NodeId} {w w' : Walk}

/-- A later state of a walk: every list has grown at its end. -/
structure Walk.Le (w w' : Walk) : Prop where
  seen : w.seen <+: w'.seen
  closed : w.closed <+: w'.closed
  back : w.back <+: w'.back

namespace Walk.Le

theorem refl (w : Walk) : w.Le w :=
  ⟨List.prefix_refl _, List.prefix_refl _, List.prefix_refl _⟩

theorem trans {a b c : Walk} (h₁ : a.Le b) (h₂ : b.Le c) : a.Le c :=
  ⟨h₁.seen.trans h₂.seen, h₁.closed.trans h₂.closed, h₁.back.trans h₂.back⟩

end Walk.Le

namespace Graph

theorem unseen_le_size (g : Graph) (w : Walk) : g.unseen w ≤ g.size := by
  calc
    g.unseen w ≤ (Finset.range g.size).card := Finset.card_le_card Finset.sdiff_subset
    _ = g.size := Finset.card_range _

/-- The further a walk has come, the less is unseen. -/
theorem unseen_anti (h : w.Le w') : g.unseen w' ≤ g.unseen w := by
  refine Finset.card_le_card fun n hn => ?_
  simp only [Finset.mem_sdiff, Finset.mem_range, List.mem_toFinset] at hn ⊢
  exact ⟨hn.1, fun hs => hn.2 (h.seen.subset hs)⟩

theorem le_enter (g : Graph) (id : NodeId) (w : Walk) : w.Le (g.enter id w) := by
  rw [enter]
  split
  · exact Walk.Le.refl w
  · exact ⟨List.prefix_append _ _, List.prefix_refl _, List.prefix_refl _⟩

theorem le_pass (w : Walk) (a : Arrow) (f : Frame) (below : List Frame) :
    w.Le (w.pass a f below) := by
  refine ⟨List.prefix_refl _, List.prefix_refl _, ?_⟩
  rw [Walk.pass]
  split
  · exact List.prefix_append _ _
  · exact List.prefix_refl _

/-- A walk never goes back on what was seen, closed or passed. -/
theorem le_advance (g : Graph) (w : Walk) : w.Le (g.advance w) := by
  rcases hs : w.stack with _ | ⟨⟨n, rest⟩, below⟩
  · rw [advance_nil hs]
    exact Walk.Le.refl w
  · cases rest with
    | nil =>
      rw [advance_close hs]
      exact ⟨List.prefix_refl _, List.prefix_append _ _, List.prefix_refl _⟩
    | cons a rest =>
      rw [advance_pass hs]
      exact (le_pass w a ⟨n, rest⟩ below).trans (le_enter g _ _)

theorem Reaches.le (h : g.Reaches w w') : w.Le w' := by
  induction h with
  | refl => exact Walk.Le.refl w
  | tail _ hstep ih => exact ih.trans (hstep ▸ le_advance g _)

theorem run_nil (h : w.stack = []) : g.run w = w := by
  rw [run, if_pos h]

/-- A step more or less does not change where a walk ends. -/
theorem run_advance (g : Graph) (w : Walk) : g.run (g.advance w) = g.run w := by
  by_cases h : w.stack = []
  · rw [advance_nil h]
  · conv_rhs => rw [run, if_neg h]

/-- So many steps more or less do not change where a walk ends. -/
theorem run_iterate (g : Graph) (w : Walk) (count : Nat) : g.run (g.advance^[count] w) = g.run w := by
  induction count generalizing w with
  | zero => rfl
  | succ count ih => rw [Function.iterate_succ_apply, ih, run_advance]

theorem Reaches.run_eq (h : g.Reaches w w') : g.run w' = g.run w := by
  induction h with
  | refl => rfl
  | tail _ hstep ih => rw [← ih, ← hstep, run_advance]

theorem reaches_run (g : Graph) (w : Walk) : g.Reaches w (g.run w) := by
  fun_induction run g w with
  | case1 w h => exact Relation.ReflTransGen.refl
  | case2 w h ih => exact Relation.ReflTransGen.head rfl ih

/-- A walk runs until nothing is open. -/
theorem run_stack (g : Graph) (w : Walk) : (g.run w).stack = [] := by
  fun_induction run g w with
  | case1 w h => exact h
  | case2 w h ih => exact ih

/-- A state without open nodes is where its walk ends. -/
theorem Reaches.run_of_nil (h : g.Reaches w w') (hs : w'.stack = []) : g.run w = w' := by
  rw [← h.run_eq, run_nil hs]

/-- A start is entered, if it has not been seen. -/
theorem valid_enter (h : w.Valid g starts) (hs : w.stack = []) {n : NodeId} (hn : n ∈ starts) :
    (g.enter n w).Valid g starts := by
  by_cases hstop : n ∈ w.seen ∨ g.size ≤ n
  · have hstay : g.enter n w = w := by simp [enter, hstop]
    rw [hstay]
    exact h
  · obtain ⟨hnew, hlt⟩ := not_or.mp hstop
    have hlt' : n < g.size := Nat.lt_of_not_le hlt
    rw [enter_of_unseen hnew hlt', hs]
    exact h.start hs hn hnew hlt'

/-- The states of a walk between two starts. -/
theorem valid_foldl (hb : g.Bounded) (ids : List NodeId) (h : w.Valid g starts)
    (hs : w.stack = []) (hids : ids ⊆ starts) :
    (ids.foldl (fun w id => g.run (g.enter id w)) w).Valid g starts ∧
      (ids.foldl (fun w id => g.run (g.enter id w)) w).stack = [] := by
  induction ids generalizing w with
  | nil => exact ⟨h, hs⟩
  | cons n ids ih =>
    have hn : n ∈ starts := hids (List.mem_cons_self ..)
    exact ih ((valid_enter h hs hn).reaches hb (reaches_run g _)) (run_stack g _)
      (fun m hm => hids (List.mem_cons_of_mem _ hm))

theorem walk_stack (hb : g.Bounded) : (g.walk starts).stack = [] :=
  (valid_foldl hb starts Walk.Valid.blank rfl (List.Subset.refl _)).2

/-- **A walk ends in a valid state.** -/
theorem walk_valid (hb : g.Bounded) : (g.walk starts).Valid g starts :=
  (valid_foldl hb starts Walk.Valid.blank rfl (List.Subset.refl _)).1

theorem le_foldl (ids : List NodeId) :
    w.Le (ids.foldl (fun w id => g.run (g.enter id w)) w) := by
  induction ids generalizing w with
  | nil => exact Walk.Le.refl w
  | cons n ids ih => exact ((le_enter g n w).trans (reaches_run g _).le).trans ih

/-- Every start is seen. -/
theorem mem_foldl_seen {ids : List NodeId} {n : NodeId} (hn : n ∈ ids) (hlt : n < g.size) :
    n ∈ (ids.foldl (fun w id => g.run (g.enter id w)) w).seen := by
  induction ids generalizing w with
  | nil => cases hn
  | cons m ids ih =>
    rcases List.mem_cons.mp hn with rfl | hn
    · have hin : n ∈ (g.enter n w).seen := by
        by_cases hs : n ∈ w.seen
        · rw [enter_of_seen hs]
          exact hs
        · rw [enter_of_unseen hs hlt]
          simp
      exact ((reaches_run g _).le.trans (le_foldl ids)).seen.subset hin
    · exact ih hn

/-- When no node is open, whatever was seen is closed. -/
theorem mem_closed_of_seen (h : w.Valid g starts) (hs : w.stack = []) {n : NodeId}
    (hn : n ∈ w.seen) : n ∈ w.closed := by
  rcases (h.mem_seen_iff n).mp hn with hp | hc
  · simp [Walk.path, hs] at hp
  · exact hc

/-- An arrow of a closed node leads to a node that was seen. -/
theorem target_seen (h : w.Valid g starts) {n : NodeId} (hn : n ∈ w.closed) {a : Arrow}
    (ha : a ∈ g.arrows n) : a.target ∈ w.seen := by
  obtain ⟨l₁, l₂, hsplit⟩ := List.append_of_mem hn
  rcases h.order l₁ n l₂ hsplit a ha with hb | hl
  · exact (h.back a hb).1
  · exact (h.mem_seen_iff _).mpr (Or.inr (by rw [hsplit]; exact List.mem_append_left _ hl))

/-- **Preorder holds what can be reached**, and nothing else. -/
theorem mem_preorder_iff (hb : g.Bounded) (hstarts : ∀ n ∈ starts, n < g.size) (n : NodeId) :
    n ∈ g.preorder starts ↔ g.Reachable starts n := by
  have hv : (g.walk starts).Valid g starts := walk_valid hb
  constructor
  · exact hv.reached n
  · rintro ⟨r, hr, hrn⟩
    -- along a path from a start: what was seen is closed in the end, and its arrows were followed
    induction hrn with
    | refl => exact mem_foldl_seen hr (hstarts _ hr)
    | tail _ hstep ih =>
      obtain ⟨a, ha, rfl⟩ := hstep
      exact target_seen hv (mem_closed_of_seen hv (walk_stack hb) ih) ha

/-- Preorder holds every node once. -/
theorem preorder_nodup (hb : g.Bounded) : (g.preorder starts).Nodup :=
  (walk_valid hb).nodup

end Graph

end

end TypeScribe
