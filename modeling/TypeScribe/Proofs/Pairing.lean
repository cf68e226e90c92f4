import TypeScribe.Proofs.Resolving

/-!
# Pairings of two graphs

Two constructions may make different graphs of what comes to the same. A **pairing** says which nodes of the two
correspond and which have no counterpart. The graphs are **aligned** by it if nodes that correspond are made of
nodes that correspond, and the others are null types that nothing is said about (`Graph.Aligned`).

What construction does to graphs keeps them aligned: nodes are added on both sides or, if they are null types, on
one (`Graph.Aligned.place`), keys are bound to nodes that correspond, and such nodes are changed alike.
-/

namespace TypeScribe

/-! ## Outcomes that are paired -/

/-- Two outcomes are **paired**: values and states that are related, or two failures. -/
inductive Paired {ε α β S T : Type} (good : α → S → β → T → Prop) :
    EStateM.Result ε S α → EStateM.Result ε T β → Prop where
  | ok {a : α} {s : S} {b : β} {t : T} (related : good a s b t) : Paired good (.ok a s) (.ok b t)
  | error {e e' : ε} {s : S} {t : T} : Paired good (.error e s) (.error e' t)

namespace Paired

variable {ε α β γ δ S T : Type} {good : α → S → β → T → Prop} {good' : γ → S → δ → T → Prop}

/-- Steps that are paired one after the other are paired as a whole. -/
theorem bind {m : EStateM ε S α} {n : EStateM ε T β} {k : α → EStateM ε S γ} {l : β → EStateM ε T δ}
    {s : S} {t : T} (h : Paired good (m s) (n t))
    (hrest : ∀ a s b t, good a s b t → Paired good' (k a s) (l b t)) :
    Paired good' ((m >>= k) s) ((n >>= l) t) := by
  rw [bind_apply, bind_apply]
  generalize m s = r at h
  generalize n t = q at h
  cases h with
  | ok related => exact hrest _ _ _ _ related
  | error => exact .error

theorem mono {good' : α → S → β → T → Prop} {r : EStateM.Result ε S α} {q : EStateM.Result ε T β}
    (h : Paired good r q) (himp : ∀ a s b t, good a s b t → good' a s b t) : Paired good' r q := by
  cases h with
  | ok related => exact .ok (himp _ _ _ _ related)
  | error => exact .error

/-- The value of the first outcome is changed. -/
theorem map_left {m : EStateM ε S α} {f : α → γ} {s : S} {q : EStateM.Result ε T β}
    {good' : γ → S → β → T → Prop} (h : Paired good (m s) q)
    (himp : ∀ a s b t, good a s b t → good' (f a) s b t) :
    Paired good' ((m >>= fun a => pure (f a)) s) q := by
  rw [bind_apply]
  generalize m s = r at h
  cases h with
  | ok related => exact .ok (himp _ _ _ _ related)
  | error => exact .error

/-- The value of the second outcome is changed. -/
theorem map_right {n : EStateM ε T β} {f : β → δ} {t : T} {r : EStateM.Result ε S α}
    {good' : α → S → δ → T → Prop} (h : Paired good r (n t))
    (himp : ∀ a s b t, good a s b t → good' a s (f b) t) :
    Paired good' r ((n >>= fun b => pure (f b)) t) := by
  rw [bind_apply]
  generalize n t = q at h
  cases h with
  | ok related => exact .ok (himp _ _ _ _ related)
  | error => exact .error

/-- If the first of two outcomes that are paired is a success, so is the second. -/
theorem exists_ok {r : EStateM.Result ε S α} {q : EStateM.Result ε T β} (h : Paired good r q) {a : α}
    {s : S} (hr : r = .ok a s) : ∃ b t, q = .ok b t ∧ good a s b t := by
  cases h with
  | ok related =>
    cases hr
    exact ⟨_, _, rfl, related⟩
  | error => cases hr

end Paired

/-! ## Pairings -/

/-- **A pairing** of the nodes of two graphs: nodes that correspond, and nodes of the one or of the other
that have no counterpart. -/
abbrev Pairing := List (Option NodeId × Option NodeId)

namespace Pairing

/-- Two nodes correspond. -/
def Pairs (m : Pairing) (i j : NodeId) : Prop := (some i, some j) ∈ m

/-- The pairing seen from the other side. -/
def swap (m : Pairing) : Pairing := m.map Prod.swap

theorem mem_swap {m : Pairing} {o o' : Option NodeId} : (o, o') ∈ m.swap ↔ (o', o) ∈ m := by
  simp [swap]

theorem swap_swap (m : Pairing) : m.swap.swap = m := by
  simp [swap]

/-- **Lists of nodes that correspond**, once those without a counterpart are left out. -/
inductive Lists (m : Pairing) : List NodeId → List NodeId → Prop where
  | nil : Lists m [] []
  | both {i j : NodeId} {is js : List NodeId} (head : m.Pairs i j) (tail : Lists m is js) :
      Lists m (i :: is) (j :: js)
  | left {i : NodeId} {is js : List NodeId} (head : (some i, none) ∈ m) (tail : Lists m is js) :
      Lists m (i :: is) js
  | right {j : NodeId} {is js : List NodeId} (head : (none, some j) ∈ m) (tail : Lists m is js) :
      Lists m is (j :: js)

/-- Lists that correspond go on corresponding when the pairing grows. -/
theorem Lists.mono {m m' : Pairing} (hm : m ⊆ m') {is js : List NodeId} (h : m.Lists is js) :
    m'.Lists is js := by
  induction h with
  | nil => exact .nil
  | both head _ ih => exact .both (hm head) ih
  | left head _ ih => exact .left (hm head) ih
  | right head _ ih => exact .right (hm head) ih

theorem Lists.swap {m : Pairing} {is js : List NodeId} (h : m.Lists is js) : m.swap.Lists js is := by
  induction h with
  | nil => exact .nil
  | both head _ ih => exact .both (mem_swap.mpr head) ih
  | left head _ ih => exact .right (mem_swap.mpr head) ih
  | right head _ ih => exact .left (mem_swap.mpr head) ih

end Pairing

/-- Fields that correspond. -/
structure Field.Alike (m : Pairing) (f f' : Field) : Prop where
  name : f.name = f'.name
  required : f.required = f'.required
  type : m.Pairs f.type f'.type

/-- Shapes that correspond. -/
inductive Shape.Alike (m : Pairing) : Shape → Shape → Prop where
  | scalar (s : Scalar) : Alike m (.scalar s) (.scalar s)
  | choice {is js : List NodeId} (alternatives : m.Lists is js) : Alike m (.choice is) (.choice js)
  | unbuilt : Alike m (.array none) (.array none)
  | array {i j : NodeId} (item : m.Pairs i j) : Alike m (.array (some i)) (.array (some j))
  | object {fs fs' : List Field} (fields : List.Forall₂ (Field.Alike m) fs fs') :
      Alike m (.object fs) (.object fs')
  | composite : Alike m .composite .composite
  | reference (ref target : String) : Alike m (.reference ref target) (.reference ref target)

/-- Augmentations that correspond. -/
structure Augmentation.Alike (m : Pairing) (a a' : Augmentation) : Prop where
  keyword : a.keyword = a'.keyword
  members : m.Lists a.members a'.members

/-- **Nodes that correspond**: they are named and declared alike, and made of nodes that correspond. -/
structure Node.Alike (m : Pairing) (node node' : Node) : Prop where
  name : node.name = node'.name
  declared : node.declared = node'.declared
  shape : Shape.Alike m node.shape node'.shape
  augmentations : List.Forall₂ (Augmentation.Alike m) node.augmentations node'.augmentations

/-- A node of the null type and nothing else, which has no name to be known by. -/
structure Node.IsNull (node : Node) : Prop where
  declared : node.declared = false
  shape : node.shape = .scalar .null
  augmentations : node.augmentations = []

section

variable {m m' : Pairing}

theorem Field.Alike.mono (hm : m ⊆ m') {f f' : Field} (h : Field.Alike m f f') : Field.Alike m' f f' :=
  ⟨h.name, h.required, hm h.type⟩

theorem Augmentation.Alike.mono (hm : m ⊆ m') {a a' : Augmentation} (h : Augmentation.Alike m a a') :
    Augmentation.Alike m' a a' :=
  ⟨h.keyword, h.members.mono hm⟩

/-- Shapes that are alike remain so when the pairing grows. -/
theorem Shape.Alike.mono (hm : m ⊆ m') {s s' : Shape} (h : Shape.Alike m s s') : Shape.Alike m' s s' := by
  cases h with
  | scalar s => exact .scalar s
  | choice alternatives => exact .choice (alternatives.mono hm)
  | unbuilt => exact .unbuilt
  | array item => exact .array (hm item)
  | object fields => exact .object (fields.imp fun _ _ => Field.Alike.mono hm)
  | composite => exact .composite
  | reference ref target => exact .reference ref target

theorem Node.Alike.mono (hm : m ⊆ m') {node node' : Node} (h : Node.Alike m node node') :
    Node.Alike m' node node' :=
  ⟨h.name, h.declared, h.shape.mono hm, h.augmentations.imp fun _ _ => Augmentation.Alike.mono hm⟩

theorem Shape.Alike.swap {s s' : Shape} (h : Shape.Alike m s s') : Shape.Alike m.swap s' s := by
  cases h with
  | scalar s => exact .scalar s
  | choice alternatives => exact .choice alternatives.swap
  | unbuilt => exact .unbuilt
  | array item => exact .array (Pairing.mem_swap.mpr item)
  | object fields =>
    exact .object (fields.flip.imp fun _ _ h => ⟨h.name.symm, h.required.symm, Pairing.mem_swap.mpr h.type⟩)
  | composite => exact .composite
  | reference ref target => exact .reference ref target

theorem Node.Alike.swap {node node' : Node} (h : Node.Alike m node node') : Node.Alike m.swap node' node :=
  ⟨h.name.symm, h.declared.symm, h.shape.swap,
    h.augmentations.flip.imp fun _ _ h => ⟨h.keyword.symm, h.members.swap⟩⟩

end

/-! ## Aligned graphs -/

namespace Graph

/-- **Aligned graphs**: a node has one counterpart or none, nodes that correspond are alike, the others are
null types, and keys stand for nodes that correspond. -/
structure Aligned (m : Pairing) (g g' : Graph) : Prop where
  left_unique : ∀ {i : NodeId} {o o' : Option NodeId}, (some i, o) ∈ m → (some i, o') ∈ m → o = o'
  right_unique : ∀ {j : NodeId} {o o' : Option NodeId}, (o, some j) ∈ m → (o', some j) ∈ m → o = o'
  pairs : ∀ {i j : NodeId}, m.Pairs i j →
    ∃ node node', g.node? i = some node ∧ g'.node? j = some node' ∧ Node.Alike m node node'
  left : ∀ {i : NodeId}, (some i, none) ∈ m → ∃ node, g.node? i = some node ∧ node.IsNull
  right : ∀ {j : NodeId}, (none, some j) ∈ m → ∃ node, g'.node? j = some node ∧ node.IsNull
  keys : ∀ key, Option.Rel m.Pairs (g.find? key) (g'.find? key)

namespace Aligned

variable {m : Pairing} {g g' : Graph}

theorem blank : Aligned [] {} {} where
  left_unique h := by cases h
  right_unique h := by cases h
  pairs h := by cases h
  left h := by cases h
  right h := by cases h
  keys _ := .none

theorem swap (h : Aligned m g g') : Aligned m.swap g' g where
  left_unique ho ho' := h.right_unique (Pairing.mem_swap.mp ho) (Pairing.mem_swap.mp ho')
  right_unique ho ho' := h.left_unique (Pairing.mem_swap.mp ho) (Pairing.mem_swap.mp ho')
  pairs hij := by
    obtain ⟨node, node', hnode, hnode', halike⟩ := h.pairs (Pairing.mem_swap.mp hij)
    exact ⟨node', node, hnode', hnode, halike.swap⟩
  left hi := h.right (Pairing.mem_swap.mp hi)
  right hj := h.left (Pairing.mem_swap.mp hj)
  keys key := by
    have hkey := h.keys key
    generalize g.find? key = o at hkey
    generalize g'.find? key = o' at hkey
    cases hkey with
    | some hij => exact .some (Pairing.mem_swap.mpr hij)
    | none => exact .none

/-- Aligned graphs know the same keys. -/
theorem knows (h : Aligned m g g') (key : String) : g.knows key = g'.knows key := by
  have hkey := h.keys key
  rw [Graph.knows, Graph.knows]
  generalize g.find? key = o at hkey
  generalize g'.find? key = o' at hkey
  cases hkey <;> rfl

/-- A reference has the same key in aligned graphs. -/
theorem keyOf (h : Aligned m g g') (settings : Settings) (ref : String) :
    g.keyOf settings ref = g'.keyOf settings ref := by
  rw [Graph.keyOf, Graph.keyOf, h.knows]

/-- Whatever has a place in the pairing is there. -/
theorem lt_left (h : Aligned m g g') {i : NodeId} {o : Option NodeId} (hi : (some i, o) ∈ m) :
    i < g.size := by
  cases o with
  | none =>
    obtain ⟨_, hnode, -⟩ := h.left hi
    exact lt_size_of_node hnode
  | some j =>
    obtain ⟨_, _, hnode, -, -⟩ := h.pairs hi
    exact lt_size_of_node hnode

theorem lt_right (h : Aligned m g g') {j : NodeId} {o : Option NodeId} (hj : (o, some j) ∈ m) :
    j < g'.size :=
  h.swap.lt_left (Pairing.mem_swap.mpr hj)

theorem node?_push_of_some {g : Graph} {i : NodeId} {node new : Node} (h : g.node? i = some node) :
    (g.push new).node? i = some node := by
  have hlt := lt_size_of_node h
  rw [(Grows.push g new).kept i hlt (by simpa using Nat.ne_of_gt hlt), h]

theorem node?_push_size (g : Graph) (new : Node) : (g.push new).node? g.size = some new :=
  Array.getElem?_push_size

/-- **A place is added to the pairing**, for nodes that are new to the graphs. -/
theorem place (h : Aligned m g g') {seat : Option NodeId × Option NodeId} {g₁ g₁' : Graph}
    (hkept : ∀ i node, g.node? i = some node → g₁.node? i = some node)
    (hkept' : ∀ j node, g'.node? j = some node → g₁'.node? j = some node)
    (htable : g₁.table = g.table) (htable' : g₁'.table = g'.table)
    (hnew : ∀ i, seat.1 = some i → g.size ≤ i) (hnew' : ∀ j, seat.2 = some j → g'.size ≤ j)
    (hpairs : ∀ i j, seat = (some i, some j) → ∃ node node', g₁.node? i = some node ∧
      g₁'.node? j = some node' ∧ Node.Alike m node node')
    (hleft : ∀ i, seat = (some i, none) → ∃ node, g₁.node? i = some node ∧ node.IsNull)
    (hright : ∀ j, seat = (none, some j) → ∃ node, g₁'.node? j = some node ∧ node.IsNull) :
    Aligned (seat :: m) g₁ g₁' where
  left_unique {i o o'} ho ho' := by
    have hfresh {o o' : Option NodeId} (heq : (some i, o) = seat) (ho' : (some i, o') ∈ m) : False :=
      Nat.not_lt.mpr (hnew i (by rw [← heq])) (h.lt_left ho')
    rcases List.mem_cons.mp ho with heq | ho <;> rcases List.mem_cons.mp ho' with heq' | ho'
    · exact congrArg Prod.snd (heq.trans heq'.symm)
    · exact (hfresh heq ho').elim
    · exact (hfresh heq' ho).elim
    · exact h.left_unique ho ho'
  right_unique {j o o'} ho ho' := by
    have hfresh {o o' : Option NodeId} (heq : (o, some j) = seat) (ho' : (o', some j) ∈ m) : False :=
      Nat.not_lt.mpr (hnew' j (by rw [← heq])) (h.lt_right ho')
    rcases List.mem_cons.mp ho with heq | ho <;> rcases List.mem_cons.mp ho' with heq' | ho'
    · exact congrArg Prod.fst (heq.trans heq'.symm)
    · exact (hfresh heq ho').elim
    · exact (hfresh heq' ho).elim
    · exact h.right_unique ho ho'
  pairs {i j} hij := by
    have hall : ∃ node node', g₁.node? i = some node ∧ g₁'.node? j = some node' ∧
        Node.Alike m node node' := by
      rcases List.mem_cons.mp hij with heq | hij
      · exact hpairs i j heq.symm
      · obtain ⟨node, node', hnode, hnode', halike⟩ := h.pairs hij
        exact ⟨node, node', hkept i node hnode, hkept' j node' hnode', halike⟩
    obtain ⟨node, node', hnode, hnode', halike⟩ := hall
    exact ⟨node, node', hnode, hnode', halike.mono (List.subset_cons_self ..)⟩
  left {i} hi := by
    rcases List.mem_cons.mp hi with heq | hi
    · exact hleft i heq.symm
    · obtain ⟨node, hnode, hnull⟩ := h.left hi
      exact ⟨node, hkept i node hnode, hnull⟩
  right {j} hj := by
    rcases List.mem_cons.mp hj with heq | hj
    · exact hright j heq.symm
    · obtain ⟨node, hnode, hnull⟩ := h.right hj
      exact ⟨node, hkept' j node hnode, hnull⟩
  keys key := by
    have hkey := h.keys key
    rw [find?, find?] at hkey ⊢
    rw [htable, htable']
    generalize g.table.get? key = o at hkey
    generalize g'.table.get? key = o' at hkey
    cases hkey with
    | some hij => exact .some (List.mem_cons_of_mem _ hij)
    | none => exact .none

/-- **A null type without a counterpart** is added. -/
theorem pushLeft (h : Aligned m g g') {new : Node} (hnew : new.IsNull) :
    Aligned ((some g.size, none) :: m) (g.push new) g' := by
  refine h.place (fun _ _ => node?_push_of_some) (fun _ _ => id) rfl rfl ?_ ?_ ?_ ?_ ?_
  · rintro i ⟨⟩
    exact Nat.le_refl _
  · rintro j ⟨⟩
  · rintro i j ⟨⟩
  · rintro i ⟨⟩
    exact ⟨new, node?_push_size g new, hnew⟩
  · rintro j ⟨⟩

/-- A null may be added on the right, with no partner. -/
theorem pushRight (h : Aligned m g g') {new : Node} (hnew : new.IsNull) :
    Aligned ((none, some g'.size) :: m) g (g'.push new) := by
  have hpushed := (h.swap.pushLeft hnew).swap
  rw [Pairing.swap, List.map_cons] at hpushed
  exact m.swap_swap ▸ hpushed

/-- **Two nodes that correspond** are added. -/
theorem pushBoth (h : Aligned m g g') {new new' : Node} (hnew : Node.Alike m new new') :
    Aligned ((some g.size, some g'.size) :: m) (g.push new) (g'.push new') := by
  refine h.place (fun _ _ => node?_push_of_some) (fun _ _ => node?_push_of_some) rfl rfl ?_ ?_ ?_ ?_ ?_
  · rintro i ⟨⟩
    exact Nat.le_refl _
  · rintro j ⟨⟩
    exact Nat.le_refl _
  · rintro i j ⟨⟩
    exact ⟨new, new', node?_push_size g new, node?_push_size g' new', hnew⟩
  · rintro i ⟨⟩
  · rintro j ⟨⟩

/-- A key may be bound to paired nodes. -/
theorem bind (h : Aligned m g g') (key : String) {i j : NodeId} (hij : m.Pairs i j) :
    Aligned m (g.bind key i) (g'.bind key j) where
  left_unique := h.left_unique
  right_unique := h.right_unique
  pairs := h.pairs
  left := h.left
  right := h.right
  keys k := by
    rw [find_bind, find_bind]
    split
    · exact .some hij
    · exact h.keys k

theorem bindAll {i j : NodeId} (hij : m.Pairs i j) (keys : List String) : ∀ {g g' : Graph},
    Aligned m g g' → Aligned m (g.bindAll i keys) (g'.bindAll j keys) := by
  induction keys with
  | nil => exact fun h => h
  | cons key rest ih =>
    intro g g' h
    rw [Graph.bindAll, Graph.bindAll]
    split
    · exact ih h
    · exact ih (h.bind key hij)

theorem node?_adjust_ne {g : Graph} {i k : NodeId} (f : Node → Node) (hne : i ≠ k) :
    (g.adjust i f).node? k = g.node? k := by
  rw [Graph.node?, Graph.adjust, Array.getElem?_modify, if_neg hne]
  rfl

/-- **Two nodes that correspond** are changed alike. -/
theorem adjust (h : Aligned m g g') {i j : NodeId} (hij : m.Pairs i j) {f f' : Node → Node}
    (hf : ∀ node node', Node.Alike m node node' → Node.Alike m (f node) (f' node')) :
    Aligned m (g.adjust i f) (g'.adjust j f') where
  left_unique := h.left_unique
  right_unique := h.right_unique
  pairs {k l} hkl := by
    obtain ⟨node, node', hnode, hnode', halike⟩ := h.pairs hkl
    by_cases hk : i = k
    · subst hk
      obtain rfl : j = l := Option.some.inj (h.left_unique hij hkl)
      exact ⟨f node, f' node', node_adjust hnode, node_adjust hnode', hf node node' halike⟩
    · have hl : j ≠ l := by
        rintro rfl
        exact hk (Option.some.inj (h.right_unique hij hkl))
      refine ⟨node, node', ?_, ?_, halike⟩
      · rw [node?_adjust_ne f hk, hnode]
      · rw [node?_adjust_ne f' hl, hnode']
  left {k} hk := by
    obtain ⟨node, hnode, hnull⟩ := h.left hk
    refine ⟨node, ?_, hnull⟩
    rw [node?_adjust_ne f, hnode]
    rintro rfl
    cases h.left_unique hij hk
  right {k} hk := by
    obtain ⟨node, hnode, hnull⟩ := h.right hk
    refine ⟨node, ?_, hnull⟩
    rw [node?_adjust_ne f', hnode]
    rintro rfl
    cases h.right_unique hij hk
  keys := h.keys

end Aligned

/-- A node that has just been added is changed. -/
theorem adjust_push (g : Graph) (node : Node) (f : Node → Node) :
    (g.push node).adjust g.size f = g.push (f node) := by
  simp only [adjust, push, size]
  congr 1
  apply Array.ext_getElem?
  intro i
  rw [Array.getElem?_modify, Array.getElem?_push, Array.getElem?_push]
  by_cases hi : i = g.nodes.size
  · simp [hi]
  · simp [hi, Ne.symm hi]

end Graph

end TypeScribe
