import TypeScribe.Proofs.Annotations
import TypeScribe.Proofs.Nulls
import TypeScribe.Proofs.Pairing

/-!
# Building aligned graphs

A null member gets a node like any other, so that documents that are pruned alike make different graphs. Building two
schemas that are the same when they are slim makes graphs that are aligned by a larger pairing
(`Schema.build_slim`), and so does building two documents that are pruned alike, with all that they load
(`Build.root_pruned`).
-/

namespace TypeScribe

/-! ## Building -/

/-- **A null member** gets a node of its own, and nothing else happens. -/
theorem Schema.build_null {σ : Type} (link : String → Build σ Link) {s : Schema} (hs : s.isNull = true)
    (path : String) (w : Workshop σ) : ∃ node : Node, node.IsNull ∧
      s.build link none path [] w = .ok w.graph.size (w.update (w.graph.push node) []) := by
  unfold isNull at hs
  split at hs
  · rename_i facts
    simp only [Bool.and_eq_true, Option.isNone_iff_eq_none] at hs
    obtain ⟨hid, htitle⟩ := hs
    have hnew : facts.id.bind w.graph.find? = none := by rw [hid]; rfl
    refine ⟨Schema.node facts (.scalar .null) [] none path, ⟨?_, rfl, rfl⟩, ?_⟩
    · simp only [node, isDeclared, htitle]
      rfl
    · rw [build_new hnew, hid]
      simp only [fill, Body.build, Group.buildAll, pure_bind]
      rw [Build.augment, bind_ok _ (Build.onGraph_apply _ _)]
      change EStateM.Result.ok _ _ = _
      simp only [Workshop.enter, Workshop.update, Option.toList, List.nil_append, Graph.bindAll,
        Graph.adjust_push, registrations]
      simp [node]
  · cases hs

/-- **Aligned workshops**: the graphs are aligned, and the sources serve documents that are pruned alike. -/
structure Workshop.Aligned {σ τ : Type} [Source σ] [Source τ] (m : Pairing) (w : Workshop σ)
    (v : Workshop τ) : Prop where
  graph : Graph.Aligned m w.graph v.graph
  source : Source.ServeUpTo (Json.prune .fragment) w.source v.source

section

variable {σ τ : Type} [Source σ] [Source τ] {m : Pairing} {w : Workshop σ} {v : Workshop τ}

/-- Workshops that are aligned by a larger pairing, with values that correspond by it. -/
def Workshop.Grown {α β : Type} (related : Pairing → α → β → Prop) (m : Pairing) (a : α) (w : Workshop σ)
    (b : β) (v : Workshop τ) : Prop :=
  ∃ m', m ⊆ m' ∧ related m' a b ∧ w.Aligned m' v

/-- Two constructions one after the other: the second may use a larger pairing than the first one
began with, and all that was paired before remains paired. -/
theorem Paired.grow {α β γ δ : Type} {related : Pairing → α → β → Prop} {related' : Pairing → γ → δ → Prop}
    {x : Build σ α} {y : Build τ β} {k : α → Build σ γ} {l : β → Build τ δ}
    (h : Paired (Workshop.Grown related m) (x w) (y v))
    (hrest : ∀ {m' : Pairing} {a : α} {b : β} {w : Workshop σ} {v : Workshop τ}, m ⊆ m' → related m' a b →
      w.Aligned m' v → Paired (Workshop.Grown related' m') (k a w) (l b v)) :
    Paired (Workshop.Grown related' m) ((x >>= k) w) ((y >>= l) v) := by
  refine h.bind ?_
  rintro a w b v ⟨m', hm, hrelated, haligned⟩
  refine (hrest hm hrelated haligned).mono ?_
  rintro c w d v ⟨m'', hm', hrest⟩
  exact ⟨m'', List.Subset.trans hm hm', hrest⟩

namespace Workshop.Aligned

theorem ok {α β : Type} {related : Pairing → α → β → Prop} {a : α} {b : β} (h : w.Aligned m v)
    (hrelated : related m a b) :
    Paired (Workshop.Grown related m) (.ok a w : EStateM.Result Failure (Workshop σ) α)
      (.ok b v : EStateM.Result Failure (Workshop τ) β) :=
  .ok ⟨m, List.Subset.refl m, hrelated, h⟩

/-- Entering a node on each side pairs the two new nodes. -/
theorem enter (h : w.Aligned m v) {node node' : Node} (hnode : Node.Alike m node node')
    (path path' : String) (keys : List String) :
    (w.enter node path keys).Aligned ((some w.graph.size, some v.graph.size) :: m)
      (v.enter node' path' keys) :=
  ⟨Graph.Aligned.bindAll (List.mem_cons_self ..) keys (h.graph.pushBoth hnode), h.source⟩

/-- Two nodes that correspond are changed alike. -/
theorem onGraph (h : w.Aligned m v) {i j : NodeId} (hij : m.Pairs i j) {f f' : Node → Node}
    (hf : ∀ node node', Node.Alike m node node' → Node.Alike m (f node) (f' node')) :
    Paired (Workshop.Grown (fun _ _ _ => True) m) (Build.onGraph (·.adjust i f) w)
      (Build.onGraph (·.adjust j f') v) := by
  rw [Build.onGraph_apply, Build.onGraph_apply]
  exact .ok ⟨m, List.Subset.refl m, trivial, h.graph.adjust hij hf, h.source⟩

/-- Paired nodes may be given shapes that are alike. -/
theorem reshape (h : w.Aligned m v) {i j : NodeId} (hij : m.Pairs i j) {shape shape' : Shape}
    (hshape : Shape.Alike m shape shape') :
    Paired (Workshop.Grown (fun _ _ _ => True) m) (Build.reshape i shape w) (Build.reshape j shape' v) :=
  h.onGraph hij fun _ _ halike => { halike with shape := hshape }

/-- Paired nodes may be given fields that are alike. -/
theorem addField (h : w.Aligned m v) {i j : NodeId} (hij : m.Pairs i j) {field field' : Field}
    (hfield : Field.Alike m field field') :
    Paired (Workshop.Grown (fun _ _ _ => True) m) (Build.addField i field w) (Build.addField j field' v) := by
  refine h.onGraph hij fun node node' halike => ?_
  obtain ⟨hname, hdeclared, hshape, haugmentations⟩ := halike
  cases node with
  | mk source path name declared shape augmentations =>
    cases node' with
    | mk source' path' name' declared' shape' augmentations' =>
      cases hshape with
      | object fields =>
        exact ⟨hname, hdeclared, .object (List.rel_append fields (.cons hfield .nil)), haugmentations⟩
      | scalar s => exact ⟨hname, hdeclared, .scalar s, haugmentations⟩
      | choice alternatives => exact ⟨hname, hdeclared, .choice alternatives, haugmentations⟩
      | unbuilt => exact ⟨hname, hdeclared, .unbuilt, haugmentations⟩
      | array item => exact ⟨hname, hdeclared, .array item, haugmentations⟩
      | composite => exact ⟨hname, hdeclared, .composite, haugmentations⟩
      | reference ref target => exact ⟨hname, hdeclared, .reference ref target, haugmentations⟩

/-- Paired nodes may be given composition groups that are alike. -/
theorem augment (h : w.Aligned m v) {i j : NodeId} (hij : m.Pairs i j)
    {augmentations augmentations' : List Augmentation}
    (haugmentations : List.Forall₂ (Augmentation.Alike m) augmentations augmentations') :
    Paired (Workshop.Grown (fun _ _ _ => True) m) (Build.augment i augmentations w)
      (Build.augment j augmentations' v) :=
  h.onGraph hij fun _ _ halike => { halike with augmentations := haugmentations }

/-- Keys that stand for nodes that correspond are linked to alike. -/
theorem linkTo (h : w.Aligned m v) (ref key : String) :
    Paired (Workshop.Grown (fun _ l l' => l = l') m) (Build.linkTo ref key w) (Build.linkTo ref key v) := by
  rw [Build.linkTo_eq, Build.linkTo_eq]
  have hkey := h.graph.keys key
  generalize w.graph.find? key = o at hkey
  generalize v.graph.find? key = o' at hkey
  cases hkey with
  | none => exact .error
  | some hij =>
    obtain ⟨node, node', hnode, hnode', halike⟩ := h.graph.pairs hij
    simp only [hnode, hnode', halike.name]
    split
    · exact .error
    · exact h.ok rfl

end Workshop.Aligned

/-- **Two ways to resolve references** that go together in aligned workshops. -/
def LinksPaired (link : String → Build σ Link) (link' : String → Build τ Link) : Prop :=
  ∀ ref {m : Pairing} {w : Workshop σ} {v : Workshop τ}, w.Aligned m v →
    Paired (Workshop.Grown (fun _ l l' => l = l') m) (link ref w) (link' ref v)

/-- The nodes of two fragments that are the same when they are slim. -/
theorem Schema.node_alike (m : Pairing) {facts facts' : Facts} {body body' : Body}
    {groups groups' : List Group} (hfacts : facts.bare = facts'.bare) (hbody : body.slim = body'.slim)
    (hgroups : Group.slimAll groups = Group.slimAll groups') (name : Option String) (path path' : String) :
    Node.Alike m (node facts body groups name path) (node facts' body' groups' name path') := by
  have htitle : facts.title = facts'.title := by
    have hbare := congrArg Facts.title hfacts
    exact hbare
  have hempty : groups.isEmpty = groups'.isEmpty := by
    rw [Group.slimAll_eq, Group.slimAll_eq] at hgroups
    rw [← List.isEmpty_map (f := Group.slim), hgroups, List.isEmpty_map]
  have hobject (body : Body) : body.slim.isObject = body.isObject := by cases body <;> rfl
  have hcomposite (body : Body) : body.slim.isComposite = body.isComposite := by cases body <;> rfl
  refine ⟨?_, ?_, ?_, .nil⟩
  · simp only [node, htitle]
  · simp only [node, isDeclared, htitle, hempty, ← hobject body, ← hcomposite body, hbody, hobject,
      hcomposite]
  · have hunbuilt (body : Body) : Shape.unbuilt body.slim = Shape.unbuilt body := by cases body <;> rfl
    simp only [node]
    rw [← hunbuilt body, hbody, hunbuilt]
    cases body' with
    | scalar s => exact .scalar s
    | choice alternatives => exact .choice .nil
    | array items => exact .unbuilt
    | object required properties => exact .object .nil
    | broken defect => exact .object .nil
    | composite => exact .composite
    | reference ref => exact .reference "" ""

theorem Schema.id_slim (s : Schema) : s.slim.facts.id = s.facts.id := by
  cases s <;> rw [slim] <;> rfl

variable {link : String → Build σ Link} {link' : String → Build τ Link}

/-- Nodes that correspond are filled alike if their parts and their members are built alike. -/
theorem Schema.fill_slim {facts facts' : Facts} {body body' : Body} {groups groups' : List Group}
    {name : Option String} {path path' : String} {i j : NodeId} (hij : m.Pairs i j)
    (hbody : Paired (Workshop.Grown (fun _ _ _ => True) m) (body.build link i facts name path w)
      (body'.build link' j facts' name path' v))
    (hgroups : ∀ {m : Pairing} {w : Workshop σ} {v : Workshop τ}, w.Aligned m v →
      Paired (Workshop.Grown (fun m => List.Forall₂ (Augmentation.Alike m)) m)
        (Group.buildAll link groups facts path w) (Group.buildAll link' groups' facts' path' v)) :
    Paired (Workshop.Grown Pairing.Pairs m) (Schema.fill link facts body groups name path i w)
      (Schema.fill link' facts' body' groups' name path' j v) := by
  refine Paired.grow hbody fun hm _ h => ?_
  refine Paired.grow (hgroups h) fun hm' haugmentations h => ?_
  refine Paired.grow (h.augment (hm' (hm hij)) haugmentations) fun hm'' _ h => ?_
  exact h.ok (hm'' (hm' (hm hij)))

/-- A null member of the first list is passed over. -/
theorem Schema.buildAll_left {s : Schema} (hs : s.isNull = true) {rest : List Schema} {path : String}
    {index : Nat} {q : EStateM.Result Failure (Workshop τ) (List NodeId)} (h : w.Aligned m v)
    (hrest : ∀ {m : Pairing} {w : Workshop σ}, w.Aligned m v →
      Paired (Workshop.Grown Pairing.Lists m) (Schema.buildAll link rest path (index + 1) w) q) :
    Paired (Workshop.Grown Pairing.Lists m) (Schema.buildAll link (s :: rest) path index w) q := by
  obtain ⟨node, hnull, hbuild⟩ := Schema.build_null link hs (path ++ index.repr) w
  rw [Schema.buildAll, bind_ok _ hbuild]
  have hpushed : (w.update (w.graph.push node) []).Aligned ((some w.graph.size, none) :: m) v :=
    ⟨h.graph.pushLeft hnull, h.source⟩
  refine (hrest hpushed).map_left ?_
  rintro is w js v ⟨m', hm, hlists, haligned⟩
  refine ⟨m', fun _ hseat => hm (List.mem_cons_of_mem _ hseat), ?_, haligned⟩
  exact .left (hm (List.mem_cons_self ..)) hlists

/-- A null member of the second list is passed over. -/
theorem Schema.buildAll_right {s : Schema} (hs : s.isNull = true) {rest : List Schema} {path : String}
    {index : Nat} {r : EStateM.Result Failure (Workshop σ) (List NodeId)} (h : w.Aligned m v)
    (hrest : ∀ {m : Pairing} {v : Workshop τ}, w.Aligned m v →
      Paired (Workshop.Grown Pairing.Lists m) r (Schema.buildAll link' rest path (index + 1) v)) :
    Paired (Workshop.Grown Pairing.Lists m) r (Schema.buildAll link' (s :: rest) path index v) := by
  obtain ⟨node, hnull, hbuild⟩ := Schema.build_null link' hs (path ++ index.repr) v
  rw [Schema.buildAll, bind_ok _ hbuild]
  have hpushed : w.Aligned ((none, some v.graph.size) :: m) (v.update (v.graph.push node) []) :=
    ⟨h.graph.pushRight hnull, h.source⟩
  refine (hrest hpushed).map_right ?_
  rintro is w js v ⟨m', hm, hlists, haligned⟩
  refine ⟨m', fun _ hseat => hm (List.mem_cons_of_mem _ hseat), ?_, haligned⟩
  exact .right (hm (List.mem_cons_self ..)) hlists

mutual

/-- **Schemas that are the same when they are slim are built alike**, if references are resolved alike. -/
theorem Schema.build_slim (hlink : LinksPaired link link') (s s' : Schema) (hslim : s.slim = s'.slim)
    (name : Option String) (path path' : String) (keys : List String) {m : Pairing} {w : Workshop σ}
    {v : Workshop τ} (h : w.Aligned m v) :
    Paired (Workshop.Grown Pairing.Pairs m) (s.build link name path keys w)
      (s'.build link' name path' keys v) := by
  have hids : s'.facts.id = s.facts.id := by rw [← Schema.id_slim, ← hslim, Schema.id_slim]
  have hknown : Option.Rel m.Pairs (s.facts.id.bind w.graph.find?) (s'.facts.id.bind v.graph.find?) := by
    rw [hids]
    cases s.facts.id with
    | none => exact .none
    | some key => exact h.graph.keys key
  cases hw : s.facts.id.bind w.graph.find? with
  | some i =>
    cases hv : s'.facts.id.bind v.graph.find? with
    | none =>
      rw [hw, hv] at hknown
      cases hknown
    | some j =>
      rw [hw, hv] at hknown
      cases hknown with
      | some hij =>
        rw [Schema.build_known s hw, Schema.build_known s' hv]
        exact h.ok hij
  | none =>
    cases hv : s'.facts.id.bind v.graph.find? with
    | some j =>
      rw [hw, hv] at hknown
      cases hknown
    | none =>
      match s, s' with
      | .unsupported facts, .unsupported facts' =>
        have hw : facts.id.bind w.graph.find? = none := hw
        have hv : facts'.id.bind v.graph.find? = none := hv
        rw [Schema.build_unsupported hw, Schema.build_unsupported hv]
        exact .error
      | .unsupported facts, .fragment facts' body' groups' => simp [Schema.slim] at hslim
      | .fragment facts body groups, .unsupported facts' => simp [Schema.slim] at hslim
      | .fragment facts body groups, .fragment facts' body' groups' =>
        obtain ⟨hfacts, hbody, hgroups⟩ : facts.bare = facts'.bare ∧ body.slim = body'.slim ∧
            Group.slimAll groups = Group.slimAll groups' := by simpa [Schema.slim] using hslim
        have hids : facts'.id = facts.id := hids
        have hw : facts.id.bind w.graph.find? = none := hw
        have hv : facts'.id.bind v.graph.find? = none := hv
        rw [Schema.build_new hw, Schema.build_new hv, hids]
        have hentered := h.enter (Schema.node_alike m hfacts hbody hgroups name path path') path path'
          (facts.id.toList ++ keys)
        have hpair : Pairing.Pairs ((some w.graph.size, some v.graph.size) :: m) w.graph.size v.graph.size :=
          List.mem_cons_self ..
        refine (Schema.fill_slim hpair
          (Body.build_slim hlink body body' hbody hpair facts facts' name path path' hentered)
          fun h => Group.buildAll_slim hlink groups groups' hgroups facts facts' path path' h).mono ?_
        rintro i w j v ⟨m', hm, hrest⟩
        exact ⟨m', fun _ hseat => hm (List.mem_cons_of_mem _ hseat), hrest⟩
termination_by sizeOf s + sizeOf s'

/-- Bodies that are the same once nulls are left out add the same to paired nodes. -/
theorem Body.build_slim (hlink : LinksPaired link link') (body body' : Body) (hslim : body.slim = body'.slim)
    {i j : NodeId} {m : Pairing} (hij : m.Pairs i j) (facts facts' : Facts) (name : Option String)
    (path path' : String) {w : Workshop σ} {v : Workshop τ} (h : w.Aligned m v) :
    Paired (Workshop.Grown (fun _ _ _ => True) m) (body.build link i facts name path w)
      (body'.build link' j facts' name path' v) := by
  match body, body' with
  | .scalar s, .scalar s' => exact h.ok trivial
  | .composite, .composite => exact h.ok trivial
  | .broken defect, .broken defect' => exact .error
  | .reference none, .reference none => exact .error
  | .reference (some ref), .reference (some ref') =>
    obtain rfl : ref = ref' := by simpa [Body.slim] using hslim
    refine Paired.grow (hlink ref h) fun hm heq h => ?_
    subst heq
    exact h.reshape (hm hij) (.reference _ _)
  | .choice alternatives, .choice alternatives' =>
    have hslim : Schema.slimAll alternatives = Schema.slimAll alternatives' := by
      simpa [Body.slim] using hslim
    refine Paired.grow (Schema.buildAll_slim hlink alternatives alternatives' hslim _ _ 0 0 h) ?_
    exact fun hm hlists h => h.reshape (hm hij) (.choice hlists)
  | .array items, .array items' =>
    have hslim : items.slim = items'.slim := by simpa [Body.slim] using hslim
    refine Paired.grow (Schema.build_slim hlink items items' hslim name _ _ [] h) ?_
    exact fun hm hitem h => h.reshape (hm hij) (.array hitem)
  | .object required properties, .object required' properties' =>
    obtain ⟨rfl, hfields⟩ : required = required' ∧
        Schema.slimFields properties = Schema.slimFields properties' := by simpa [Body.slim] using hslim
    exact Body.buildFields_slim hlink properties properties' hfields required hij path path' h
termination_by sizeOf body + sizeOf body'

theorem Body.buildFields_slim (hlink : LinksPaired link link') (properties properties' : List (String × Schema))
    (hslim : Schema.slimFields properties = Schema.slimFields properties') (required : List String)
    {i j : NodeId} {m : Pairing} (hij : m.Pairs i j) (path path' : String) {w : Workshop σ} {v : Workshop τ}
    (h : w.Aligned m v) :
    Paired (Workshop.Grown (fun _ _ _ => True) m) (Body.buildFields link required properties i path w)
      (Body.buildFields link' required properties' j path' v) := by
  match properties, properties' with
  | [], [] => exact h.ok trivial
  | [], (name, s) :: rest => simp [Schema.slimFields] at hslim
  | (name, s) :: rest, [] => simp [Schema.slimFields] at hslim
  | (name, s) :: rest, (name', s') :: rest' =>
    obtain ⟨⟨rfl, hs⟩, hrest⟩ : (name = name' ∧ s.slim = s'.slim) ∧
        Schema.slimFields rest = Schema.slimFields rest' := by simpa [Schema.slimFields] using hslim
    refine Paired.grow (Schema.build_slim hlink s s' hs (some name) _ _ [] h) fun hm htype h => ?_
    refine Paired.grow (h.addField (hm hij) ⟨rfl, rfl, htype⟩) fun hm' _ h => ?_
    exact Body.buildFields_slim hlink rest rest' hrest required (hm' (hm hij)) path path' h
termination_by sizeOf properties + sizeOf properties'

/-- Lists of fragments that are the same once nulls are left out build lists of paired nodes. -/
theorem Schema.buildAll_slim (hlink : LinksPaired link link') (schemas schemas' : List Schema)
    (hslim : Schema.slimAll schemas = Schema.slimAll schemas') (path path' : String) (index index' : Nat)
    {m : Pairing} {w : Workshop σ} {v : Workshop τ} (h : w.Aligned m v) :
    Paired (Workshop.Grown Pairing.Lists m) (Schema.buildAll link schemas path index w)
      (Schema.buildAll link' schemas' path' index' v) := by
  match schemas, schemas' with
  | [], [] => exact h.ok .nil
  | [], s' :: rest' =>
    have hs' : s'.isNull = true := by
      by_contra hs'
      simp [Schema.slimAll, hs'] at hslim
    have hslim : Schema.slimAll [] = Schema.slimAll rest' := by simpa [Schema.slimAll, hs'] using hslim
    exact Schema.buildAll_right hs' h fun h =>
      Schema.buildAll_slim hlink [] rest' hslim path path' index (index' + 1) h
  | s :: rest, schemas' =>
    by_cases hs : s.isNull = true
    · have hslim : Schema.slimAll rest = Schema.slimAll schemas' := by simpa [Schema.slimAll, hs] using hslim
      exact Schema.buildAll_left hs h fun h =>
        Schema.buildAll_slim hlink rest schemas' hslim path path' (index + 1) index' h
    · match schemas' with
      | [] => simp [Schema.slimAll, hs] at hslim
      | s' :: rest' =>
        by_cases hs' : s'.isNull = true
        · have hslim : Schema.slimAll (s :: rest) = Schema.slimAll rest' := by
            simpa [Schema.slimAll, hs'] using hslim
          exact Schema.buildAll_right hs' h fun h =>
            Schema.buildAll_slim hlink (s :: rest) rest' hslim path path' index (index' + 1) h
        · obtain ⟨hhead, hrest⟩ : s.slim = s'.slim ∧ Schema.slimAll rest = Schema.slimAll rest' := by
            simpa [Schema.slimAll, hs, hs'] using hslim
          refine Paired.grow (Schema.build_slim hlink s s' hhead none _ _ [] h) fun hm hpair h => ?_
          refine Paired.grow (Schema.buildAll_slim hlink rest rest' hrest path path' (index + 1)
            (index' + 1) h) ?_
          exact fun hm' hlists h => h.ok (.both (hm' hpair) hlists)
termination_by sizeOf schemas + sizeOf schemas'

theorem Group.buildAll_slim (hlink : LinksPaired link link') (groups groups' : List Group)
    (hslim : Group.slimAll groups = Group.slimAll groups') (facts facts' : Facts) (path path' : String)
    {m : Pairing} {w : Workshop σ} {v : Workshop τ} (h : w.Aligned m v) :
    Paired (Workshop.Grown (fun m => List.Forall₂ (Augmentation.Alike m)) m)
      (Group.buildAll link groups facts path w) (Group.buildAll link' groups' facts' path' v) := by
  match groups, groups' with
  | [], [] => exact h.ok .nil
  | [], group :: rest => simp [Group.slimAll_eq] at hslim
  | .malformed keyword :: rest, .malformed keyword' :: rest' => exact .error
  | .members keyword schemas :: rest, .members keyword' schemas' :: rest' =>
    obtain ⟨⟨rfl, hschemas⟩, hrest⟩ : (keyword = keyword' ∧
        Schema.slimAll schemas = Schema.slimAll schemas') ∧ Group.slimAll rest = Group.slimAll rest' := by
      simpa [Group.slimAll] using hslim
    refine Paired.grow (Schema.buildAll_slim hlink schemas schemas' hschemas _ _ 0 0 h)
      fun hm hmembers h => ?_
    refine Paired.grow (Group.buildAll_slim hlink rest rest' hrest facts facts' path path' h) ?_
    exact fun hm' hmore h => h.ok (.cons ⟨rfl, hmembers.mono hm'⟩ hmore)
termination_by sizeOf groups + sizeOf groups'

end

end

/-- **Resolving a reference** comes to the same in aligned workshops. -/
theorem Build.resolve_paired (settings : Settings) (budget : Nat) :
    ∀ {σ τ : Type} [Source σ] [Source τ],
      LinksPaired (resolve settings budget : String → Build σ Link)
        (resolve settings budget : String → Build τ Link) := by
  intro σ τ _ _ ref m w v h
  have hkeys := h.graph.keyOf settings ref
  cases hkey : w.graph.keyOf settings ref with
  | error failure =>
    rw [resolve_failed budget hkey, resolve_failed budget (hkeys ▸ hkey)]
    exact .error
  | ok key =>
    have hknows := h.graph.knows key
    cases hknown : w.graph.knows key with
    | true =>
      rw [resolve_known budget hkey hknown, resolve_known budget (hkeys ▸ hkey) (hknows ▸ hknown)]
      exact h.linkTo ref key
    | false =>
      match budget with
      | 0 =>
        rw [resolve_endless hkey hknown, resolve_endless (hkeys ▸ hkey) (hknows ▸ hknown)]
        exact .error
      | budget + 1 =>
        rw [resolve_new budget hkey hknown, resolve_new budget (hkeys ▸ hkey) (hknows ▸ hknown)]
        have hasking : (w.asking ref key).Aligned m (v.asking ref key) := ⟨h.graph, h.source.load key⟩
        rcases h.source.results key with ⟨_, _, hs, ht⟩ | ⟨fields, fields', hs, ht, hprune⟩
        · rw [hs, ht]
          exact .error
        · rw [hs, ht]
          refine Paired.grow (Schema.build_slim (resolve_paired settings budget) _ _
            (Schema.slim_ofJson hprune) none _ _ [key] hasking) fun _ hpair h => ?_
          refine Paired.grow ?_ fun _ (_ : True) h => h.linkTo ref key
          rw [bindNew, bindNew, onGraph_apply, onGraph_apply, h.graph.knows key]
          refine Workshop.Aligned.ok ⟨?_, h.source⟩ trivial
          change Graph.Aligned _ (if _ then _ else _) (if _ then _ else _)
          split
          · exact h.graph
          · exact h.graph.bind key hpair

/-- **A document that is built** is built from any other that is pruned alike, in an aligned workshop. -/
theorem Build.root_pruned {σ τ : Type} [Source σ] [Source τ] [LawfulSource τ] {settings : Settings}
    {m : Pairing} {w w' : Workshop σ} {v : Workshop τ} (h : w.Aligned m v)
    (hstill : Source.Still v.source "") {document document' : Json}
    (hprune : document.prune .fragment = document'.prune .fragment) {name : Option String}
    {path : String} {keys : List String} {i : NodeId}
    (hroot : root settings document name path keys w = .ok i w') :
    ∃ m' j v', root settings document' name path keys v = .ok j v' ∧ m ⊆ m' ∧ m'.Pairs i j ∧
      w'.Aligned m' v' ∧ Source.Becomes v.source v'.source := by
  have hbuild := Schema.build_slim (resolve_paired settings (Source.budget w.source document)) _ _
    (Schema.slim_ofJson hprune) name path path keys h
  obtain ⟨j, v', hok, m', hm, hpair, haligned⟩ := hbuild.exists_ok hroot
  obtain ⟨hroot', hbecomes⟩ := root_redone hstill hok
  exact ⟨m', j, v', hroot', hm, hpair, haligned, hbecomes⟩

end TypeScribe
