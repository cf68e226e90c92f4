import TypeScribe.Proofs.Tracking

/-!
# Conversion follows the walk

Conversion of a whole graph goes exactly where the walk goes. `Outcome` says so of one step: beside the
step the walk gets from one state to another, and the draft tracks the walk before and after, or the
step fails and the walk tells why. Each part of conversion has its lemma, and `guardedEach_tracks` is
the result: conversion fails if the walk finds an arrow that leads back in a way that is noticed, or
if an object needs an indent and there is none, and for no other cause.
-/

namespace TypeScribe

/-- What a step of conversion does, beside a walk that goes from `w` until the stack is as given: it
succeeds, tracks the walk and leaves the pages of `kept` alone, or it fails for a cause. -/
def Outcome {α : Type} (g : Graph) (indent : Json) (guarded : Bool) (w : Walk) (kept : List NodeId)
    (d : Draft) (stack : List Frame) (post : α → Draft → Prop) :
    EStateM.Result Failure Draft α → Prop
  | .ok a d' => ∃ w', g.Reaches w w' ∧ w'.stack = stack ∧ Tracks g indent guarded d' w' ∧
      (∀ n ∈ kept, d'.page n = d.page n) ∧ post a d'
  | .error f _ => Fault g indent guarded (g.run w) f

section

variable {g : Graph} {indent : Json} {guarded : Bool} {starts : List NodeId} {w w' : Walk}
  {d d' : Draft} {kept : List NodeId} {stack stack' : List Frame} {α β : Type}

namespace Outcome

/-- What holds behind a step may be weakened. -/
theorem weaken {post post' : α → Draft → Prop} {r : EStateM.Result Failure Draft α}
    (himp : ∀ a d', post a d' → post' a d') (h : Outcome g indent guarded w kept d stack post r) :
    Outcome g indent guarded w kept d stack post' r := by
  cases r with
  | ok a d' =>
    obtain ⟨w', hr, hs, ht, hpages, hpost⟩ := h
    exact ⟨w', hr, hs, ht, hpages, himp a d' hpost⟩
  | error f d' => exact h

/-- A step that does nothing. -/
theorem done {post : α → Draft → Prop} {a : α} (ht : Tracks g indent guarded d w)
    (hs : w.stack = stack) (hpost : post a d) :
    Outcome g indent guarded w kept d stack post (.ok a d) :=
  ⟨w, Relation.ReflTransGen.refl, hs, ht, fun _ _ => rfl, hpost⟩

/-- The walk may have come some way before. -/
theorem head {post : α → Draft → Prop} {r : EStateM.Result Failure Draft α} (hr : g.Reaches w w')
    (h : Outcome g indent guarded w' kept d stack post r) :
    Outcome g indent guarded w kept d stack post r := by
  cases r with
  | ok a d' =>
    obtain ⟨v, hv, hrest⟩ := h
    exact ⟨v, hr.trans hv, hrest⟩
  | error f d' =>
    change Fault g indent guarded (g.run w) f
    rw [← hr.run_eq]
    exact h

/-- A step that leaves pages alone leaves any of them alone. -/
theorem frame {post : α → Draft → Prop} {r : EStateM.Result Failure Draft α} {kept' : List NodeId}
    (hsub : kept ⊆ kept') (h : Outcome g indent guarded w kept' d stack post r) :
    Outcome g indent guarded w kept d stack
      (fun a d' => post a d' ∧ ∀ n ∈ kept', d'.page n = d.page n) r := by
  cases r with
  | ok a d' =>
    obtain ⟨w', hr, hs, ht, hpages, hpost⟩ := h
    exact ⟨w', hr, hs, ht, fun n hn => hpages n (hsub hn), hpost, hpages⟩
  | error f d' => exact h

/-- **Steps in turn**: the second goes on where the first has come to. -/
theorem bind {m : Write α} {k : α → Write β} {post : α → Draft → Prop} {post' : β → Draft → Prop}
    (h : Outcome g indent guarded w kept d stack post (m d))
    (hk : ∀ a d' w', g.Reaches w w' → w'.stack = stack → Tracks g indent guarded d' w' →
      post a d' → Outcome g indent guarded w' kept d' stack' post' (k a d')) :
    Outcome g indent guarded w kept d stack' post' ((m >>= k) d) := by
  rw [bind_apply]
  cases hm : m d with
  | error f d' =>
    rw [hm] at h
    exact h
  | ok a d' =>
    rw [hm] at h
    obtain ⟨w', hr, hs, ht, hpages, hpost⟩ := h
    have hnext := hk a d' w' hr hs ht hpost
    change Outcome g indent guarded w kept d stack' post' (k a d')
    cases hk' : k a d' with
    | error f d'' =>
      rw [hk'] at hnext
      change Fault g indent guarded (g.run w) f
      rw [← hr.run_eq]
      exact hnext
    | ok b d'' =>
      rw [hk'] at hnext
      obtain ⟨w'', hr', hs', ht', hpages', hpost'⟩ := hnext
      exact ⟨w'', hr.trans hr', hs', ht', fun n hn => (hpages' n hn).trans (hpages n hn), hpost'⟩

end Outcome

/-! ## Following an arrow -/

/-- What the conversion of nodes does as long as at most `depth` of them are unseen: it leaves a
started node alone, and enters any other as the walk does. -/
structure Visits (g : Graph) (indent : Json) (guarded : Bool) (starts : List NodeId)
    (convert : NodeId → Write Unit) (depth : Nat) : Prop where
  skips : ∀ {d : Draft} {id : NodeId}, (d.page id).started = true → convert id d = .ok () d
  visits : ∀ {d : Draft} {w : Walk} {id : NodeId}, Tracks g indent guarded d w →
    (g.enter id w).Valid g starts → id < g.size → g.unseen w ≤ depth →
    Outcome g indent guarded (g.enter id w) w.seen d w.stack
      (fun _ d' => (d'.page id).started = true) (convert id d)

namespace Visits

variable {convert : NodeId → Write Unit} {depth : Nat} {p : NodeId} {a : Arrow} {rest : List Arrow}
  {below : List Frame}

/-- The state behind an arrow that nobody minds is tracked by the same draft. -/
theorem tracks_pass (f : Frame) (below : List Frame) (ht : Tracks g indent guarded d w)
    (hquiet : a.target ∈ w.path → ¬ Noticed g guarded a) :
    Tracks g indent guarded d (w.pass a f below) := by
  refine ht.congr rfl rfl fun b hb => ?_
  by_cases hpath : a.target ∈ w.path
  · have hb' : b ∈ w.back ++ [a] := by simpa [Walk.pass, hpath] using hb
    rcases List.mem_append.mp hb' with hb' | hb'
    · exact ht.unnoticed b hb'
    · obtain rfl : b = a := by simpa using hb'
      exact hquiet hpath
  · exact ht.unnoticed b (by simpa [Walk.pass, hpath] using hb)

/-- Conversion follows an arrow as the walk does. -/
theorem follow (h : Visits g indent guarded starts convert depth) (hb : g.Bounded)
    (hv : w.Valid g starts) (ht : Tracks g indent guarded d w)
    (hs : w.stack = ⟨p, a :: rest⟩ :: below) (hdepth : g.unseen w ≤ depth)
    (hquiet : a.target ∈ w.path → ¬ Noticed g guarded a) :
    Outcome g indent guarded w w.seen d (⟨p, rest⟩ :: below)
      (fun _ d' => (d'.page a.target).started = true) (convert a.target d) := by
  have hstep : g.advance w = g.enter a.target (w.pass a ⟨p, rest⟩ below) := Graph.advance_pass hs
  have hlt : a.target < g.size := hb p a (hv.ahead_head hs (List.mem_cons_self ..))
  have hvalid : (g.enter a.target (w.pass a ⟨p, rest⟩ below)).Valid g starts :=
    hstep ▸ hv.advance hb
  have hout := h.visits (tracks_pass ⟨p, rest⟩ below ht hquiet) hvalid hlt hdepth
  rw [← hstep] at hout
  exact hout.head (Relation.ReflTransGen.single rfl)

/-- The guard lets a text pass that is there. -/
theorem guard_ready (h : Visits g indent guarded starts convert depth) (hb : g.Bounded)
    (hv : w.Valid g starts) (ht : Tracks g indent guarded d w)
    (hs : w.stack = ⟨p, a :: rest⟩ :: below) (hdepth : g.unseen w ≤ depth)
    (hready : a.target ∈ w.path → g.isDeclared a.target = true) :
    Outcome g indent guarded w w.seen d (⟨p, rest⟩ :: below)
      (fun _ d' => (d'.page a.target).started = true ∧ ∃ t, (d'.page a.target).inline = some t)
      (g.guard guarded convert a.target d) := by
  have hquiet : a.target ∈ w.path → ¬ Noticed g guarded a := by
    rintro hpath ⟨hdecl, -⟩
    rw [hready hpath] at hdecl
    cases hdecl
  refine Outcome.bind (h.follow hb hv ht hs hdepth hquiet) ?_
  intro _ d' w' hr hs' ht' hstarted
  have hpath : w'.path = w.path := by simp [Walk.path, hs, hs']
  have hsome : ∃ t, (d'.page a.target).inline = some t := by
    refine ht'.inline_isSome (hv.reaches hb hr) ((ht'.started _).mp hstarted) ?_
    by_cases hopen : a.target ∈ w.path
    · exact Or.inl (hready hopen)
    · exact Or.inr (hpath ▸ hopen)
  obtain ⟨t, ht₁⟩ := hsome
  have hguard : (if guarded = true then Write.settled g a.target else pure ()) d' =
      .ok () d' := by
    cases guarded with
    | true => exact Write.settled_some ht₁
    | false => rfl
  rw [hguard]
  exact Outcome.done ht' hs' ⟨hstarted, t, ht₁⟩

/-- The guard stops at a text that is missing. -/
theorem guard_open (h : Visits g indent guarded starts convert depth) {id : NodeId} {node : Node}
    (hstarted : (d.page id).started = true) (hnone : (d.page id).inline = none)
    (hnode : g.node? id = some node) :
    g.guard guarded convert id d =
      if guarded = true then .error (.unnamed node.source node.path) d else .ok () d := by
  rw [Graph.guard, bind_apply, h.skips hstarted]
  cases guarded with
  | true => exact Write.settled_none hnone hnode
  | false => rfl

/-- An open node that is not declared has no text, and passing an arrow to it is an arrow back. -/
theorem open_undeclared (hv : w.Valid g starts) (ht : Tracks g indent guarded d w)
    (hs : w.stack = ⟨p, a :: rest⟩ :: below) (hopen : a.target ∈ w.path)
    (hdecl : g.isDeclared a.target = false) :
    (d.page a.target).started = true ∧ (d.page a.target).inline = none ∧
      g.advance w = w.pass a ⟨p, rest⟩ below ∧ a ∈ (g.advance w).back ∧
      ∃ node, g.node? a.target = some node := by
  have hseen : a.target ∈ w.seen := (hv.mem_seen_iff _).mpr (Or.inl hopen)
  have hstep : g.advance w = w.pass a ⟨p, rest⟩ below := by
    rw [Graph.advance_pass hs]
    exact Graph.enter_of_seen (w := w.pass a ⟨p, rest⟩ below) hseen
  refine ⟨(ht.started _).mpr hseen, ht.missing _ (hv.not_mem_closed hopen) hdecl, hstep, ?_,
    Graph.exists_node (hv.bounded _ hseen)⟩
  rw [hstep]
  simp [Walk.pass, hopen]

/-- An arrow back that is noticed makes conversion fail. -/
theorem fault_of_back {node : Node} (hback : a ∈ (g.advance w).back) (hnoticed : Noticed g guarded a)
    (hnode : g.node? a.target = some node) :
    Fault g indent guarded (g.run w) (.unnamed node.source node.path) := by
  have hfault : Fault g indent guarded (g.advance w) (.unnamed node.source node.path) :=
    .back hback hnoticed hnode
  rw [← g.run_advance w]
  exact hfault.mono (g.reaches_run _).le

/-- **A part** is converted and looked at: unless guarded, a text that is missing goes unnoticed. -/
theorem part (h : Visits g indent guarded starts convert depth) (hb : g.Bounded)
    (hv : w.Valid g starts) (ht : Tracks g indent guarded d w)
    (hs : w.stack = ⟨p, a :: rest⟩ :: below) (hdepth : g.unseen w ≤ depth)
    (href : a.byReference = false) :
    Outcome g indent guarded w w.seen d (⟨p, rest⟩ :: below)
      (fun _ d' => (d'.page a.target).started = true) (g.guard guarded convert a.target d) := by
  by_cases hready : a.target ∈ w.path → g.isDeclared a.target = true
  · exact (h.guard_ready hb hv ht hs hdepth hready).weaken fun _ _ hpost => hpost.1
  · obtain ⟨hopen, hdecl⟩ : a.target ∈ w.path ∧ g.isDeclared a.target = false := by
      simpa using hready
    obtain ⟨hstarted, hnone, hstep, hback, node, hnode⟩ := open_undeclared hv ht hs hopen hdecl
    rw [h.guard_open hstarted hnone hnode]
    cases hg : guarded with
    | true =>
      subst hg
      exact fault_of_back hback ⟨hdecl, Or.inr rfl⟩ hnode
    | false =>
      subst hg
      have hquiet : a.target ∈ w.path → ¬ Noticed g false a := by
        rintro - ⟨-, h₁ | h₁⟩
        · rw [href] at h₁
          cases h₁
        · cases h₁
      refine ⟨g.advance w, Relation.ReflTransGen.single rfl, by rw [hstep]; rfl, ?_,
        fun _ _ => rfl, hstarted⟩
      rw [hstep]
      exact tracks_pass ⟨p, rest⟩ below ht hquiet

/-- **A reference** is followed and its text taken; one that is missing is always noticed. -/
theorem link (h : Visits g indent guarded starts convert depth) (hb : g.Bounded)
    (hv : w.Valid g starts) (ht : Tracks g indent guarded d w)
    (hs : w.stack = ⟨p, a :: rest⟩ :: below) (hdepth : g.unseen w ≤ depth)
    (href : a.byReference = true) :
    Outcome g indent guarded w w.seen d (⟨p, rest⟩ :: below)
      (fun text d' => text = Layout.orNull (d'.text a.target))
      ((do
        g.guard guarded convert a.target
        match (← Write.page a.target).inline with
        | some text => return Layout.orNull text
        | none =>
          match g.node? a.target with
          | some node => throw (.unnamed node.source node.path)
          | none => throw .nodeUnknown : Write String) d) := by
  by_cases hready : a.target ∈ w.path → g.isDeclared a.target = true
  · refine Outcome.bind (h.guard_ready hb hv ht hs hdepth hready) ?_
    rintro _ d' w' - hs' ht' ⟨-, t, htext⟩
    rw [bind_apply, Write.page_apply]
    simp only [htext]
    exact Outcome.done ht' hs' (by rw [Draft.text_of_inline htext])
  · obtain ⟨hopen, hdecl⟩ : a.target ∈ w.path ∧ g.isDeclared a.target = false := by
      simpa using hready
    obtain ⟨hstarted, hnone, -, hback, node, hnode⟩ := open_undeclared hv ht hs hopen hdecl
    have hfault : Fault g indent guarded (g.run w) (.unnamed node.source node.path) :=
      fault_of_back hback ⟨hdecl, Or.inl href⟩ hnode
    rw [bind_apply, h.guard_open hstarted hnone hnode]
    cases hg : guarded with
    | true =>
      subst hg
      exact hfault
    | false =>
      subst hg
      change Outcome _ _ _ _ _ _ _ _ ((Write.page a.target >>= _) d)
      rw [bind_apply, Write.page_apply]
      simp only [hnone, hnode]
      exact hfault

/-! ## Parts of a node -/

/-- **Texts in turn.** What was read of each node is still what is written of it at the end. -/
theorem texts (h : Visits g indent guarded starts convert depth) (hb : g.Bounded)
    (ids : List NodeId) : ∀ {d : Draft} {w : Walk}, w.Valid g starts → Tracks g indent guarded d w →
    w.stack = ⟨p, (ids.map fun t => ⟨p, t, false⟩) ++ rest⟩ :: below → g.unseen w ≤ depth →
    Outcome g indent guarded w w.seen d (⟨p, rest⟩ :: below)
      (fun texts d' => texts = Spelling.texts d'.text ids ∧
        ∀ n ∈ ids, (d'.page n).started = true)
      (Write.texts (g.guard guarded convert) ids d) := by
  induction ids with
  | nil =>
    intro d w hv ht hs _
    exact Outcome.done ht hs ⟨rfl, by simp⟩
  | cons id ids ih =>
    intro d w hv ht hs hdepth
    refine Outcome.bind (h.part hb hv ht hs hdepth rfl) ?_
    intro _ d₁ w₁ hr₁ hs₁ ht₁ hstarted
    have hv₁ := hv.reaches hb hr₁
    have hid : id ∈ w₁.seen := (ht₁.started id).mp hstarted
    change Outcome g indent guarded w₁ w.seen d₁ _ _
      ((Write.texts (g.guard guarded convert) ids >>= fun more =>
        pure (if d₁.text id = "" then more else d₁.text id :: more)) d₁)
    refine Outcome.bind
      ((ih hv₁ ht₁ hs₁ ((Graph.unseen_anti hr₁.le).trans hdepth)).frame hr₁.le.seen.subset) ?_
    rintro more d₂ w₂ - hs₂ ht₂ ⟨⟨rfl, hall⟩, hpages⟩
    have hpage : d₂.page id = d₁.page id := hpages id hid
    refine Outcome.done ht₂ hs₂ ⟨?_, ?_⟩
    · have htext : d₁.text id = d₂.text id := by rw [Draft.text, Draft.text, hpage]
      rw [htext]
      by_cases hempty : d₂.text id = "" <;> simp [Spelling.texts, hempty]
    · intro n hn
      rcases List.mem_cons.mp hn with rfl | hn
      · rw [hpage]
        exact hstarted
      · exact hall n hn

/-- **Groups in turn.** -/
theorem groups (h : Visits g indent guarded starts convert depth) (hb : g.Bounded)
    (augs : List Augmentation) : ∀ {d : Draft} {w : Walk}, w.Valid g starts →
    Tracks g indent guarded d w →
    w.stack = ⟨p, ((augs.flatMap Augmentation.members).map fun t => ⟨p, t, false⟩) ++ rest⟩ :: below →
    g.unseen w ≤ depth →
    Outcome g indent guarded w w.seen d (⟨p, rest⟩ :: below)
      (fun groups d' => groups = Spelling.groups d'.text augs ∧
        ∀ a ∈ augs, ∀ n ∈ a.members, (d'.page n).started = true)
      (Write.groups (g.guard guarded convert) augs d) := by
  induction augs with
  | nil =>
    intro d w hv ht hs _
    exact Outcome.done ht hs ⟨rfl, by simp⟩
  | cons aug augs ih =>
    intro d w hv ht hs hdepth
    rw [List.flatMap_cons, List.map_append, List.append_assoc] at hs
    refine Outcome.bind (h.texts hb aug.members hv ht hs hdepth) ?_
    rintro _ d₁ w₁ hr₁ hs₁ ht₁ ⟨rfl, hstarted⟩
    have hv₁ := hv.reaches hb hr₁
    refine Outcome.bind
      ((ih hv₁ ht₁ hs₁ ((Graph.unseen_anti hr₁.le).trans hdepth)).frame hr₁.le.seen.subset) ?_
    rintro _ d₂ w₂ - hs₂ ht₂ ⟨⟨rfl, hall⟩, hpages⟩
    have hpage : ∀ n ∈ aug.members, d₂.page n = d₁.page n :=
      fun n hn => hpages n ((ht₁.started n).mp (hstarted n hn))
    have htexts : Spelling.texts d₁.text aug.members = Spelling.texts d₂.text aug.members :=
      Spelling.texts_congr fun n hn => by rw [Draft.text, Draft.text, hpage n hn]
    refine Outcome.done ht₂ hs₂ ⟨?_, ?_⟩
    · rw [htexts]
      cases hempty : (Spelling.texts d₂.text aug.members).isEmpty <;>
        simp [Spelling.groups, Spelling.group, hempty]
    · intro a ha n hn
      rcases List.mem_cons.mp ha with rfl | ha
      · rw [hpage n hn]
        exact hstarted n hn
      · exact hall a ha n hn

/-- **Fields in turn.** -/
theorem fields (h : Visits g indent guarded starts convert depth) (hb : g.Bounded)
    (fs : List Field) : ∀ {d : Draft} {w : Walk}, w.Valid g starts → Tracks g indent guarded d w →
    w.stack = ⟨p, ((fs.map Field.type).map fun t => ⟨p, t, false⟩) ++ rest⟩ :: below →
    g.unseen w ≤ depth →
    Outcome g indent guarded w w.seen d (⟨p, rest⟩ :: below)
      (fun fields d' => fields = Spelling.fields d'.text fs)
      (Write.fields (g.guard guarded convert) fs d) := by
  induction fs with
  | nil =>
    intro d w hv ht hs _
    exact Outcome.done ht hs rfl
  | cons f fs ih =>
    intro d w hv ht hs hdepth
    refine Outcome.bind (h.part hb hv ht hs hdepth rfl) ?_
    intro _ d₁ w₁ hr₁ hs₁ ht₁ hstarted
    have hv₁ := hv.reaches hb hr₁
    change Outcome g indent guarded w₁ w.seen d₁ _ _
      ((Write.fields (g.guard guarded convert) fs >>= fun more =>
        pure (⟨f.name, Layout.orNull (d₁.text f.type), f.required⟩ :: more)) d₁)
    refine Outcome.bind
      ((ih hv₁ ht₁ hs₁ ((Graph.unseen_anti hr₁.le).trans hdepth)).frame hr₁.le.seen.subset) ?_
    rintro _ d₂ w₂ - hs₂ ht₂ ⟨rfl, hpages⟩
    refine Outcome.done ht₂ hs₂ ?_
    have hpage : d₂.page f.type = d₁.page f.type := hpages _ ((ht₁.started _).mp hstarted)
    have htext : d₁.text f.type = d₂.text f.type := by rw [Draft.text, Draft.text, hpage]
    rw [htext]
    rfl

/-- **Expressions.** The shape of the innermost node is spelled when its arrows are behind it. -/
theorem expression (h : Visits g indent guarded starts convert depth) (hb : g.Bounded)
    {node : Node} (hnode : g.node? p = some node) (hc : g.Complete node) (hv : w.Valid g starts)
    (ht : Tracks g indent guarded d w) (hs : w.stack = ⟨p, g.shapeArrows p node.shape⟩ :: below)
    (hdepth : g.unseen w ≤ depth) {aug : String} (haug : aug = Spelling.augmentation d.text node) :
    Outcome g indent guarded w w.seen d (⟨p, []⟩ :: below)
      (fun e d' => e = Spelling.expression d'.text g (.orBlank indent) node ∧
        ∀ fields, node.shape = .object fields → fields ≠ [] → ∃ i, Indent.ofJson indent = .ok i)
      (Write.expression (g.guard guarded convert) g indent node aug d) := by
  cases hshape : node.shape with
  | scalar s =>
    rw [hshape] at hs
    simp only [Write.expression, Spelling.expression, hshape]
    exact Outcome.done ht hs ⟨rfl, by simp⟩
  | composite =>
    rw [hshape] at hs
    simp only [Write.expression, Spelling.expression, hshape]
    exact Outcome.done ht hs ⟨haug, by simp⟩
  | choice alternatives =>
    rw [hshape] at hs
    simp only [Write.expression, Spelling.expression, hshape]
    refine Outcome.bind
      (h.texts hb alternatives hv ht (by rw [List.append_nil]; exact hs) hdepth) ?_
    rintro _ d₁ w₁ - hs₁ ht₁ ⟨rfl, -⟩
    exact Outcome.done ht₁ hs₁ ⟨rfl, by simp⟩
  | array item =>
    cases item with
    | none => exact absurd hshape hc.item
    | some item =>
      rw [hshape] at hs
      simp only [Write.expression, Spelling.expression, hshape]
      refine Outcome.bind (h.part hb hv ht hs hdepth rfl) ?_
      intro _ d₁ w₁ _ hs₁ ht₁ _
      exact Outcome.done ht₁ hs₁ ⟨rfl, by simp⟩
  | object fs =>
    rw [hshape] at hs
    simp only [Write.expression, Spelling.expression, hshape]
    refine Outcome.bind
      (h.fields hb fs hv ht (by rw [List.append_nil]; exact hs) hdepth) ?_
    rintro _ d₁ w₁ hr₁ hs₁ ht₁ rfl
    cases fs with
    | nil => exact Outcome.done ht₁ hs₁ ⟨rfl, by simp⟩
    | cons f fs =>
      cases hindent : Indent.ofJson indent with
      | ok i =>
        have hblank : Indent.orBlank indent = i := by rw [Indent.orBlank, hindent]
        simp only [Layout.objectTypeUnder, hindent]
        exact Outcome.done ht₁ hs₁ ⟨by rw [hblank], fun _ _ _ => ⟨i, rfl⟩⟩
      | error fault =>
        have hp : p ∈ (g.run w₁).seen :=
          (g.reaches_run w₁).le.seen.subset (hr₁.le.seen.subset (hv.head_seen hs))
        simp only [Layout.objectTypeUnder, hindent]
        exact Fault.indent hindent hp hnode hshape (by simp)
  | reference ref key =>
    obtain ⟨t, hfind, -⟩ := hc.target ref key hshape
    rw [hshape, Graph.shapeArrows, hfind] at hs
    simp only [Write.expression, Spelling.expression, hshape, hfind]
    refine (h.link hb hv ht hs hdepth rfl).weaken ?_
    rintro _ d' rfl
    exact ⟨rfl, by simp⟩

/-- **The body of a node**: when its arrows are behind it, the node is finished and closed. -/
theorem body (h : Visits g indent guarded starts convert depth) (hb : g.Bounded)
    {node : Node} (hnode : g.node? p = some node) (hc : g.Complete node) (hv : w.Valid g starts)
    (ht : Tracks g indent guarded d w) (hs : w.stack = ⟨p, g.arrows p⟩ :: below)
    (hkept : kept ⊆ w.seen) (hp : p ∉ kept) (hdepth : g.unseen w ≤ depth) :
    Outcome g indent guarded w kept d below (fun _ d' => (d'.page p).started = true)
      (Write.body (g.guard guarded convert) g indent p node d) := by
  rw [Graph.arrows_of_node hnode, hc.members_eq] at hs
  refine Outcome.bind ((h.groups hb node.augmentations hv ht hs hdepth).frame hkept) ?_
  rintro _ d₁ w₁ hr₁ hs₁ ht₁ ⟨⟨rfl, hstarted⟩, -⟩
  have hv₁ := hv.reaches hb hr₁
  have hkept₁ : kept ⊆ w₁.seen := fun n hn => hr₁.le.seen.subset (hkept hn)
  refine Outcome.bind ((h.expression hb hnode hc hv₁ ht₁ hs₁
    ((Graph.unseen_anti hr₁.le).trans hdepth) rfl).frame hkept₁) ?_
  rintro _ d₂ w₂ hr₂ hs₂ ht₂ ⟨⟨rfl, hindent⟩, hpages⟩
  have hv₂ := hv₁.reaches hb hr₂
  have haug : Spelling.augmentation d₁.text node = Spelling.augmentation d₂.text node := by
    refine Spelling.augmentation_congr fun n hn => ?_
    obtain ⟨a, ha, hn⟩ := Node.mem_members.mp hn
    rw [Draft.text, Draft.text, hpages n ((ht₁.started n).mp (hstarted a ha n hn))]
  have hclosed := ht₂.finished hv₂ hnode hs₂ rfl haug hindent
  rw [Write.finish_apply]
  refine ⟨_, Relation.ReflTransGen.single (Graph.advance_close hs₂), rfl, hclosed, ?_, ?_⟩
  · intro n hn
    refine Draft.page_finished_ne d₂ node _ _ ?_
    rintro rfl
    exact hp hn
  · exact (hclosed.started p).mpr (hv₂.head_seen hs₂)

end Visits

/-! ## Whole conversions -/

namespace Graph

theorem guardedWithin_started {depth : Nat} {id : NodeId} (h : (d.page id).started = true) :
    g.guardedWithin indent guarded depth id d = .ok () d := by
  cases depth with
  | zero => rfl
  | succ depth =>
    rw [guardedWithin, bind_apply, Write.page_apply]
    simp only [h]
    rfl

theorem guardedWithin_new {depth : Nat} {id : NodeId} {node : Node}
    (h : ¬ (d.page id).started = true) (hnode : g.node? id = some node) :
    g.guardedWithin indent guarded (depth + 1) id d =
      (Write.start id node >>= fun _ =>
        Write.body (g.guard guarded (g.guardedWithin indent guarded depth)) g indent id node) d := by
  rw [guardedWithin, bind_apply, Write.page_apply]
  simp only [h, hnode]
  rfl

/-- When nothing is unseen, every node is seen. -/
theorem mem_seen_of_unseen {id : NodeId} (h : g.unseen w ≤ 0) (hlt : id < g.size) : id ∈ w.seen := by
  have hempty : Finset.range g.size \ w.seen.toFinset = ∅ :=
    Finset.card_eq_zero.mp (Nat.le_zero.mp h)
  by_contra hnot
  have hmem : id ∈ Finset.range g.size \ w.seen.toFinset := by simp [hlt, hnot]
  rw [hempty] at hmem
  cases hmem

/-- **Conversion enters nodes as the walk does**, by induction on the depth. A node entered is one
node less that is unseen, so the depth does not run out before the nodes do. -/
theorem guardedWithin_visits (hw : g.Whole) (depth : Nat) :
    Visits g indent guarded starts (g.guardedWithin indent guarded depth) depth := by
  induction depth with
  | zero =>
    refine ⟨fun _ => rfl, ?_⟩
    intro d w id ht _ hlt hdepth
    have hid : id ∈ w.seen := mem_seen_of_unseen hdepth hlt
    rw [enter_of_seen hid]
    exact Outcome.done ht rfl ((ht.started id).mpr hid)
  | succ depth ih =>
    refine ⟨guardedWithin_started, ?_⟩
    intro d w id ht hv hlt hdepth
    by_cases hid : id ∈ w.seen
    · have hstarted : (d.page id).started = true := (ht.started id).mpr hid
      rw [enter_of_seen hid, guardedWithin_started hstarted]
      exact Outcome.done ht rfl hstarted
    · obtain ⟨node, hnode⟩ := exists_node hlt
      have hnew : ¬ (d.page id).started = true := fun hstarted => hid ((ht.started id).mp hstarted)
      rw [enter_of_unseen hid hlt] at hv ⊢
      rw [guardedWithin_new hnew hnode]
      have hclosed : w.closed ⊆ w.seen := by
        intro n hn
        have hn' := (hv.mem_seen_iff n).mpr (Or.inr hn)
        rcases List.mem_append.mp hn' with hn' | hn'
        · exact hn'
        · obtain rfl : n = id := by simpa using hn'
          exact absurd hn (hv.not_mem_closed (by simp [Walk.path]))
      have hstart : Outcome g indent guarded
          { w with seen := w.seen ++ [id], stack := ⟨id, g.arrows id⟩ :: w.stack } w.seen d
          (⟨id, g.arrows id⟩ :: w.stack) (fun _ _ => True) (Write.start id node d) := by
        rw [Write.start_apply]
        refine ⟨_, Relation.ReflTransGen.refl, rfl, ht.begun hclosed hnode hid rfl rfl rfl, ?_, trivial⟩
        intro n hn
        refine Draft.page_begun_ne d node ?_
        rintro rfl
        exact hid hn
      refine Outcome.bind hstart ?_
      intro _ d₁ w₁ hr hs₁ ht₁ _
      have hunseen : g.unseen w₁ ≤ depth := by
        have hlater := unseen_anti (g := g) hr.le
        have hfewer : g.unseen { w with seen := w.seen ++ [id], stack := ⟨id, g.arrows id⟩ :: w.stack } <
            g.unseen w := unseen_lt hid hlt rfl
        omega
      refine ih.body hw.bounded hnode (hw id node hnode) (hv.reaches hw.bounded hr) ht₁ hs₁ ?_ hid
        hunseen
      intro n hn
      exact hr.le.seen.subset (List.mem_append_left _ hn)

/-- A draft on which nothing is written tracks a walk that has not begun. -/
theorem tracks_blank : Tracks g indent guarded {} {} where
  started n := by simp [Draft.page]
  emission := rfl
  named n hn := by simp at hn
  missing n _ _ := by simp [Draft.page]
  spelled l₁ n l₂ hsplit := by simp at hsplit
  unnoticed a ha := by simp at ha

/-- Conversion in turn, beside a walk that has come some way. The pages of the nodes seen so far stay. -/
theorem guardedEach_follows (hw : g.Whole) (ids : List NodeId) : ∀ {d : Draft} {w : Walk},
    w.Valid g starts → w.stack = [] → Tracks g indent guarded d w → ids ⊆ starts →
    (∀ id ∈ ids, id < g.size) →
    match g.guardedEach indent guarded ids d with
    | .ok _ d' =>
      Tracks g indent guarded d' (ids.foldl (fun w id => g.run (g.enter id w)) w) ∧
        ∀ n ∈ w.seen, d'.page n = d.page n
    | .error f _ => Fault g indent guarded (ids.foldl (fun w id => g.run (g.enter id w)) w) f := by
  induction ids with
  | nil =>
    intro d w _ _ ht _ _
    exact ⟨ht, fun _ _ => rfl⟩
  | cons id ids ih =>
    intro d w hv hs ht hsub hlt
    have hvisits : Visits g indent guarded starts (g.guardedWithin indent guarded g.size) g.size :=
      guardedWithin_visits hw g.size
    have henter := valid_enter hv hs (hsub (List.mem_cons_self ..))
    have hout := hvisits.visits ht henter (hlt id (List.mem_cons_self ..)) (unseen_le_size g w)
    rw [guardedEach, bind_apply, List.foldl_cons]
    cases hres : g.guardedWithin indent guarded g.size id d with
    | error f d' =>
      rw [hres] at hout
      exact Fault.mono (le_foldl ids) hout
    | ok u d' =>
      rw [hres] at hout
      obtain ⟨w', hr, hs', ht', hpages, -⟩ := hout
      have hrun : g.run (g.enter id w) = w' := hr.run_of_nil (hs'.trans hs)
      have hseen : w.seen ⊆ w'.seen := ((le_enter g id w).trans hr.le).seen.subset
      rw [hrun]
      have hrest := ih (henter.reaches hw.bounded hr) (hs'.trans hs) ht'
        (fun n hn => hsub (List.mem_cons_of_mem _ hn)) (fun n hn => hlt n (List.mem_cons_of_mem _ hn))
      change match g.guardedEach indent guarded ids d' with
        | .ok _ d' => _
        | .error f _ => _
      cases hrest' : g.guardedEach indent guarded ids d' with
      | error f d'' =>
        rw [hrest'] at hrest
        exact hrest
      | ok u d'' =>
        rw [hrest'] at hrest
        exact ⟨hrest.1, fun n hn => (hrest.2 n (hseen hn)).trans (hpages n hn)⟩

/-- **Conversion follows the walk.** Converting nodes in turn succeeds with a draft that tracks the
whole walk, or fails for a cause that the walk shows. -/
theorem guardedEach_tracks (hw : g.Whole) {ids : List NodeId} (hlt : ∀ id ∈ ids, id < g.size)
    (indent : Json) (guarded : Bool) :
    match g.guardedEach indent guarded ids {} with
    | .ok _ d => Tracks g indent guarded d (g.walk ids)
    | .error f _ => Fault g indent guarded (g.walk ids) f := by
  have hblank : Tracks g indent guarded {} {} := tracks_blank
  have hfollows := guardedEach_follows hw ids Walk.Valid.blank rfl hblank (List.Subset.refl _) hlt
  cases hres : g.guardedEach indent guarded ids {} with
  | error f d =>
    rw [hres] at hfollows
    exact hfollows
  | ok u d =>
    rw [hres] at hfollows
    exact hfollows.1

end Graph

end

end TypeScribe
