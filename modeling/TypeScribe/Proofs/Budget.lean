import TypeScribe.Proofs.Loading

/-!
# A construction never wants for budget

A document may be found under the empty text, which is no key: while such a document is being built, a
reference to it loads it once more. Whether that ever ends does not depend on the budget. A construction
that succeeds with some budget succeeds in the same way with the budget that its documents call for
(`Build.root_redone`).

* **Hollow references** lead to the empty text. If one of them stands in the document of the empty text
  outside of every fragment with an id, no construction that comes upon a hollow reference ends
  (`Build.hollow_calm`): the document is loaded again and again, and always gets to that reference.
* Otherwise the document is loaded inside itself only from within a fragment with an id, and that id was not
  known when it was loaded before. So between two loads of it some key becomes known, and the keys are
  counted (`Graph.unentered`).
-/

namespace TypeScribe

/-! ## Successes -/

/-- A result is **redone** by another: if the first is a success, so is the second, with the same value and
state. The success shows something, and the state is good. -/
def Redone {ε S α : Type} (good : S → Prop) (shown : Prop) (r q : EStateM.Result ε S α) : Prop :=
  ∀ a s, r = .ok a s → q = .ok a s ∧ good s ∧ shown

namespace Redone

variable {ε S α β : Type} {good : S → Prop} {shown shown' : Prop} {m n : EStateM ε S α}
  {k l : α → EStateM ε S β} {s : S}

/-- A step is redone with the other budget as far as both of its parts are, and what either shows is
shown. -/
theorem bind (h : Redone good shown (m s) (n s))
    (hrest : ∀ a s, good s → Redone good shown' (k a s) (l a s)) :
    Redone good (shown ∧ shown') ((m >>= k) s) ((n >>= l) s) := by
  intro b s'' hok
  obtain ⟨a, s', hm, hk⟩ := ok_of_bind hok
  obtain ⟨hn, hs', hshown⟩ := h a s' hm
  obtain ⟨hl, hs'', hshown'⟩ := hrest a s' hs' b s'' hk
  rw [bind_ok _ hn]
  exact ⟨hl, hs'', hshown, hshown'⟩

/-- What follows need not show anything. -/
theorem andThen (h : Redone good shown (m s) (n s))
    (hrest : ∀ a s, good s → Redone good True (k a s) (l a s)) :
    Redone good shown ((m >>= k) s) ((n >>= l) s) := by
  intro b s'' hok
  obtain ⟨hq, hs, hshown, -⟩ := h.bind hrest b s'' hok
  exact ⟨hq, hs, hshown⟩

theorem mono {good' : S → Prop} {r q : EStateM.Result ε S α} (h : Redone good shown r q)
    (hgood : ∀ s, good s → good' s) : Redone good' shown r q := by
  intro a s hok
  obtain ⟨hq, hs, hshown⟩ := h a s hok
  exact ⟨hq, hgood s hs, hshown⟩

theorem imp {r q : EStateM.Result ε S α} (h : Redone good shown r q) (himp : shown → shown') :
    Redone good shown' r q := by
  intro a s hok
  obtain ⟨hq, hs, hshown⟩ := h a s hok
  exact ⟨hq, hs, himp hshown⟩

theorem ok {a : α} (h : good s) (hshown : shown) :
    Redone good shown (.ok a s : EStateM.Result ε S α) (.ok a s) := by
  rintro _ _ ⟨⟩
  exact ⟨rfl, h, hshown⟩

theorem error {e : ε} {q : EStateM.Result ε S α} : Redone good shown (.error e s) q := by
  rintro _ _ ⟨⟩

end Redone

/-! ## Open schemas -/

/-- **Open schemas**: outside of the fragments that are guarded, all references are of a kind. -/
inductive Schema.Open (refers : String → Prop) (guard : Schema → Prop) : Schema → Prop where
  | guarded {s : Schema} (guarded : guard s) : Schema.Open refers guard s
  | unsupported (facts : Facts) : Schema.Open refers guard (.unsupported facts)
  | fragment {facts : Facts} {body : Body} {groups : List Group}
      (own : ∀ ref, body = .reference (some ref) → refers ref)
      (parts : ∀ s ∈ body.parts, Schema.Open refers guard s)
      (members : ∀ group ∈ groups, ∀ s ∈ group.parts, Schema.Open refers guard s) :
      Schema.Open refers guard (.fragment facts body groups)

/-- A schema with an id. -/
def Schema.HasId (s : Schema) : Prop := s.facts.id ≠ none

/-- What is true of all fragments makes a schema open. -/
theorem Schema.Every.toOpen {P : Facts → Body → List Group → Prop} {refers : String → Prop}
    {guard : Schema → Prop} {s : Schema} (h : s.Every P)
    (hP : ∀ facts body groups, P facts body groups → ∀ ref, body = .reference (some ref) → refers ref) :
    s.Open refers guard := by
  induction h with
  | unsupported facts => exact .unsupported facts
  | fragment own _ _ parts members => exact .fragment (hP _ _ _ own) parts members

/-- A schema that is open in two ways. -/
theorem Schema.Open.and_every {P : Facts → Body → List Group → Prop} {refers refers' : String → Prop}
    {guard : Schema → Prop} {s : Schema} (h : s.Open refers guard) (hs : s.Every P)
    (hP : ∀ facts body groups, P facts body groups → ∀ ref, body = .reference (some ref) → refers' ref) :
    s.Open (fun ref => refers ref ∧ refers' ref) fun s => guard s ∧ s.Every P := by
  induction h with
  | guarded hguard => exact .guarded ⟨hguard, hs⟩
  | unsupported facts => exact .unsupported facts
  | fragment own _ _ parts members =>
    cases hs with
    | fragment hown hparts hmembers =>
      refine .fragment (fun ref hbody => ⟨own ref hbody, hP _ _ _ hown ref hbody⟩) ?_ ?_
      · exact fun s hs => parts s hs (hparts s hs)
      · exact fun group hgroup s hs => members group hgroup s hs (hmembers group hgroup s hs)

/-! ## Building what succeeds -/

section

variable {σ : Type} {good : Workshop σ → Prop} {link link' : String → Build σ Link}
  {refers proper : String → Prop} {guard : Schema → Prop}

/-- **What is known of two ways to resolve references**: from a good state the second redoes the first, which
shows that the reference is proper. What is guarded has an id, and is known to be redone. -/
structure Redoing (good : Workshop σ → Prop) (refers proper : String → Prop) (guard : Schema → Prop)
    (link link' : String → Build σ Link) : Prop where
  enter : ∀ {w : Workshop σ} (node : Node) (path : String) (keys : List String), good w →
    good (w.enter node path keys)
  adjust : ∀ {w : Workshop σ} (id : NodeId) (f : Node → Node), good w → good (w.adjust id f)
  links : ∀ ref, refers ref → ∀ {w : Workshop σ}, good w →
    Redone good (proper ref) (link ref w) (link' ref w)
  guarded : ∀ s, guard s → s.HasId ∧ ∀ (name : Option String) (path : String) (keys : List String)
    {w : Workshop σ}, good w →
    Redone good True (s.build link name path keys w) (s.build link' name path keys w)

namespace Redoing

variable {w : Workshop σ}

/-- A change to the graph depends on no budget. -/
theorem changed (h : Redoing good refers proper guard link link') (id : NodeId) (f : Node → Node)
    (hw : good w) :
    Redone good True (Build.onGraph (·.adjust id f) w) (Build.onGraph (·.adjust id f) w) := by
  rw [Build.onGraph_apply]
  exact .ok (h.adjust id f hw) trivial

/-- Filling a node is redone if building its parts and its members is. -/
theorem fill (h : Redoing good refers proper guard link link') {facts : Facts} {body : Body}
    {groups : List Group} {name : Option String} {path : String} {id : NodeId} {shown shown' : Prop}
    (hbody : ∀ {w : Workshop σ}, good w → Redone good shown (body.build link id facts name path w)
      (body.build link' id facts name path w))
    (hgroups : ∀ {w : Workshop σ}, good w → Redone good shown' (Group.buildAll link groups facts path w)
      (Group.buildAll link' groups facts path w))
    (hw : good w) :
    Redone good (shown ∧ shown') (Schema.fill link facts body groups name path id w)
      (Schema.fill link' facts body groups name path id w) := by
  refine Redone.bind (hbody hw) fun _ w₁ h₁ => ?_
  refine Redone.andThen (hgroups h₁) fun augmentations w₂ h₂ => ?_
  exact Redone.andThen (h.changed id _ h₂) fun _ w₃ h₃ => .ok h₃ trivial

end Redoing

mutual

/-- **Building what succeeds**: whatever the first way to resolve references builds, the second builds too.
The success shows that the references outside of fragments with an id are proper. -/
theorem Schema.build_redone (h : Redoing good refers proper guard link link') (s : Schema)
    (hs : s.Open refers guard) (name : Option String) (path : String) (keys : List String)
    {w : Workshop σ} (hw : good w) :
    Redone good (s.Open proper Schema.HasId) (s.build link name path keys w)
      (s.build link' name path keys w) := by
  match s, hs with
  | s, .guarded hguard =>
    obtain ⟨hid, hredone⟩ := h.guarded s hguard
    exact (hredone name path keys hw).imp fun _ => .guarded hid
  | .unsupported facts, .unsupported _ =>
    cases hknown : facts.id.bind w.graph.find? with
    | some id =>
      rw [Schema.build_known (.unsupported facts) hknown, Schema.build_known (.unsupported facts) hknown]
      exact .ok hw (.unsupported facts)
    | none =>
      rw [Schema.build_unsupported hknown]
      exact .error
  | .fragment facts body groups, .fragment hown hparts hmembers =>
    cases hknown : facts.id.bind w.graph.find? with
    | some id =>
      rw [Schema.build_known (.fragment facts body groups) hknown,
        Schema.build_known (.fragment facts body groups) hknown]
      refine .ok hw (.guarded ?_)
      intro hnone
      rw [show facts.id = none from hnone] at hknown
      cases hknown
    | none =>
      rw [Schema.build_new hknown, Schema.build_new hknown]
      refine (h.fill (fun hw => Body.build_redone h body hown hparts _ facts name path hw)
        (fun hw => Group.buildAll_redone h groups hmembers facts path hw)
        (h.enter _ path _ hw)).imp ?_
      rintro ⟨⟨hown', hparts'⟩, hmembers'⟩
      exact .fragment hown' hparts' hmembers'

/-- A body is redone with the other budget if its own reference and its parts are. -/
theorem Body.build_redone (h : Redoing good refers proper guard link link') (body : Body)
    (hown : ∀ ref, body = .reference (some ref) → refers ref)
    (hparts : ∀ s ∈ body.parts, s.Open refers guard) (id : NodeId) (facts : Facts)
    (name : Option String) (path : String) {w : Workshop σ} (hw : good w) :
    Redone good ((∀ ref, body = .reference (some ref) → proper ref) ∧
        ∀ s ∈ body.parts, s.Open proper Schema.HasId)
      (body.build link id facts name path w) (body.build link' id facts name path w) := by
  match body with
  | .scalar s => exact .ok hw ⟨by simp, by simp [Body.parts]⟩
  | .composite => exact .ok hw ⟨by simp, by simp [Body.parts]⟩
  | .broken defect => exact .error
  | .reference none => exact .error
  | .choice alternatives =>
    refine (Redone.andThen (Schema.buildAll_redone h alternatives hparts _ _ hw)
      fun ids w hw => h.changed id _ hw).imp fun hopen => ?_
    exact ⟨by simp, hopen⟩
  | .array items =>
    have hitems := hparts items (List.mem_singleton_self items)
    refine (Redone.andThen (Schema.build_redone h items hitems name _ [] hw)
      fun item w hw => h.changed id _ hw).imp fun hopen => ?_
    exact ⟨by simp, by simpa [Body.parts] using hopen⟩
  | .object required properties =>
    refine (Body.buildFields_redone h properties ?_ required id path hw).imp fun hopen => ?_
    · exact fun p hp => hparts p.2 (List.mem_map.mpr ⟨p, hp, rfl⟩)
    · refine ⟨by simp, ?_⟩
      intro s hs
      obtain ⟨p, hp, rfl⟩ := List.mem_map.mp hs
      exact hopen p hp
  | .reference (some ref) =>
    refine (Redone.andThen (h.links ref (hown ref rfl) hw) fun l w hw => h.changed id _ hw).imp
      fun hproper => ?_
    refine ⟨?_, by simp [Body.parts]⟩
    rintro _ ⟨⟩
    exact hproper

theorem Body.buildFields_redone (h : Redoing good refers proper guard link link')
    (properties : List (String × Schema)) (hp : ∀ p ∈ properties, p.2.Open refers guard)
    (required : List String) (id : NodeId) (path : String) {w : Workshop σ} (hw : good w) :
    Redone good (∀ p ∈ properties, p.2.Open proper Schema.HasId)
      (Body.buildFields link required properties id path w)
      (Body.buildFields link' required properties id path w) := by
  match properties with
  | [] => exact .ok hw (by simp)
  | (name, schema) :: rest =>
    have hschema := hp (name, schema) (List.mem_cons_self ..)
    refine (Redone.bind (Schema.build_redone h schema hschema _ _ [] hw) fun type w hw =>
      Redone.bind (h.changed id _ hw) fun _ w hw => Body.buildFields_redone h rest
        (fun p hmem => hp p (List.mem_cons_of_mem _ hmem)) required id path hw).imp ?_
    rintro ⟨hfirst, -, hrest⟩
    exact List.forall_mem_cons.mpr ⟨hfirst, hrest⟩

theorem Schema.buildAll_redone (h : Redoing good refers proper guard link link')
    (schemas : List Schema) (hs : ∀ s ∈ schemas, s.Open refers guard) (path : String) (index : Nat)
    {w : Workshop σ} (hw : good w) :
    Redone good (∀ s ∈ schemas, s.Open proper Schema.HasId) (Schema.buildAll link schemas path index w)
      (Schema.buildAll link' schemas path index w) := by
  match schemas with
  | [] => exact .ok hw (by simp)
  | schema :: rest =>
    have hschema := hs schema (List.mem_cons_self ..)
    refine (Redone.bind (Schema.build_redone h schema hschema none _ [] hw) fun id w hw =>
      Redone.andThen (Schema.buildAll_redone h rest (fun s hmem => hs s (List.mem_cons_of_mem _ hmem)) path
        (index + 1) hw) fun ids w hw => .ok hw trivial).imp ?_
    exact List.forall_mem_cons.mpr

theorem Group.buildAll_redone (h : Redoing good refers proper guard link link') (groups : List Group)
    (hg : ∀ group ∈ groups, ∀ s ∈ group.parts, s.Open refers guard) (facts : Facts) (path : String)
    {w : Workshop σ} (hw : good w) :
    Redone good (∀ group ∈ groups, ∀ s ∈ group.parts, s.Open proper Schema.HasId)
      (Group.buildAll link groups facts path w) (Group.buildAll link' groups facts path w) := by
  match groups with
  | [] => exact .ok hw (by simp)
  | .malformed keyword :: _ => exact .error
  | .members keyword schemas :: rest =>
    have hschemas := hg (.members keyword schemas) (List.mem_cons_self ..)
    refine (Redone.bind (Schema.buildAll_redone h schemas hschemas _ _ hw) fun members w hw =>
      Redone.andThen (Group.buildAll_redone h rest
        (fun group hmem => hg group (List.mem_cons_of_mem _ hmem)) facts path hw)
        fun more w hw => .ok hw trivial).imp ?_
    rintro ⟨hfirst, hrest⟩
    exact List.forall_mem_cons.mpr ⟨hfirst, hrest⟩

end

end

/-! ## Hollow references -/

/-- **Hollow references** lead to the empty text. -/
def Settings.Hollow (settings : Settings) (ref : String) : Prop := settings.locate ref = .ok ""

/-- No path is written as the empty text. -/
theorem Files.Path.toText_ne (path : Files.Path) : path.toText ≠ "" := by
  rw [toText]
  split
  · decide
  · assumption

/-- Only the empty text is a hollow reference. -/
theorem Settings.Hollow.eq {settings : Settings} {ref : String} (h : settings.Hollow ref) : ref = "" := by
  rw [Hollow, locate] at h
  split at h
  · exact Except.ok.inj h
  · split at h
    · exact absurd (Except.ok.inj h) (Files.Path.toText_ne _)
    · cases h

section

variable {σ : Type}

/-- A workshop whose graph knows a key: a key that stands for nothing is bound to a node. -/
def Workshop.bound (w : Workshop σ) (key : String) (id : NodeId) : Workshop σ :=
  w.update (if w.graph.knows key then w.graph else w.graph.bind key id) []

/-- The keys known after a node is entered are the old ones and its own. -/
theorem Workshop.knows_enter (w : Workshop σ) (node : Node) (path : String) (keys : List String)
    (key : String) :
    (w.enter node path keys).graph.knows key = true ↔
      (key ≠ "" ∧ key ∈ keys) ∨ w.graph.knows key = true :=
  Graph.knows_bindAll ..

theorem Workshop.knows_bound (w : Workshop σ) (key : String) (id : NodeId) (k : String) :
    (w.bound key id).graph.knows k = true ↔ k = key ∨ w.graph.knows k = true := by
  change (if w.graph.knows key = true then w.graph else w.graph.bind key id).knows k = true ↔ _
  split
  · rename_i hknown
    constructor
    · exact Or.inr
    · rintro (rfl | hk)
      · exact hknown
      · exact hk
  · exact Graph.knows_bind ..

variable [Source σ] {settings : Settings} {budget : Nat} {ref : String} {w w' : Workshop σ} {l : Link}

/-- **What a reference that is resolved has gone through**: its key is known and can be linked to; or its
document is loaded and built, with one unit of budget less, and then it can be linked to. -/
theorem Build.resolve_ok (h : resolve settings budget ref w = .ok l w') :
    ∃ key, w.graph.keyOf settings ref = .ok key ∧
      ((w.graph.knows key = true ∧ w' = w ∧ linkTo ref key w = .ok l w) ∨
        (w.graph.knows key = false ∧ ∃ less fields id w₁, budget = less + 1 ∧
          (Source.load w.source key).result = .ok fields ∧
          (Schema.ofJson (.obj fields)).build (resolve settings less) none (key ++ "#") [key]
            (w.asking ref key) = .ok id w₁ ∧
          w' = w₁.bound key id ∧ linkTo ref key (w₁.bound key id) = .ok l (w₁.bound key id))) := by
  cases hkey : w.graph.keyOf settings ref with
  | error failure =>
    rw [resolve_failed budget hkey] at h
    cases h
  | ok key =>
    refine ⟨key, rfl, ?_⟩
    cases hknown : w.graph.knows key with
    | true =>
      rw [resolve_known budget hkey hknown] at h
      obtain ⟨rfl, -⟩ := linkTo_ok h
      exact Or.inl ⟨rfl, rfl, h⟩
    | false =>
      refine Or.inr ⟨rfl, ?_⟩
      match budget with
      | 0 =>
        rw [resolve_endless hkey hknown] at h
        cases h
      | less + 1 =>
        rw [resolve_new less hkey hknown] at h
        cases hload : (Source.load w.source key).result with
        | error fault =>
          rw [hload] at h
          cases h
        | ok fields =>
          rw [hload] at h
          obtain ⟨id, w₁, hbuild, h⟩ := ok_of_bind h
          obtain ⟨_, w₂, hbound, hlink⟩ := ok_of_bind h
          rw [bindNew, onGraph_apply] at hbound
          obtain ⟨-, rfl⟩ := EStateM.Result.ok.inj hbound
          obtain ⟨rfl, -⟩ := linkTo_ok hlink
          exact ⟨less, fields, id, w₁, rfl, rfl, hbuild, rfl, hlink⟩

/-- A document that is built under its key, which can be linked to then, resolves the reference. -/
theorem Build.resolve_document {key : String} {fields : Entries Json} {id : NodeId} {w₁ : Workshop σ}
    (hkey : w.graph.keyOf settings ref = .ok key) (hnew : w.graph.knows key = false)
    (hload : (Source.load w.source key).result = .ok fields)
    (hbuild : (Schema.ofJson (.obj fields)).build (resolve settings budget) none (key ++ "#") [key]
      (w.asking ref key) = .ok id w₁)
    (hlink : linkTo ref key (w₁.bound key id) = .ok l (w₁.bound key id)) :
    resolve settings (budget + 1) ref w = .ok l (w₁.bound key id) := by
  rw [resolve_new budget hkey hnew, hload]
  change (document settings budget ref key fields) (w.asking ref key) = _
  rw [document, bind_ok _ hbuild]
  exact hlink

end

/-- A schema is **calm** if no reference outside of fragments with an id is hollow. -/
abbrev Schema.Calm (settings : Settings) : Schema → Prop :=
  Schema.Open (fun ref => ¬ settings.Hollow ref) Schema.HasId

section

variable {σ : Type} [Source σ] {settings : Settings} {start : σ}

/-- **Sources that hold still** at a location: the document that they serve there, if any, does not
change. -/
def Source.Still (start : σ) (location : String) : Prop :=
  ∀ s, Becomes start s → ∀ fields,
    (Source.load s location).result = .ok fields ↔ (Source.load start location).result = .ok fields

/-- What stands still from the start stands still wherever the source has got to. -/
theorem Source.Still.becomes {s : σ} {location : String} (h : Still start location)
    (hs : Becomes start s) : Still s location :=
  fun _ ht fields => (h _ (hs.trans ht) fields).trans (h s hs fields).symm

/-- A source that withholds a location holds still there. -/
theorem Source.Withholds.still {location : String} (h : Withholds start location) : Still start location :=
  fun s hs fields => iff_of_false (h s hs fields) (h start (.refl start) fields)

/-- A construction on the way, to which the empty text is not known. -/
structure Workshop.Unaware (start : σ) (w : Workshop σ) : Prop where
  becomes : Source.Becomes start w.source
  unknown : w.graph.knows "" = false

/-- Entering a node under keys makes other keys known. -/
theorem Workshop.Unaware.enter {w : Workshop σ} (h : w.Unaware start) (node : Node) (path : String)
    (keys : List String) : (w.enter node path keys).Unaware start := by
  refine ⟨h.becomes, ?_⟩
  rw [← Bool.not_eq_true, Workshop.knows_enter]
  rintro (⟨hne, -⟩ | hknown)
  · exact hne rfl
  · rw [h.unknown] at hknown
    cases hknown

theorem Workshop.Unaware.asking {w : Workshop σ} (h : w.Unaware start) (ref key : String) :
    (w.asking ref key).Unaware start :=
  ⟨h.becomes.load key, h.unknown⟩

theorem Workshop.Unaware.bound {w : Workshop σ} (h : w.Unaware start) {key : String} (hkey : key ≠ "")
    (id : NodeId) : (w.bound key id).Unaware start := by
  refine ⟨h.becomes, ?_⟩
  rw [← Bool.not_eq_true, Workshop.knows_bound]
  rintro (hempty | hknown)
  · exact hkey hempty.symm
  · rw [h.unknown] at hknown
    cases hknown

/-- **If the document of the empty text is not calm**, no construction resolves a hollow reference, and the
empty text never becomes known. -/
theorem Build.resolve_unaware (hstill : Source.Still start "")
    (hrestless : ∀ fields, (Source.load start "").result = .ok fields →
      ¬ (Schema.ofJson (.obj fields)).Calm settings) (budget : Nat) :
    ∀ ref {w : Workshop σ}, w.Unaware start →
      Redone (Workshop.Unaware start) (¬ settings.Hollow ref) (resolve settings budget ref w)
        (resolve settings budget ref w) := by
  intro ref w hw l w' h
  refine ⟨h, ?_⟩
  obtain ⟨key, hkey, hcase⟩ := resolve_ok h
  rcases hcase with ⟨hknown, rfl, -⟩ | ⟨hnew, budget, fields, id, w₁, rfl, hload, hbuild, rfl, -⟩
  · refine ⟨hw, ?_⟩
    intro hhollow
    have hkeyOf : w'.graph.keyOf settings ref = .ok "" := by
      rw [Graph.keyOf, if_neg (by rw [hhollow.eq, hw.unknown]; decide)]
      exact hhollow
    obtain rfl := Except.ok.inj (hkey.symm.trans hkeyOf)
    rw [hw.unknown] at hknown
    cases hknown
  · have hlinks : Redoing (Workshop.Unaware start) (fun _ => True) (fun ref => ¬ settings.Hollow ref)
        (fun _ => False) (resolve settings budget) (resolve settings budget) :=
      { enter := fun node path keys hw => hw.enter node path keys
        adjust := fun _ _ hw => ⟨hw.becomes, hw.unknown⟩
        links := fun ref _ _ hw => resolve_unaware hstill hrestless budget ref hw
        guarded := fun _ hguard => hguard.elim }
    have hrefers : (Schema.ofJson (.obj fields)).Refers fun _ => True :=
      Schema.ofJson_refers fun _ _ => trivial
    obtain ⟨-, hw₁, hcalm⟩ := Schema.build_redone hlinks _ (hrefers.toOpen fun _ _ _ h => h.2) none _ [key]
      (hw.asking ref key) id w₁ hbuild
    have hlocate := Graph.locate_of_keyOf hkey hnew
    by_cases hempty : key = ""
    · subst hempty
      exact absurd hcalm (hrestless fields ((hstill _ hw.becomes fields).mp hload))
    · refine ⟨hw₁.bound hempty id, ?_⟩
      intro hhollow
      exact hempty (Except.ok.inj (hlocate.symm.trans hhollow))

/-- **A hollow reference is resolved only if the document of the empty text is calm.** -/
theorem Build.hollow_calm (hstill : Source.Still start "") {budget : Nat} {ref : String} {w w' : Workshop σ}
    {l : Link} (hw : w.Unaware start) (hhollow : settings.Hollow ref)
    (h : resolve settings budget ref w = .ok l w') :
    ∀ fields, (Source.load start "").result = .ok fields →
      (Schema.ofJson (.obj fields)).Calm settings := by
  intro fields hload
  by_contra hnot
  refine (resolve_unaware hstill ?_ budget ref hw l w' h).2.2 hhollow
  intro fields' hload'
  obtain rfl := Except.ok.inj (hload.symm.trans hload')
  exact hnot

end

/-! ## Keys that are not entered yet -/

/-- The keys among some that stand for nothing yet. -/
def Graph.unentered (g : Graph) (wanted : Finset String) : Finset String :=
  wanted.filter fun key => g.knows key = false

/-- A reference leads to one of some keys, or to the empty text. -/
def Settings.LeadsInto (settings : Settings) (wanted : Finset String) (ref : String) : Prop :=
  ∀ location, settings.locate ref = .ok location → location ≠ "" → location ∈ wanted

/-- **A schema keeps to some keys**: its ids are among them, and its references lead there. -/
abbrev Schema.KeepsTo (settings : Settings) (wanted : Finset String) : Schema → Prop :=
  Schema.Every fun facts body _ => (∀ id, facts.id = some id → id ∈ wanted) ∧
    ∀ ref, body = .reference (some ref) → settings.LeadsInto wanted ref

section

variable {σ : Type} [Source σ] {settings : Settings} {start : σ} {wanted : Finset String}
  {count : Nat} {w : Workshop σ}

/-- **The world of a construction**: all documents keep to some keys, and the document of the empty text stays
what it is. -/
structure Source.World (settings : Settings) (start : σ) (wanted : Finset String) : Prop where
  named : "" ∉ wanted
  still : Still start ""
  keeps : ∀ s, Becomes start s → ∀ location fields, (Source.load s location).result = .ok fields →
    (Schema.ofJson (.obj fields)).KeepsTo settings wanted

/-- A construction on the way, with at most so many keys that are not entered. -/
structure Workshop.Within (start : σ) (wanted : Finset String) (count : Nat) (w : Workshop σ) : Prop where
  becomes : Source.Becomes start w.source
  room : (w.graph.unentered wanted).card ≤ count

namespace Workshop.Within

/-- A state in which no key is forgotten. -/
theorem keep {w' : Workshop σ} (h : w.Within start wanted count)
    (hbecomes : Source.Becomes start w'.source)
    (hknows : ∀ key, w.graph.knows key = true → w'.graph.knows key = true) :
    w'.Within start wanted count := by
  refine ⟨hbecomes, (Finset.card_le_card fun key hkey => ?_).trans h.room⟩
  obtain ⟨hmem, hnew⟩ := Finset.mem_filter.mp hkey
  refine Finset.mem_filter.mpr ⟨hmem, ?_⟩
  rw [← Bool.not_eq_true]
  intro hknown
  rw [hknows key hknown] at hnew
  cases hnew

theorem mono {count' : Nat} (h : w.Within start wanted count) (hle : count ≤ count') :
    w.Within start wanted count' :=
  ⟨h.becomes, h.room.trans hle⟩

theorem enter (h : w.Within start wanted count) (node : Node) (path : String) (keys : List String) :
    (w.enter node path keys).Within start wanted count :=
  h.keep h.becomes fun _ hknown => (Workshop.knows_enter ..).mpr (Or.inr hknown)

/-- **Entering a node under a key that stood for nothing**: one key less is not entered. -/
theorem enter_new (h : w.Within start wanted (count + 1)) (hnamed : "" ∉ wanted) {key : String}
    (hkey : key ∈ w.graph.unentered wanted) (node : Node) (path : String) {keys : List String}
    (hmem : key ∈ keys) : (w.enter node path keys).Within start wanted count := by
  have hkept := h.enter node path keys
  refine ⟨h.becomes, Nat.le_of_lt_succ (Nat.lt_of_lt_of_le (Finset.card_lt_card ?_) h.room)⟩
  obtain ⟨hwanted, hnew⟩ := Finset.mem_filter.mp hkey
  have hne : key ≠ "" := fun hempty => hnamed (hempty ▸ hwanted)
  refine Finset.ssubset_iff_subset_ne.mpr ⟨?_, ?_⟩
  · intro k hk
    obtain ⟨hk, hknew⟩ := Finset.mem_filter.mp hk
    refine Finset.mem_filter.mpr ⟨hk, ?_⟩
    rw [← Bool.not_eq_true]
    intro hknown
    rw [(Workshop.knows_enter w node path keys k).mpr (Or.inr hknown)] at hknew
    cases hknew
  · intro hsame
    rw [← hsame] at hkey
    have hentered := (Workshop.knows_enter w node path keys key).mpr (Or.inl ⟨hne, hmem⟩)
    rw [(Finset.mem_filter.mp hkey).2] at hentered
    cases hentered

/-- Asking binds no key, so that the count of keys wanted is as before. -/
theorem asking (h : w.Within start wanted count) (ref key : String) :
    (w.asking ref key).Within start wanted count :=
  ⟨h.becomes.load key, h.room⟩

theorem bound (h : w.Within start wanted count) (key : String) (id : NodeId) :
    (w.bound key id).Within start wanted count :=
  h.keep h.becomes fun _ hknown => (Workshop.knows_bound ..).mpr (Or.inr hknown)

end Workshop.Within

/-- **A fragment that is entered under a key that stood for nothing** is built with one key less to go, which
takes two units of budget less. -/
theorem Schema.build_narrowed (hworld : Source.World settings start wanted) {budget budget' : Nat}
    (hlinks : ∀ {count : Nat} {ref : String} {w : Workshop σ}, settings.LeadsInto wanted ref →
      2 * count + 1 ≤ budget' → w.Within start wanted count →
      Redone (Workshop.Within start wanted count) True (Build.resolve settings budget ref w)
        (Build.resolve settings budget' ref w))
    {s : Schema} (hs : s.KeepsTo settings wanted) (name : Option String) (path : String)
    {keys : List String} (hw : w.Within start wanted count) (hbudget : 2 * count ≤ budget' + 1)
    (hkey : ∀ facts body groups, s = .fragment facts body groups → facts.id.bind w.graph.find? = none →
      ∃ key ∈ facts.id.toList ++ keys, key ∈ w.graph.unentered wanted) :
    Redone (Workshop.Within start wanted count) True
      (s.build (Build.resolve settings budget) name path keys w)
      (s.build (Build.resolve settings budget') name path keys w) := by
  cases hknown : s.facts.id.bind w.graph.find? with
  | some id =>
    rw [Schema.build_known s hknown, Schema.build_known s hknown]
    exact .ok hw trivial
  | none =>
    cases hs with
    | unsupported facts =>
      have hknown : facts.id.bind w.graph.find? = none := hknown
      rw [Schema.build_unsupported hknown]
      exact .error
    | @fragment facts body groups hown hparts hmembers =>
      have hknown : facts.id.bind w.graph.find? = none := hknown
      obtain ⟨key, hmem, hnew⟩ := hkey facts body groups rfl hknown
      obtain ⟨fewer, rfl⟩ : ∃ fewer, count = fewer + 1 :=
        Nat.exists_eq_succ_of_ne_zero (Nat.ne_of_gt ((Finset.card_pos.mpr ⟨key, hnew⟩).trans_le hw.room))
      have hredoing : Redoing (Workshop.Within start wanted fewer) (settings.LeadsInto wanted)
          (fun _ => True) (fun _ => False) (Build.resolve settings budget)
          (Build.resolve settings budget') :=
        { enter := fun node path keys hw => hw.enter node path keys
          adjust := fun _ _ hw => ⟨hw.becomes, hw.room⟩
          links := fun ref href _ hw => hlinks href (by omega) hw
          guarded := fun _ hguard => hguard.elim }
      have hopen : ∀ s : Schema, s.KeepsTo settings wanted →
          s.Open (settings.LeadsInto wanted) fun _ => False :=
        fun s hs => hs.toOpen fun _ _ _ h => h.2
      have hentered := hw.enter_new hworld.named hnew (Schema.node facts body groups name path) path hmem
      rw [Schema.build_new hknown, Schema.build_new hknown]
      refine ((hredoing.fill
        (fun hw => Body.build_redone hredoing body hown.2 (fun s hs => hopen s (hparts s hs)) _ facts name
          path hw)
        (fun hw => Group.buildAll_redone hredoing groups
          (fun group hgroup s hs => hopen s (hmembers group hgroup s hs)) facts path hw)
        hentered).imp fun _ => trivial).mono fun _ hw => hw.mono (Nat.le_succ fewer)

/-- **Resolving what can be resolved at all**: twice as much budget as there are keys that are not entered is
enough, with one unit more if the reference is hollow. -/
theorem Build.resolve_redone (hworld : Source.World settings start wanted) (budget : Nat) :
    ∀ {count budget' : Nat} {ref : String} {w : Workshop σ}, settings.LeadsInto wanted ref →
      2 * count + 1 ≤ budget' ∨ 2 * count ≤ budget' ∧ ¬ settings.Hollow ref →
      w.Within start wanted count →
      Redone (Workshop.Within start wanted count) True (resolve settings budget ref w)
        (resolve settings budget' ref w) := by
  intro count budget' ref w hleads hbudget hw l w' h
  obtain ⟨key, hkey, hcase⟩ := resolve_ok h
  rcases hcase with ⟨hknown, rfl, hlink⟩ | ⟨hnew, less, fields, id, w₁, rfl, hload, hbuild, rfl, hlink⟩
  · rw [resolve_known budget' hkey hknown]
    exact ⟨hlink, hw, trivial⟩
  · have hlocate := Graph.locate_of_keyOf hkey hnew
    have hkeeps := hworld.keeps _ hw.becomes key fields hload
    have hasking := hw.asking ref key
    suffices hredone : ∃ more, budget' = more + 1 ∧ Redone (Workshop.Within start wanted count) True
        ((Schema.ofJson (.obj fields)).build (resolve settings less) none (key ++ "#") [key]
          (w.asking ref key))
        ((Schema.ofJson (.obj fields)).build (resolve settings more) none (key ++ "#") [key]
          (w.asking ref key)) by
      obtain ⟨more, rfl, hredone⟩ := hredone
      obtain ⟨hbuild', hw₁, -⟩ := hredone id w₁ hbuild
      exact ⟨resolve_document hkey hnew hload hbuild' hlink, hw₁.bound key id, trivial⟩
    by_cases hempty : key = ""
    · subst hempty
      have hroom : 2 * count + 1 ≤ budget' := hbudget.resolve_right fun h => h.2 hlocate
      obtain ⟨more, rfl⟩ : ∃ more, budget' = more + 1 := ⟨budget' - 1, by omega⟩
      refine ⟨more, rfl, ?_⟩
      have hcalm := hollow_calm hworld.still ⟨hw.becomes, hnew⟩ hlocate h fields
        ((hworld.still _ hw.becomes fields).mp hload)
      -- outside of fragments with an id no reference is hollow, and inside a key has become known
      have hredoing : Redoing (Workshop.Within start wanted count)
          (fun ref => ¬ settings.Hollow ref ∧ settings.LeadsInto wanted ref) (fun _ => True)
          (fun s => s.HasId ∧ s.KeepsTo settings wanted) (resolve settings less) (resolve settings more) :=
        { enter := fun node path keys hw => hw.enter node path keys
          adjust := fun _ _ hw => ⟨hw.becomes, hw.room⟩
          links := fun ref href _ hw =>
            resolve_redone hworld less href.2 (Or.inr ⟨Nat.le_of_succ_le_succ hroom, href.1⟩) hw
          guarded := by
            rintro s ⟨hid, hkeeps⟩
            refine ⟨hid, fun name path keys w hw => ?_⟩
            refine Schema.build_narrowed hworld
              (fun href hle hw => resolve_redone hworld less href (Or.inl hle) hw) hkeeps name path hw
              (by omega) ?_
            rintro facts body groups rfl hknown
            obtain ⟨id, hfacts⟩ := Option.ne_none_iff_exists'.mp hid
            have hfacts : facts.id = some id := hfacts
            cases hkeeps with
            | fragment hown _ _ =>
              refine ⟨id, by simp [hfacts], Finset.mem_filter.mpr ⟨hown.1 id hfacts, ?_⟩⟩
              rw [hfacts] at hknown
              rw [Graph.knows, show w.graph.find? id = none from hknown]
              rfl }
      refine (Schema.build_redone hredoing _ ?_ none _ [""] hasking).imp fun _ => trivial
      exact hcalm.and_every hkeeps fun _ _ _ h => h.2
    · have hunentered : key ∈ w.graph.unentered wanted :=
        Finset.mem_filter.mpr ⟨hleads key hlocate hempty, hnew⟩
      have hpositive : 0 < count := (Finset.card_pos.mpr ⟨key, hunentered⟩).trans_le hw.room
      obtain ⟨more, rfl⟩ : ∃ more, budget' = more + 1 := ⟨budget' - 1, by omega⟩
      refine ⟨more, rfl, Schema.build_narrowed hworld ?_ hkeeps none _ hasking (by omega) ?_⟩
      · exact fun href hle hw => resolve_redone hworld less href (Or.inl hle) hw
      · exact fun _ _ _ _ _ => ⟨key, List.mem_append_right _ (List.mem_singleton_self key), hunentered⟩

end

/-! ## Documents -/

section

variable {σ : Type} [Source σ] {settings : Settings} {wanted : Finset String}

/-- The keys that a construction may enter: the ids and the locations in a document and in all that a source
may serve. -/
def Source.keys (settings : Settings) (source : σ) (root : Json) : Finset String :=
  (settings.locations (references source root) ∪
    ((root :: shelf source).flatMap Json.ids).toFinset).erase ""

/-- The budget of a root leaves two units for every key it could come to ask for, and one more. -/
theorem Source.card_keys_le (settings : Settings) (source : σ) (root : Json) :
    2 * (keys settings source root).card + 1 ≤ budget source root := by
  have hrefs : (settings.locations (references source root)).card ≤ (references source root).length :=
    (List.toFinset_card_le _).trans (List.length_filterMap_le ..)
  have hids := List.toFinset_card_le ((root :: shelf source).flatMap Json.ids)
  have hkeys : (keys settings source root).card ≤
      (settings.locations (references source root)).card +
        ((root :: shelf source).flatMap Json.ids).toFinset.card :=
    (Finset.card_erase_le).trans (Finset.card_union_le ..)
  change _ ≤ 2 * ((references source root).length + ((root :: shelf source).flatMap Json.ids).length) + 1
  omega

/-- **A document keeps to its keys.** -/
theorem Schema.ofJson_keepsTo {v : Json} (hids : ∀ id ∈ v.ids, id ≠ "" → id ∈ wanted)
    (hrefs : ∀ ref ∈ v.references, settings.LeadsInto wanted ref) :
    (ofJson v).KeepsTo settings wanted := by
  have hreadable : Readable (KeepsTo settings wanted) _ :=
    readable_every (Json.inherited_said fun key text =>
        (key = "id" → text ≠ "" → text ∈ wanted) ∧ (key = "$ref" → settings.LeadsInto wanted text)) <| by
      intro fields parts kind hsaid _ _
      refine ⟨?_, ?_⟩
      · intro id hid
        obtain ⟨value, hget, hfilled⟩ := Option.bind_eq_some_iff.mp hid
        obtain ⟨htext, hne⟩ := Json.filledText?_eq_some.mp hfilled
        have hmem := Json.mem_textsUnderFields (by rw [hget, Option.bind_some, htext])
        exact (hsaid "id" (by decide) id hmem).1 rfl hne
      · intro ref hbody
        exact (hsaid "$ref" (by decide) ref (Json.mem_textsUnderFields (reference_bodyOf hbody))).2 rfl
  refine hreadable.ofJson ?_
  intro key _ text htext
  exact ⟨fun hkey => hids text (by rw [Json.ids, ← hkey]; exact htext),
    fun hkey => hrefs text (by rw [Json.references, ← hkey]; exact htext)⟩

variable {source : σ}

/-- A reference found in the root or on the shelf leads to one of the keys. -/
theorem Source.leadsInto_keys {root v : Json} (hv : v ∈ root :: shelf source) {ref : String}
    (href : ref ∈ v.references) : settings.LeadsInto (keys settings source root) ref := by
  intro location hlocate hne
  refine Finset.mem_erase.mpr ⟨hne, Finset.mem_union_left _ ?_⟩
  rw [Settings.locations, List.mem_toFinset]
  exact List.mem_filterMap.mpr ⟨ref, List.mem_flatMap.mpr ⟨v, hv, href⟩, by rw [hlocate]; rfl⟩

/-- All that can be read in the root or on the shelf keeps to the keys. -/
theorem Source.keepsTo_keys {root v : Json} (hv : v ∈ root :: shelf source) :
    (Schema.ofJson v).KeepsTo settings (keys settings source root) := by
  refine Schema.ofJson_keepsTo ?_ fun ref href => leadsInto_keys hv href
  intro id hid hne
  refine Finset.mem_erase.mpr ⟨hne, Finset.mem_union_right _ ?_⟩
  rw [List.mem_toFinset]
  exact List.mem_flatMap.mpr ⟨v, hv, hid⟩

/-- The world of the documents of a lawful source. -/
theorem Source.world_keys [LawfulSource σ] (hstill : Still source "") (root : Json) :
    World settings source (keys settings source root) where
  named := by simp [keys]
  still := hstill
  keeps s hs location fields hload :=
    keepsTo_keys (List.mem_cons_of_mem _ (hs.shelf (LawfulSource.served hload)))

/-- **A construction that succeeds with some budget succeeds with its own**, in the same way. -/
theorem Build.root_redone [LawfulSource σ] {w w' : Workshop σ} (hstill : Source.Still w.source "")
    {schema : Json} {name : Option String} {path : String} {keys : List String} {budget : Nat} {id : NodeId}
    (h : (Schema.ofJson schema).build (resolve settings budget) name path keys w = .ok id w') :
    root settings schema name path keys w = .ok id w' ∧ Source.Becomes w.source w'.source := by
  have hworld : Source.World settings w.source _ := Source.world_keys hstill schema
  have hcard := Source.card_keys_le settings w.source schema
  have hw : w.Within w.source (Source.keys settings w.source schema)
      (Source.keys settings w.source schema).card :=
    ⟨.refl _, Finset.card_filter_le ..⟩
  have hredoing : Redoing (Workshop.Within w.source (Source.keys settings w.source schema)
        (Source.keys settings w.source schema).card)
      (settings.LeadsInto (Source.keys settings w.source schema)) (fun _ => True) (fun _ => False)
      (resolve settings budget) (resolve settings (Source.budget w.source schema)) :=
    { enter := fun node path keys hw => hw.enter node path keys
      adjust := fun _ _ hw => ⟨hw.becomes, hw.room⟩
      links := fun ref href _ hw => resolve_redone hworld budget href (Or.inl hcard) hw
      guarded := fun _ hguard => hguard.elim }
  have hopen : (Schema.ofJson schema).Open
      (settings.LeadsInto (Source.keys settings w.source schema)) fun _ => False :=
    (Source.keepsTo_keys (List.mem_cons_self ..)).toOpen fun _ _ _ h => h.2
  obtain ⟨hroot, hw', -⟩ := Schema.build_redone hredoing _ hopen name path keys hw id w' h
  exact ⟨hroot, hw'.becomes⟩

end

end TypeScribe
