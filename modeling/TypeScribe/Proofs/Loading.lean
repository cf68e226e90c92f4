import TypeScribe.Proofs.Resolving
import Mathlib.Data.Finset.Card

/-!
# Every location is loaded once

A reference is looked up by its text and then by its location, and a document is entered under its
location before its parts are built. So a location that has been asked for is known from then on, and is
not asked for again, however documents refer to each other.

* **What is asked.** `Recorded` notes every location that a source is asked for. A construction does the
  same with a source that notes and with one that does not.
* **How deep loads are nested.** Every load inside a load is of one location less that some reference
  leads to and that is not known (`Graph.unknown`). As many units of budget as there are such locations
  are enough, and it makes no difference if there are more (`Build.resolve_together`).

Both need that no document is found under the empty text, which is no key.
-/

namespace TypeScribe

/-! ## Sources -/

/-- **Lawful sources** serve what is on their shelf, and put nothing new on it. -/
class LawfulSource (σ : Type) [Source σ] : Prop where
  served : ∀ {s : σ} {location : String} {fields : Entries Json},
    (Source.load s location).result = .ok fields → Json.obj fields ∈ Source.shelf s
  shelf : ∀ (s : σ) (location : String),
    Source.shelf (Source.load s location).source ⊆ Source.shelf s

namespace Source

variable {σ : Type} [Source σ]

/-- One source becomes another when it is asked for documents. -/
inductive Becomes : σ → σ → Prop where
  | refl (s : σ) : Becomes s s
  | load {s t : σ} (before : Becomes s t) (location : String) :
      Becomes s (Source.load t location).source

theorem Becomes.trans {s t u : σ} (h : Becomes s t) (h' : Becomes t u) : Becomes s u := by
  induction h' with
  | refl => exact h
  | load _ location ih => exact ih.load location

/-- A source **withholds** a location if it never serves a document there. -/
def Withholds (s : σ) (location : String) : Prop :=
  ∀ t, Becomes s t → ∀ fields, (Source.load t location).result ≠ .ok fields

/-- What a source withholds it goes on withholding. -/
theorem Withholds.becomes {s t : σ} {location : String} (h : Withholds s location)
    (hst : Becomes s t) : Withholds t location :=
  fun u htu => h u (hst.trans htu)

/-- What a lawful source serves was on the shelf from the start. -/
theorem Becomes.shelf [LawfulSource σ] {s t : σ} (h : Becomes s t) : shelf t ⊆ shelf s := by
  induction h with
  | refl => exact List.Subset.refl _
  | load _ location ih => exact List.Subset.trans (LawfulSource.shelf _ location) ih

/-- The references in a document and in all that a source may serve. -/
def references (source : σ) (root : Json) : List String :=
  (root :: shelf source).flatMap Json.references

/-- There are no more references to follow than the budget has units. -/
theorem length_references_le (source : σ) (root : Json) :
    (references source root).length ≤ budget source root := by
  rw [references, budget]
  omega

end Source

/-- A source that notes what it is asked for. -/
structure Recorded (σ : Type) where
  source : σ
  asked : List String := []

instance {σ : Type} [Source σ] : Source (Recorded σ) where
  load r location :=
    { result := (Source.load r.source location).result
      source := ⟨(Source.load r.source location).source, r.asked ++ [location]⟩
      events := (Source.load r.source location).events }
  shelf r := Source.shelf r.source

/-- A workshop without the notes of its source. -/
def Workshop.plain {σ : Type} (w : Workshop (Recorded σ)) : Workshop σ :=
  { w with source := w.source.source }

/-! ## Locations -/

/-- The locations that references lead to. -/
def Settings.locations (settings : Settings) (refs : List String) : Finset String :=
  (refs.filterMap fun ref => (settings.locate ref).toOption).toFinset

namespace Graph

/-- **The unknown locations** that references lead to, some keys left out. -/
def unknown (g : Graph) (settings : Settings) (refs keys : List String) : Finset String :=
  (settings.locations refs).filter fun location => g.knows location = false ∧ location ∉ keys

variable {g g' : Graph} {settings : Settings} {refs keys keys' : List String}

/-- If all that is unknown later was unknown before, there is no more of it. -/
theorem unknown_subset
    (h : ∀ location, g'.knows location = false → location ∉ keys' →
      g.knows location = false ∧ location ∉ keys) :
    g'.unknown settings refs keys' ⊆ g.unknown settings refs keys := by
  intro location hlocation
  obtain ⟨hmem, hnew, hkeys⟩ := Finset.mem_filter.mp hlocation
  exact Finset.mem_filter.mpr ⟨hmem, h location hnew hkeys⟩

/-- The key of a reference, if it is not known, is an unknown location. -/
theorem mem_unknown {ref key : String} (href : ref ∈ refs) (hkey : g.keyOf settings ref = .ok key)
    (hnew : g.knows key = false) : key ∈ g.unknown settings refs [] := by
  have hlocate := locate_of_keyOf hkey hnew
  refine Finset.mem_filter.mpr ⟨?_, hnew, by simp⟩
  rw [Settings.locations, List.mem_toFinset]
  exact List.mem_filterMap.mpr ⟨ref, href, by rw [hlocate]; rfl⟩

/-- There are no more unknown locations than references. -/
theorem card_unknown_le (g : Graph) (settings : Settings) (refs keys : List String) :
    (g.unknown settings refs keys).card ≤ refs.length := by
  calc (g.unknown settings refs keys).card
      ≤ (settings.locations refs).card := Finset.card_filter_le ..
    _ ≤ (refs.filterMap fun ref => (settings.locate ref).toOption).length := List.toFinset_card_le _
    _ ≤ refs.length := List.length_filterMap_le ..

end Graph

/-! ## The bond -/

section

variable {σ : Type} [Source σ]

/-- **A construction and its record**: the same but for the notes, no location noted twice, those
noted known or among the keys at hand, and few enough locations unknown. -/
structure Recording (settings : Settings) (refs : List String) (start : σ) (count : Nat)
    (keys : List String) (w : Workshop (Recorded σ)) (v : Workshop σ) : Prop where
  plain : v = w.plain
  named : "" ∉ keys
  nodup : w.source.asked.Nodup
  known : ∀ location ∈ w.source.asked, w.graph.knows location = true ∨ location ∈ keys
  becomes : Source.Becomes start w.source.source
  room : (w.graph.unknown settings refs keys).card ≤ count

/-- What is left of it when a construction fails, which is never for want of budget. -/
structure Recording.Failed (failure : Failure) (w : Workshop (Recorded σ)) (v : Workshop σ) : Prop where
  plain : v = w.plain
  nodup : w.source.asked.Nodup
  cause : failure ≠ .endless

namespace Recording

variable {settings : Settings} {refs : List String} {start : σ} {count : Nat} {keys keys' : List String}
  {w w' : Workshop (Recorded σ)} {v v' : Workshop σ}

/-- A change that forgets no key keeps the record. -/
theorem update (h : Recording settings refs start count keys w v) (hplain : v' = w'.plain)
    (hsource : w'.source = w.source) (hnamed : "" ∉ keys')
    (hknows : ∀ location, w.graph.knows location = true ∨ location ∈ keys →
      w'.graph.knows location = true ∨ location ∈ keys') :
    Recording settings refs start count keys' w' v' where
  plain := hplain
  named := hnamed
  nodup := hsource ▸ h.nodup
  known location hlocation := hknows location (h.known location (hsource ▸ hlocation))
  becomes := hsource ▸ h.becomes
  room := by
    refine (Finset.card_le_card (Graph.unknown_subset ?_)).trans h.room
    intro location hnew hkeys
    have hnot : ¬ (w.graph.knows location = true ∨ location ∈ keys) := by
      intro hknown
      rcases hknows location hknown with hknown | hknown
      · rw [hnew] at hknown
        cases hknown
      · exact hkeys hknown
    simpa using hnot

/-- The record as a bond. -/
def bond (settings : Settings) (refs : List String) (start : σ) (count : Nat) : Bond (Recorded σ) σ where
  holds := Recording settings refs start count
  failed := Recording.Failed
  graph h := by
    rw [h.plain]
    rfl
  weaken h h' := h'.update h'.plain rfl h.named fun _ hknown => Or.inl (by simpa using hknown)
  enter facts body groups name path _ h := by
    refine h.update (by rw [h.plain]; rfl) rfl (by simp) ?_
    intro location hknown
    refine Or.inl ((Graph.knows_bindAll _ location _ _).mpr ?_)
    rcases hknown with hknown | hkey
    · exact Or.inr hknown
    · exact Or.inl ⟨fun hempty => h.named (hempty ▸ hkey), List.mem_append_right _ hkey⟩
  adjust id f hf h := h.update (by rw [h.plain]; rfl) rfl (by simp) fun _ hknown => hknown
  fail hne h := ⟨h.plain, h.nodup, hne⟩

theorem mono {count' : Nat} (hle : count ≤ count') (h : Recording settings refs start count keys w v) :
    Recording settings refs start count' keys w v :=
  { h with room := h.room.trans hle }

/-- A key that is not known has not been asked for. -/
theorem nodup_asking {key : String} (h : Recording settings refs start count [] w v)
    (hnew : w.graph.knows key = false) : (w.source.asked ++ [key]).Nodup := by
  have hnot : key ∉ w.source.asked := by
    intro hasked
    rcases h.known key hasked with hknown | hkey
    · rw [hnew] at hknown
      cases hknown
    · cases hkey
  exact List.nodup_append.mpr ⟨h.nodup, List.nodup_singleton key, by
    rintro location hlocation _ hkey rfl
    exact hnot (List.mem_singleton.mp hkey ▸ hlocation)⟩

theorem plain_asking {ref key : String} (h : Recording settings refs start count keys w v) :
    v.asking ref key = (w.asking ref key).plain := by
  rw [h.plain]
  rfl

/-- **Loading** the document of a key that is not known: the key is at hand from here on, and one
location less is unknown. -/
theorem asking {ref key : String} (h : Recording settings refs start (count + 1) [] w v)
    (hunknown : key ∈ w.graph.unknown settings refs []) (hkey : key ≠ "") :
    Recording settings refs start count [key] (w.asking ref key) (v.asking ref key) where
  plain := h.plain_asking
  named := by simpa using Ne.symm hkey
  nodup := h.nodup_asking (Finset.mem_filter.mp hunknown).2.1
  known location hlocation := by
    rcases List.mem_append.mp hlocation with hlocation | hlocation
    · exact Or.inl ((h.known location hlocation).resolve_right (by simp))
    · exact Or.inr hlocation
  becomes := h.becomes.load key
  room := by
    refine Nat.le_of_lt_succ (Nat.lt_of_lt_of_le (Finset.card_lt_card ?_) h.room)
    refine Finset.ssubset_iff_subset_ne.mpr ⟨Graph.unknown_subset ?_, ?_⟩
    · exact fun location hnew _ => ⟨hnew, by simp⟩
    · intro heq
      rw [← heq] at hunknown
      exact (Finset.mem_filter.mp hunknown).2.2 (List.mem_singleton_self key)

/-- A key at hand is bound. -/
theorem bindNew {key : String} (id : NodeId) (h : Recording settings refs start count [key] w v) :
    Together ((bond settings refs start count).holds []) (bond settings refs start count).failed
      (Build.bindNew key id w) (Build.bindNew key id v) := by
  rw [Build.bindNew, Build.bindNew, Build.onGraph_apply, Build.onGraph_apply]
  refine .ok (h.update (by rw [h.plain]; rfl) rfl (by simp) ?_)
  intro location hknown
  refine Or.inl ?_
  change (if w.graph.knows key = true then w.graph else w.graph.bind key id).knows location = true
  split
  · rename_i hkey
    rcases hknown with hknown | hlocation
    · exact hknown
    · exact List.mem_singleton.mp hlocation ▸ hkey
  · rcases hknown with hknown | hlocation
    · exact (Graph.knows_bind ..).mpr (Or.inr hknown)
    · exact (Graph.knows_bind ..).mpr (Or.inl (List.mem_singleton.mp hlocation))

end Recording

/-- **Resolving references** keeps the record, with any budgets that are large enough. -/
theorem Build.resolve_together [LawfulSource σ] {settings : Settings} {refs : List String} {start : σ}
    (hempty : Source.Withholds start "")
    (hshelf : ∀ v ∈ Source.shelf start, ∀ ref ∈ v.references, ref ∈ refs) (count : Nat) :
    ∀ {budget budget' : Nat}, count ≤ budget → count ≤ budget' →
      (Recording.bond settings refs start count).Links (· ∈ refs) (resolve settings budget)
        (resolve settings budget') := by
  intro budget budget' hbudget hbudget' ref href w v h
  have hgraph := (Recording.bond settings refs start count).graph h
  cases hkey : w.graph.keyOf settings ref with
  | error failure =>
    rw [resolve_failed budget hkey, resolve_failed budget' (hgraph ▸ hkey)]
    refine .error ⟨h.plain, h.nodup, ?_⟩
    rw [Graph.keyOf] at hkey
    split at hkey
    · cases hkey
    · exact Settings.locate_ne_endless hkey
  | ok key =>
    cases hknown : w.graph.knows key with
    | true =>
      rw [resolve_known budget hkey hknown, resolve_known budget' (hgraph ▸ hkey) (hgraph ▸ hknown)]
      exact Bond.linkTo ref key h
    | false =>
      have hunknown := Graph.mem_unknown href hkey hknown
      cases count with
      | zero =>
        have hnone := Finset.card_eq_zero.mp (Nat.le_zero.mp h.room)
        rw [hnone] at hunknown
        cases hunknown
      | succ count =>
        obtain ⟨budget, rfl⟩ := Nat.exists_eq_add_one.mpr (Nat.lt_of_lt_of_le (Nat.succ_pos count) hbudget)
        obtain ⟨budget', rfl⟩ := Nat.exists_eq_add_one.mpr (Nat.lt_of_lt_of_le (Nat.succ_pos count) hbudget')
        rw [resolve_new budget hkey hknown, resolve_new budget' (hgraph ▸ hkey) (hgraph ▸ hknown)]
        have hresult : (Source.load w.source key).result = (Source.load v.source key).result := by
          rw [h.plain]
          rfl
        rw [hresult]
        cases hload : (Source.load v.source key).result with
        | error fault =>
          exact .error ⟨h.plain_asking, h.nodup_asking hknown, fault.failure_ne_endless key⟩
        | ok fields =>
          rw [h.plain] at hload
          have hne : key ≠ "" := by
            rintro rfl
            exact hempty _ h.becomes fields hload
          have hrefers : (Schema.ofJson (.obj fields)).Refers (· ∈ refs) :=
            Schema.ofJson_refers (hshelf _ (h.becomes.shelf (LawfulSource.served hload)))
          -- inside the document one location less is unknown
          have ih : (Recording.bond settings refs start count).Links (· ∈ refs)
              (resolve settings budget) (resolve settings budget') :=
            resolve_together hempty hshelf count (Nat.le_of_succ_le_succ hbudget)
              (Nat.le_of_succ_le_succ hbudget')
          refine Together.bind
            (Schema.build_together ih _ hrefers none _ (h.asking hunknown hne)) ?_
          intro id w₁ v₁ h₁
          refine Together.bind (Recording.bindNew id (Recording.mono (Nat.le_succ count) h₁)) ?_
          exact fun _ w₂ v₂ h₂ => Bond.linkTo ref key h₂

/-! ## Documents -/

namespace Recording

variable {settings : Settings} {start : σ} {w : Workshop (Recorded σ)} {v : Workshop σ}

/-- **At rest**, between the constructions of documents, no key is at hand and no reference is looked
at. -/
abbrev Rest (settings : Settings) (start : σ) : Workshop (Recorded σ) → Workshop σ → Prop :=
  Recording settings [] start 0 []

/-- A construction that begins has as many unknown locations as there are references, or fewer. -/
theorem begun (h : Rest settings start w v) (schema : Json) :
    Recording settings (Source.references v.source schema) v.source
      (Source.references v.source schema).length [] w v where
  plain := h.plain
  named := h.named
  nodup := h.nodup
  known := h.known
  becomes := by
    rw [h.plain]
    exact .refl _
  room := Graph.card_unknown_le ..

/-- A construction that has ended is at rest. -/
theorem rest {refs : List String} {middle : σ} {count : Nat} (hbecomes : Source.Becomes start middle)
    (h : Recording settings refs middle count [] w v) : Rest settings start w v where
  plain := h.plain
  named := h.named
  nodup := h.nodup
  known := h.known
  becomes := hbecomes.trans h.becomes
  room := by simp [Graph.unknown, Settings.locations]

/-- **Building a document** keeps the record, and a larger budget makes no difference. -/
theorem build [LawfulSource σ] (hempty : Source.Withholds start "") (h : Rest settings start w v)
    {schema : Json} (name : Option String) (path : String) {budget budget' : Nat}
    (hbudget : Source.budget v.source schema ≤ budget)
    (hbudget' : Source.budget v.source schema ≤ budget') :
    Together (Rest settings start) Recording.Failed
      ((Schema.ofJson schema).build (Build.resolve settings budget) name path [] w)
      ((Schema.ofJson schema).build (Build.resolve settings budget') name path [] v) := by
  have hbecomes : Source.Becomes start v.source := by
    rw [h.plain]
    exact h.becomes
  have hlink : (bond settings (Source.references v.source schema) v.source
      (Source.references v.source schema).length).Links (· ∈ Source.references v.source schema)
      (Build.resolve settings budget) (Build.resolve settings budget') := by
    have hlength := Source.length_references_le v.source schema
    refine Build.resolve_together (hempty.becomes hbecomes) ?_ _ (hlength.trans hbudget)
      (hlength.trans hbudget')
    exact fun doc hdoc ref href =>
      List.mem_flatMap.mpr ⟨doc, List.mem_cons_of_mem _ hdoc, href⟩
  have hrefers : (Schema.ofJson schema).Refers (· ∈ Source.references v.source schema) :=
    Schema.ofJson_refers fun ref href => List.mem_flatMap.mpr ⟨schema, List.mem_cons_self .., href⟩
  have hbuild := Schema.build_together hlink _ hrefers name path (h.begun schema)
  exact hbuild.mono fun _ _ => rest hbecomes

end Recording

end

end TypeScribe
