import TypeScribe.Proofs.Chronicle
import TypeScribe.Proofs.Shelves
import Mathlib.Data.List.TakeWhile

/-!
# What failures quote

A failure is reported with the schema that it is about, and for that the schema has to be written down. It can
be, unless it holds a whole number of too many digits.

* **What is read can be written**: the reader refuses the numbers that the writer refuses
  (`Json.IsRead.isSome_write?`).
* **What is quoted was given**: it is a root, or was served as a document, or stands inside one of these
  (`Registry.parse_quotes`). So it inherits what they all have (`Json.Inherited`).
-/

namespace TypeScribe

/-! ## Writing what was read -/

namespace Json

variable {style : Style}

theorem isSome_writeItems? (items : List Json) : (writeItems? style items).isSome = true ↔
    ∀ v ∈ items, (v.write? style).isSome = true := by
  induction items with
  | nil => simp [writeItems?]
  | cons v rest ih =>
    rw [writeItems?, List.forall_mem_cons, ← ih]
    cases v.write? style <;> cases writeItems? style rest <;> simp

theorem isSome_writeFields? (fields : Entries Json) : (writeFields? style fields).isSome = true ↔
    ∀ entry ∈ fields, (entry.2.write? style).isSome = true := by
  induction fields with
  | nil => simp [writeFields?]
  | cons entry rest ih =>
    obtain ⟨key, v⟩ := entry
    rw [writeFields?, List.forall_mem_cons, ← ih]
    cases v.write? style <;> cases writeFields? style rest <;> simp

/-- A list can be written if its items can. -/
theorem isSome_write?_arr (items : List Json) : (write? style (.arr items)).isSome = true ↔
    ∀ v ∈ items, (v.write? style).isSome = true := by
  rw [write?, Option.isSome_map, isSome_writeItems?]

/-- An object can be written if its fields can. -/
theorem isSome_write?_obj (fields : Entries Json) : (write? style (.obj fields)).isSome = true ↔
    ∀ entry ∈ fields, (entry.2.write? style).isSome = true := by
  rw [write?, Option.isSome_map, isSome_writeFields?]

/-- **That it can be written** is inherited. -/
theorem inherited_isSome_write? (style : Style) : Inherited fun v => (v.write? style).isSome = true where
  item h := (isSome_write?_arr _).mp h
  field h := (isSome_write?_obj _).mp h
  typed h := (isSome_write?_obj _).mpr (by simpa using h)
  empty := (isSome_write?_obj _).mpr (by simp)

namespace Reader

open Number.Binary64 (tenPow)

theorem tenPow_mono {m n : Nat} (h : m ≤ n) : tenPow m ≤ tenPow n := Nat.pow_le_pow_right (by decide) h

/-- A row of digits stands for a number below the power of ten with as many zeros, and so does one that goes
on from a number. -/
theorem numeral_lt {ds : List Char} (h : ∀ d ∈ ds, d.isDigit = true) : numeral ds < tenPow ds.length := by
  have hfrom : ∀ n, ds.foldl (fun n d => n * 10 + (d.toNat - '0'.toNat)) n < (n + 1) * tenPow ds.length := by
    induction ds with
    | nil => simp [tenPow]
    | cons d rest ih =>
      intro n
      have hd : d.toNat - '0'.toNat ≤ 9 := by
        have hdigit := h d (List.mem_cons_self ..)
        unfold Char.isDigit at hdigit
        simp only [Bool.and_eq_true, decide_eq_true_eq, UInt32.le_iff_toNat_le] at hdigit
        have hnine : d.toNat ≤ 57 := hdigit.2
        have hzero : '0'.toNat = 48 := rfl
        omega
      calc (d :: rest).foldl (fun n d => n * 10 + (d.toNat - '0'.toNat)) n
          < (n * 10 + (d.toNat - '0'.toNat) + 1) * tenPow rest.length :=
            ih (fun e he => h e (List.mem_cons_of_mem _ he)) _
        _ ≤ ((n + 1) * 10) * tenPow rest.length := Nat.mul_le_mul_right _ (by omega)
        _ = (n + 1) * tenPow (d :: rest).length := by
          rw [List.length_cons, tenPow, tenPow, Nat.mul_assoc, Nat.mul_comm 10]
          rfl
  simpa [numeral] using hfrom 0

theorem wholePart?_digits {cs ds rest : List Char} (h : wholePart? cs = some (ds, rest)) :
    ∀ d ∈ ds, d.isDigit = true := by
  unfold wholePart? at h
  split at h
  · cases h
    simp
  · split at h
    · rw [digits, List.span_eq_takeWhile_dropWhile] at h
      cases h
      exact fun d hd => List.mem_takeWhile_imp hd
    · cases h
  · cases h

/-- **A number that is read** can be written: a whole one has no more digits than it may have. -/
theorem number_written {negative : Bool} {start cs rest : List Char} {v : Json}
    (h : number negative start cs = .ok (v, rest)) : (v.write? style).isSome = true := by
  rw [number] at h
  cases hwhole : wholePart? cs with
  | none =>
    rw [hwhole] at h
    cases h
  | some found =>
    obtain ⟨ds, more⟩ := found
    rw [hwhole] at h
    dsimp only at h
    split at h
    · split at h
      · cases h
      · rename_i hlimit
        cases h
        have hshort : numeral ds < tenPow numeralLimit :=
          Nat.lt_of_lt_of_le (numeral_lt (wholePart?_digits hwhole))
            (tenPow_mono (Nat.not_lt.mp hlimit))
        have hfits : isShort (if negative then -(numeral ds : Int) else numeral ds) = true := by
          rw [isShort, decide_eq_true_eq]
          cases negative <;> simpa using hshort
        rw [wholeNumber, write?, if_pos hfits]
        rfl
    · cases h
      rfl

/-- A scalar can be written, as no numeral of a text is too long. -/
theorem scalar_written {cs rest : List Char} {v : Json} (h : scalar cs = .ok (v, rest)) :
    (v.write? style).isSome = true := by
  unfold scalar at h
  split at h
  · rename_i done hdone
    cases h
    obtain ⟨⟨word, value⟩, hword, hvalue⟩ := List.exists_of_findSome?_eq_some hdone
    obtain ⟨behind, -, heq⟩ := Option.map_eq_some_iff.mp hvalue
    obtain ⟨rfl, -⟩ := Prod.mk.inj heq
    have hall : ∀ entry ∈ words, (entry.2.write? style).isSome = true := by
      simp [words, write?]
    exact hall _ hword
  · split at h <;> exact number_written h

mutual

/-- **What is read can be written.** -/
theorem value_written (fuel : Nat) {cs rest : List Char} {v : Json} (h : value fuel cs = .ok (v, rest)) :
    (v.write? style).isSome = true := by
  match fuel with
  | 0 =>
    rw [value] at h
    cases h
  | fuel + 1 =>
    unfold value at h
    split at h
    · rename_i more
      cases hstring : string ('"' :: more) fuel [] more with
      | error stop =>
        rw [hstring] at h
        cases h
      | ok found =>
        rw [hstring] at h
        cases h
        rfl
    · split at h
      · cases h
        exact (isSome_write?_arr _).mpr (by simp)
      · exact items_written fuel (by simp) h
    · split at h
      · cases h
        exact (isSome_write?_obj _).mpr (by simp)
      · exact fields_written fuel (by simp) h
    · exact scalar_written h

/-- An array can be written if the items read so far can. -/
theorem items_written (fuel : Nat) {done : List Json} {cs rest : List Char} {v : Json}
    (hdone : ∀ item ∈ done, (item.write? style).isSome = true) (h : items fuel done cs = .ok (v, rest)) :
    (v.write? style).isSome = true := by
  match fuel with
  | 0 =>
    rw [items] at h
    cases h
  | fuel + 1 =>
    rw [items] at h
    cases hvalue : value fuel cs with
    | error stop =>
      rw [hvalue] at h
      cases h
    | ok found =>
      obtain ⟨item, more⟩ := found
      have hitem := value_written fuel hvalue
      have hnext : ∀ w ∈ item :: done, (w.write? style).isSome = true :=
        List.forall_mem_cons.mpr ⟨hitem, hdone⟩
      rw [hvalue] at h
      dsimp only at h
      split at h
      · cases h
        exact (isSome_write?_arr _).mpr fun w hw => hnext w (List.mem_reverse.mp hw)
      · exact items_written fuel hnext h
      · cases h

/-- An object can be written if the values read so far can. -/
theorem fields_written (fuel : Nat) {done : Entries Json} {cs rest : List Char} {v : Json}
    (hdone : ∀ entry ∈ done, (entry.2.write? style).isSome = true)
    (h : fields fuel done cs = .ok (v, rest)) : (v.write? style).isSome = true := by
  match fuel with
  | 0 =>
    rw [fields] at h
    cases h
  | fuel + 1 =>
    unfold fields at h
    split at h
    · split at h
      · cases h
      · rename_i key _ _
        split at h
        · split at h
          · cases h
          · rename_i field more hvalue
            have hfield := value_written fuel hvalue
            have hnext : ∀ entry ∈ done.insert key field, (entry.2.write? style).isSome = true := by
              intro entry hentry
              rcases Table.mem_insert hentry with rfl | hold
              · exact hfield
              · exact hdone entry hold
            split at h
            · cases h
              exact (isSome_write?_obj _).mpr hnext
            · exact fields_written fuel hnext h
            · cases h
        · cases h
    · cases h

end

end Reader

/-- **JSON values** are the values that texts are read as. -/
def IsRead (v : Json) : Prop := ∃ text, ofText text = .ok v

/-- **What is read can be written.** -/
theorem IsRead.isSome_write? {v : Json} (h : v.IsRead) : (v.write? style).isSome = true := by
  obtain ⟨text, htext⟩ := h
  rw [ofText] at htext
  cases hdocument : Reader.document text with
  | error stop =>
    rw [hdocument] at htext
    cases htext
  | ok found =>
    rw [hdocument] at htext
    cases htext
    rw [Reader.document] at hdocument
    split at hdocument
    · cases hdocument
    · split at hdocument
      · cases hdocument
      · rename_i hvalue
        split at hdocument
        · cases hdocument
          exact Reader.value_written _ hvalue
        · cases hdocument

end Json

/-! ## Quoting -/

theorem LoadFault.quoted?_failure (fault : LoadFault) (location : String) :
    (fault.failure location).quoted? = none := by
  unfold LoadFault.failure
  split <;> rfl

/-- **A step that quotes with care**: it leaves a good state, or fails and quotes nothing but a source with a
property. -/
inductive Quoting {S α : Type} (doc : Json → Prop) (good : S → Prop) : EStateM.Result Failure S α → Prop where
  | ok {a : α} {s : S} (left : good s) : Quoting doc good (.ok a s)
  | error {failure : Failure} {s : S} (quotes : ∀ source, failure.quoted? = some source → doc source) :
      Quoting doc good (.error failure s)

namespace Quoting

variable {S α β : Type} {doc : Json → Prop} {good : S → Prop} {s : S} {failure : Failure}

/-- Steps one after the other quote what both of them may. -/
theorem bind {m : EStateM Failure S α} {k : α → EStateM Failure S β} (hm : Quoting doc good (m s))
    (hk : ∀ a s', good s' → Quoting doc good (k a s')) : Quoting doc good ((m >>= k) s) := by
  rw [bind_apply]
  generalize m s = result at hm
  cases hm with
  | ok left => exact hk _ _ left
  | error quotes => exact .error quotes

/-- A failure quotes one source at most. -/
theorem source {found : Json} (hquoted : failure.quoted? = some found) (hfound : doc found) :
    Quoting doc good (.error failure s : EStateM.Result Failure S α) := by
  refine .error ?_
  intro source hsource
  rw [hquoted] at hsource
  cases hsource
  exact hfound

/-- A failure that quotes nothing is careful enough. -/
theorem nothing (hquoted : failure.quoted? = none) :
    Quoting doc good (.error failure s : EStateM.Result Failure S α) := by
  refine .error ?_
  intro source hsource
  rw [hquoted] at hsource
  cases hsource

end Quoting

section

variable {σ : Type} [Source σ] {doc : Json → Prop} {start : σ} {link : String → Build σ Link}
  {w : Workshop σ}

/-- A source **serves** documents with a property only. -/
def Source.Serves (doc : Json → Prop) (s : σ) : Prop :=
  ∀ t, Becomes s t → ∀ location fields, (Source.load t location).result = .ok fields → doc (.obj fields)

/-- A state of construction in which every node is made of a source with a property. -/
structure Workshop.Sourced (doc : Json → Prop) (start : σ) (w : Workshop σ) : Prop where
  becomes : Source.Becomes start w.source
  labels : ∀ label ∈ w.graph.labels, doc label.source

namespace Workshop.Sourced

theorem source (h : w.Sourced doc start) {id : NodeId} {node : Node} (hnode : w.graph.node? id = some node) :
    doc node.source := by
  refine h.labels node.label (List.mem_of_getElem? (i := id) ?_)
  rw [Graph.getElem?_labels, hnode]
  rfl

/-- A new node is made of the source of its fragment. -/
theorem enter (h : w.Sourced doc start) {facts : Facts} (hsource : doc facts.source) (body : Body)
    (groups : List Group) (name : Option String) (path : String) (keys : List String) :
    (w.enter (Schema.node facts body groups name path) path keys).Sourced doc start := by
  refine ⟨h.becomes, ?_⟩
  intro label hlabel
  have hlabel : label ∈ (w.graph.push (Schema.node facts body groups name path)).labels := by
    simpa [Workshop.enter, Workshop.update, Graph.labels] using hlabel
  rw [Graph.labels_push, List.mem_append, List.mem_singleton] at hlabel
  rcases hlabel with hlabel | rfl
  · exact h.labels label hlabel
  · exact hsource

/-- Nothing but the labels matters. -/
theorem onGraph (h : w.Sourced doc start) {f : Graph → Graph} (hf : (f w.graph).labels = w.graph.labels) :
    Quoting doc (Workshop.Sourced doc start) (Build.onGraph f w) := by
  rw [Build.onGraph_apply]
  exact .ok ⟨h.becomes, fun label hlabel => h.labels label (hf ▸ hlabel)⟩

theorem reshape (h : w.Sourced doc start) (id : NodeId) (shape : Shape) :
    Quoting doc (Workshop.Sourced doc start) (Build.reshape id shape w) :=
  h.onGraph (Graph.labels_adjust _ id fun _ => rfl)

theorem addField (h : w.Sourced doc start) (id : NodeId) (field : Field) :
    Quoting doc (Workshop.Sourced doc start) (Build.addField id field w) := by
  refine h.onGraph (Graph.labels_adjust _ id fun node => ?_)
  split <;> rfl

theorem augment (h : w.Sourced doc start) (id : NodeId) (augmentations : List Augmentation) :
    Quoting doc (Workshop.Sourced doc start) (Build.augment id augmentations w) :=
  h.onGraph (Graph.labels_adjust _ id fun _ => rfl)

theorem bindNew (h : w.Sourced doc start) (key : String) (id : NodeId) :
    Quoting doc (Workshop.Sourced doc start) (Build.bindNew key id w) := by
  refine h.onGraph ?_
  split <;> rfl

/-- **A link to a node without a name** fails, and quotes the source of the node. -/
theorem linkTo (h : w.Sourced doc start) (ref key : String) :
    Quoting doc (Workshop.Sourced doc start) (Build.linkTo ref key w) := by
  rw [Build.linkTo_eq]
  cases hfind : w.graph.find? key with
  | none => exact .nothing rfl
  | some id =>
    cases hnode : w.graph.node? id with
    | none =>
      simp only [hnode]
      exact .nothing rfl
    | some node =>
      simp only [hnode]
      split
      · exact .source rfl (h.source hnode)
      · exact .ok h

end Workshop.Sourced

/-- **What is asked of resolving references**: it quotes with care. -/
def Build.Quotes (doc : Json → Prop) (start : σ) (link : String → Build σ Link) : Prop :=
  ∀ ref {w : Workshop σ}, w.Sourced doc start → Quoting doc (Workshop.Sourced doc start) (link ref w)

mutual

/-- **Building a fragment** quotes nothing but the sources of the schema, and those of nodes. -/
theorem Schema.build_quotes (hlink : Build.Quotes doc start link) (s : Schema) (hs : s.Sourced doc)
    (name : Option String) (path : String) (keys : List String) {w : Workshop σ} (h : w.Sourced doc start) :
    Quoting doc (Workshop.Sourced doc start) (s.build link name path keys w) := by
  cases hknown : s.facts.id.bind w.graph.find? with
  | some id =>
    rw [Schema.build_known s hknown]
    exact .ok h
  | none =>
    cases hs with
    | @unsupported facts own =>
      rw [Schema.build_unsupported (show facts.id.bind w.graph.find? = none from hknown)]
      exact .source rfl own
    | @fragment facts body groups own hparts hmembers =>
      rw [Schema.build_new (show facts.id.bind w.graph.find? = none from hknown), Schema.fill]
      refine (Body.build_quotes hlink body hparts _ own name path
        (h.enter own body groups name path _)).bind ?_
      intro _ w h
      refine (Group.buildAll_quotes hlink groups hmembers own path h).bind ?_
      intro augmentations w h
      exact (h.augment _ augmentations).bind fun _ _ h => .ok h

/-- Building a body quotes its own fragment, or one of its parts. -/
theorem Body.build_quotes (hlink : Build.Quotes doc start link) (body : Body)
    (hparts : ∀ s ∈ body.parts, s.Sourced doc) (id : NodeId) {facts : Facts} (hsource : doc facts.source)
    (name : Option String) (path : String) {w : Workshop σ} (h : w.Sourced doc start) :
    Quoting doc (Workshop.Sourced doc start) (body.build link id facts name path w) := by
  match body with
  | .scalar _ | .composite => exact .ok h
  | .broken defect => exact .nothing (by cases defect <;> rfl)
  | .reference none => exact .source rfl hsource
  | .choice alternatives =>
    refine (Schema.buildAll_quotes hlink alternatives hparts _ _ h).bind ?_
    exact fun ids w h => h.reshape id _
  | .array items =>
    have hitems := hparts items (List.mem_singleton_self items)
    refine (Schema.build_quotes hlink items hitems name _ _ h).bind ?_
    exact fun item w h => h.reshape id _
  | .object required properties =>
    refine Body.buildFields_quotes hlink properties ?_ required id path h
    exact fun p hp => hparts p.2 (List.mem_map_of_mem hp)
  | .reference (some ref) =>
    refine (hlink ref h).bind ?_
    exact fun l w h => h.reshape id _

theorem Body.buildFields_quotes (hlink : Build.Quotes doc start link) (properties : List (String × Schema))
    (hp : ∀ p ∈ properties, p.2.Sourced doc) (required : List String) (id : NodeId) (path : String)
    {w : Workshop σ} (h : w.Sourced doc start) :
    Quoting doc (Workshop.Sourced doc start) (Body.buildFields link required properties id path w) := by
  match properties with
  | [] => exact .ok h
  | (name, schema) :: rest =>
    refine (Schema.build_quotes hlink schema (hp _ (List.mem_cons_self ..)) _ _ _ h).bind ?_
    intro type w h
    refine (h.addField id _).bind ?_
    intro _ w h
    exact Body.buildFields_quotes hlink rest (fun p hmem => hp p (List.mem_cons_of_mem _ hmem)) required id
      path h

theorem Schema.buildAll_quotes (hlink : Build.Quotes doc start link) (schemas : List Schema)
    (hs : ∀ s ∈ schemas, s.Sourced doc) (path : String) (index : Nat) {w : Workshop σ}
    (h : w.Sourced doc start) :
    Quoting doc (Workshop.Sourced doc start) (Schema.buildAll link schemas path index w) := by
  match schemas with
  | [] => exact .ok h
  | schema :: rest =>
    refine (Schema.build_quotes hlink schema (hs schema (List.mem_cons_self ..)) none _ _ h).bind ?_
    intro id w h
    exact (Schema.buildAll_quotes hlink rest (fun s hmem => hs s (List.mem_cons_of_mem _ hmem)) path
      (index + 1) h).bind fun _ _ h => .ok h

theorem Group.buildAll_quotes (hlink : Build.Quotes doc start link) (groups : List Group)
    (hg : ∀ group ∈ groups, ∀ s ∈ group.parts, s.Sourced doc) {facts : Facts} (hsource : doc facts.source)
    (path : String) {w : Workshop σ} (h : w.Sourced doc start) :
    Quoting doc (Workshop.Sourced doc start) (Group.buildAll link groups facts path w) := by
  match groups with
  | [] => exact .ok h
  | .malformed _ :: _ => exact .source rfl hsource
  | .members keyword schemas :: rest =>
    have hschemas := hg (.members keyword schemas) (List.mem_cons_self ..)
    refine (Schema.buildAll_quotes hlink schemas hschemas _ _ h).bind ?_
    intro members w h
    exact (Group.buildAll_quotes hlink rest (fun group hmem => hg group (List.mem_cons_of_mem _ hmem)) hsource
      path h).bind fun _ _ h => .ok h

end

variable (hdoc : Json.Inherited doc) (hserves : Source.Serves doc start)
include hdoc hserves

/-- **Resolving references** quotes with care, if all documents that are served have the property. -/
theorem Build.resolve_quotes (settings : Settings) (budget : Nat) :
    Quotes doc start (resolve (σ := σ) settings budget) := by
  intro ref w h
  cases hkey : w.graph.keyOf settings ref with
  | error failure =>
    rw [resolve_failed budget hkey]
    obtain ⟨rfl, -⟩ := Settings.locate_error (locate_of_keyOf hkey)
    exact .nothing rfl
  | ok key =>
    cases hknown : w.graph.knows key with
    | true =>
      rw [resolve_known budget hkey hknown]
      exact h.linkTo ref key
    | false =>
      match budget with
      | 0 =>
        rw [resolve_endless hkey hknown]
        exact .nothing rfl
      | budget + 1 =>
        rw [resolve_new budget hkey hknown]
        have hasked : (w.asking ref key).Sourced doc start := ⟨h.becomes.load key, h.labels⟩
        cases hload : (Source.load w.source key).result with
        | error fault => exact .nothing (fault.quoted?_failure key)
        | ok fields =>
          have hdocument := Schema.ofJson_sourced hdoc (hserves _ h.becomes key fields hload)
          refine (Schema.build_quotes (resolve_quotes settings budget) _ hdocument none _ _ hasked).bind ?_
          intro id w h
          refine (h.bindNew key id).bind ?_
          exact fun _ w h => h.linkTo ref key

namespace Registry

/-- **Building roots in turn** quotes with care, if the roots have the property, too. -/
theorem buildRoots_quotes (roots : List Json) (hroots : ∀ v ∈ roots, doc v) :
    ∀ {r : Registry σ}, r.workshop.Sourced doc start →
      Quoting doc (fun r => r.workshop.Sourced doc start) (buildRoots roots r) := by
  induction roots with
  | nil => exact fun h => .ok h
  | cons schema rest ih =>
    intro r h
    have hschema := hroots schema (List.mem_cons_self ..)
    have hroot : Quoting doc (Workshop.Sourced doc start)
        (Build.root r.settings schema none "#" [] r.workshop) :=
      Schema.build_quotes (Build.resolve_quotes hdoc hserves r.settings _) _
        (Schema.ofJson_sourced hdoc hschema) none "#" [] h
    rw [buildRoots_apply]
    generalize Build.root r.settings schema none "#" [] r.workshop = built at hroot
    cases hroot with
    | error quotes => exact .error quotes
    | @ok id w sourced =>
      cases hnode : w.graph.node? id with
      | none =>
        simp only [hnode]
        exact .nothing rfl
      | some node =>
        simp only [hnode]
        split
        · exact .source rfl hschema
        · exact (ih (fun v hv => hroots v (List.mem_cons_of_mem _ hv)) sourced).bind fun _ _ h => .ok h

end Registry

end

/-- **What a compilation quotes** when it fails inherits what the roots and all documents that are served
have. -/
theorem Registry.parse_quotes {σ : Type} [Source σ] {doc : Json → Prop} {r r' : Registry σ} {failure : Failure}
    (hf : r.Fresh) (hdoc : Json.Inherited doc) (hroots : ∀ v ∈ r.pending, doc v)
    (hserves : Source.Serves doc r.workshop.source) (h : parse r = .error failure r') {source : Json}
    (hquoted : failure.quoted? = some source) : doc source := by
  have hstart : r.workshop.Sourced doc r.workshop.source := by
    refine ⟨.refl _, ?_⟩
    rw [show r.workshop.graph = {} from hf.graph]
    simp [Graph.labels]
  have hbuilt := buildRoots_quotes hdoc hserves r.pending hroots hstart
  rcases parse_fails hf h with ⟨r₁, hbuild, -⟩ | ⟨ids, r₁, hbuild, -, hfault⟩
  · rw [hbuild] at hbuilt
    cases hbuilt with
    | error quotes => exact quotes source hquoted
  · rw [hbuild] at hbuilt
    cases hbuilt with
    | ok sourced =>
      cases hfault with
      | back _ _ target =>
        cases hquoted
        exact sourced.source target
      | indent => cases hquoted

end TypeScribe
