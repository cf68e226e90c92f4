import TypeScribe.Schema.Basic
import Mathlib.Data.List.Basic

/-!
# Schemas as they are read

What holds of every fragment that is assembled from parts of which it holds, holds of every schema that
is read off a document (`Schema.Readable.ofJson`). It may depend on what holds of the document and of all that
is inside it (`Json.Inherited`). Four such properties are used:

* A schema is **orderly** when, at every depth, the groups of a fragment stand in the order in which
  their keywords take effect, and no keyword has two groups. A tree of schemas need not be orderly; a
  schema that is read off a document is (`Schema.ofJson_orderly`), because its groups are collected
  keyword by keyword.
* The references of a schema, at every depth, are among the references of its document, and its
  fragments are **assembled** from the fields of objects (`Schema.ofJson_refers`).
* A schema is **faithful** when, at every depth, a fragment says about itself what the fields of an object
  say, and is broken only if these fields are of the wrong form (`Schema.ofJson_faithful`).
* The **sources** of a schema, at every depth, have what its document has (`Schema.ofJson_sourced`).
-/

namespace TypeScribe

/-- A value that a table gives stands in the table. -/
theorem Table.mem_of_get? {κ α : Type} [DecidableEq κ] {table : Table κ α} {key : κ} {value : α}
    (h : table.get? key = some value) : (key, value) ∈ table := by
  induction table with
  | nil => cases h
  | cons entry rest ih =>
    obtain ⟨k, v⟩ := entry
    rw [get?_cons] at h
    split at h
    · rename_i hk
      obtain rfl := hk
      obtain rfl : v = value := Option.some.inj h
      exact List.mem_cons_self ..
    · exact List.mem_cons_of_mem _ (ih h)

/-- A text that is not empty. -/
theorem Json.filledText?_eq_some {v : Json} {s : String} :
    v.filledText? = some s ↔ v.text? = some s ∧ s ≠ "" := by
  cases v with
  | str text =>
    by_cases htext : text = ""
    · simp only [filledText?, text?, htext, if_true]
      constructor
      · rintro ⟨⟩
      · rintro ⟨⟨⟩, hne⟩
        exact absurd rfl hne
    · simp only [filledText?, text?, htext, if_false, Option.some.injEq]
      constructor
      · rintro rfl
        exact ⟨rfl, htext⟩
      · rintro ⟨rfl, -⟩
        rfl
  | null | bool | int | real | arr | obj => simp [filledText?, text?]

/-- A text that fields have under a key is among the texts under that key. -/
theorem Json.mem_textsUnderFields {fields : Entries Json} {key text : String}
    (h : (fields.get? key).bind Json.text? = some text) : text ∈ textsUnderFields key fields := by
  obtain ⟨v, hget, htext⟩ := Option.bind_eq_some_iff.mp h
  have hmem := Table.mem_of_get? hget
  clear h hget
  induction fields with
  | nil => cases hmem
  | cons entry rest ih =>
    obtain ⟨k, value⟩ := entry
    rw [textsUnderFields]
    rcases List.mem_cons.mp hmem with heq | hmem
    · obtain ⟨rfl, rfl⟩ := Prod.mk.inj heq
      simp [htext]
    · exact List.mem_append_right _ (ih hmem)

/-- The texts inside an item of a list are among those inside the list. -/
theorem Json.textsUnder_subset_items {key : String} {v : Json} {items : List Json} (hv : v ∈ items) :
    v.textsUnder key ⊆ textsUnderItems key items := by
  induction items with
  | nil => cases hv
  | cons item rest ih =>
    rw [textsUnderItems]
    rcases List.mem_cons.mp hv with rfl | hv
    · exact List.subset_append_left ..
    · exact List.Subset.trans (ih hv) (List.subset_append_right ..)

/-- The texts inside the value of a field are among those inside the fields. -/
theorem Json.textsUnder_subset_fields {key : String} {entry : String × Json} {fields : Entries Json}
    (h : entry ∈ fields) : entry.2.textsUnder key ⊆ textsUnderFields key fields := by
  induction fields with
  | nil => cases h
  | cons first rest ih =>
    obtain ⟨k, v⟩ := first
    rw [textsUnderFields]
    rcases List.mem_cons.mp h with rfl | h
    · exact List.Subset.trans (List.subset_append_right ..) (List.subset_append_left ..)
    · exact List.Subset.trans (ih h) (List.subset_append_right ..)

/-- **Properties of documents** that are inherited by what is inside them, and by the objects that a schema
makes of it: one with a type alone, and one without fields. -/
structure Json.Inherited (doc : Json → Prop) : Prop where
  item : ∀ {items : List Json}, doc (.arr items) → ∀ v ∈ items, doc v
  field : ∀ {fields : Entries Json}, doc (.obj fields) → ∀ entry ∈ fields, doc entry.2
  typed : ∀ {v : Json}, doc v → doc (.obj [("type", v)])
  empty : doc (.obj [])

theorem Json.inherited_true : Inherited fun _ => True :=
  ⟨fun _ _ _ => trivial, fun _ _ _ => trivial, fun _ => trivial, trivial⟩

/-- **What is said under keys** other than that of the type is inherited. -/
theorem Json.inherited_said (said : String → String → Prop) :
    Inherited fun v => ∀ key, key ≠ "type" → ∀ text ∈ v.textsUnder key, said key text where
  item h v hv key hkey text htext := h key hkey text (textsUnder_subset_items hv htext)
  field h entry hentry key hkey text htext := h key hkey text (textsUnder_subset_fields hentry htext)
  typed {v} h key hkey text htext := by
    refine h key hkey text ?_
    simpa [textsUnder, textsUnderFields, hkey.symm] using htext
  empty key _ text htext := by simp [textsUnder, textsUnderFields] at htext

/-- The keyword of a group. -/
def Group.keyword : Group → Keyword
  | .members keyword _ => keyword
  | .malformed keyword => keyword

mutual

/-- **Orderly schemas.** -/
inductive Schema.Orderly : Schema → Prop where
  | unsupported (facts : Facts) : Schema.Orderly (.unsupported facts)
  | fragment (facts : Facts) {body : Body} {groups : List Group} (inside : Body.Orderly body)
      (keywords : (groups.map Group.keyword).Sublist Keyword.all)
      (members : ∀ group ∈ groups, Group.Orderly group) :
      Schema.Orderly (.fragment facts body groups)

/-- Bodies all of whose parts are orderly. -/
inductive Body.Orderly : Body → Prop where
  | scalar (s : Scalar) : Body.Orderly (.scalar s)
  | choice {alternatives : List Schema} (parts : ∀ s ∈ alternatives, Schema.Orderly s) :
      Body.Orderly (.choice alternatives)
  | array {items : Schema} (part : Schema.Orderly items) : Body.Orderly (.array items)
  | object (required : List String) {properties : List (String × Schema)}
      (parts : ∀ p ∈ properties, Schema.Orderly p.2) : Body.Orderly (.object required properties)
  | broken (defect : Defect) : Body.Orderly (.broken defect)
  | composite : Body.Orderly .composite
  | reference (ref : Option String) : Body.Orderly (.reference ref)

/-- Groups all of whose members are orderly. -/
inductive Group.Orderly : Group → Prop where
  | members (keyword : Keyword) {schemas : List Schema} (parts : ∀ s ∈ schemas, Schema.Orderly s) :
      Group.Orderly (.members keyword schemas)
  | malformed (keyword : Keyword) : Group.Orderly (.malformed keyword)

end

/-- The schemas right inside a body. -/
def Body.parts : Body → List Schema
  | .choice alternatives => alternatives
  | .array items => [items]
  | .object _ properties => properties.map Prod.snd
  | _ => []

/-- The schemas right inside a group. -/
def Group.parts : Group → List Schema
  | .members _ schemas => schemas
  | .malformed _ => []

/-- All schemas of a part, in every role, have a property, and it can play the role of properties if its
value is an object. -/
structure Part.All (P : Schema → Prop) (part : Part) : Prop where
  role : part.properties.isSome = part.value.fields?.isSome
  fragment : P part.fragment
  members : ∀ schemas, part.members = some schemas → ∀ s ∈ schemas, P s
  entries : ∀ schemas, part.entries = some schemas → ∀ s ∈ schemas, P s
  properties : ∀ fields, part.properties = some fields → ∀ p ∈ fields, P p.2

/-- A part is orderly in every role. -/
abbrev Part.Orderly (part : Part) : Prop := part.All Schema.Orderly

namespace Schema

variable {P : Schema → Prop} {doc : Json → Prop} {fields : Entries Json} {parts : Entries Part}

/-! ## Reading -/

/-- **Properties that can be read off a document**: a fragment has the property if all its parts have, which
are parts of the values of its fields, and the object that it is made of has what the document has. -/
structure Readable (P : Schema → Prop) (doc : Json → Prop) : Prop where
  inherited : Json.Inherited doc
  unsupported : ∀ {facts : Facts}, doc facts.source → P (.unsupported facts)
  assemble : ∀ {fields : Entries Json} {parts : Entries Part}, doc (.obj fields) →
    (∀ key, (parts.get? key).map Part.value = fields.get? key) →
    (∀ entry ∈ parts, entry.2.All P) → P (Schema.assemble fields parts)

/-- What was read is kept as it was. -/
theorem value_read (v : Json) : (read v).value = v := by
  cases v <;> rfl

/-- The parts of the fields of an object are parts of their values. -/
theorem value_readFields (fields : Entries Json) (key : String) :
    (Table.get? ((readFields fields).map fun r => (r.1, r.2.toPart)) key).map Part.value =
      fields.get? key := by
  induction fields with
  | nil => rfl
  | cons entry rest ih =>
    obtain ⟨k, v⟩ := entry
    rw [readFields, List.map_cons, Table.get?_cons, Table.get?_cons]
    split
    · rw [Option.map_some, value_read]
    · exact ih

namespace Readable

/-- A reading has the property if its part has: the entry is assembled from nothing else. -/
theorem complete (h : Readable P doc) {part : Part} (hvalue : doc part.value) (hpart : part.All P) :
    (Schema.complete part).toPart.All P ∧ P (Schema.complete part).entry := by
  refine ⟨hpart, h.assemble (h.inherited.typed hvalue) ?_ ?_⟩
  · intro key
    rw [Table.get?_cons, Table.get?_cons]
    split <;> rfl
  · intro entry hentry
    obtain rfl : entry = ("type", part) := by simpa using hentry
    exact hpart

mutual

/-- A property that reading preserves holds of everything read from a document. -/
theorem read (h : Readable P doc) (v : Json) (hv : doc v) :
    (Schema.read v).toPart.All P ∧ P (Schema.read v).entry := by
  match v with
  | .arr items =>
    have ih := h.readItems items (h.inherited.item hv)
    refine h.complete hv ⟨rfl, h.unsupported hv, ?_, ?_, by simp⟩
    · rintro schemas ⟨⟩ s hs
      obtain ⟨r, hr, rfl⟩ := List.mem_map.mp hs
      exact (ih r hr).1.fragment
    · rintro schemas ⟨⟩ s hs
      obtain ⟨r, hr, rfl⟩ := List.mem_map.mp hs
      exact (ih r hr).2
  | .obj fields =>
    have ih := h.readFields fields (h.inherited.field hv)
    refine h.complete hv ⟨rfl, h.assemble hv (value_readFields fields) ?_, by simp, by simp, ?_⟩
    · intro entry hentry
      obtain ⟨r, hr, rfl⟩ := List.mem_map.mp hentry
      exact ih r hr
    · rintro properties ⟨⟩ p hp
      obtain ⟨r, hr, rfl⟩ := List.mem_map.mp hp
      exact (ih r hr).fragment
  | .null | .bool _ | .int _ | .real _ | .str _ =>
    exact h.complete hv ⟨rfl, h.unsupported hv, by simp, by simp, by simp⟩

theorem readItems (h : Readable P doc) (items : List Json) (hv : ∀ v ∈ items, doc v) :
    ∀ r ∈ Schema.readItems items, r.toPart.All P ∧ P r.entry := by
  match items with
  | [] => simp [Schema.readItems]
  | v :: rest =>
    have hone := h.read v (hv v (List.mem_cons_self ..))
    have hrest := h.readItems rest fun w hw => hv w (List.mem_cons_of_mem _ hw)
    rw [Schema.readItems]
    intro r hr
    rcases List.mem_cons.mp hr with rfl | hr
    · exact hone
    · exact hrest r hr

theorem readFields (h : Readable P doc) (fields : List (String × Json))
    (hv : ∀ entry ∈ fields, doc entry.2) : ∀ r ∈ Schema.readFields fields, r.2.toPart.All P := by
  match fields with
  | [] => simp [Schema.readFields]
  | (key, v) :: rest =>
    have hone := h.read v (hv (key, v) (List.mem_cons_self ..))
    have hrest := h.readFields rest fun entry hentry => hv entry (List.mem_cons_of_mem _ hentry)
    rw [Schema.readFields]
    intro r hr
    rcases List.mem_cons.mp hr with rfl | hr
    · exact hone.1
    · exact hrest r hr

end

/-- **A schema that is read off a document** has the property. -/
theorem ofJson (h : Readable P doc) {v : Json} (hv : doc v) : P (Schema.ofJson v) :=
  (h.read v hv).1.fragment

end Readable

/-- What stands right inside a body is a fragment, an entry or a property of some part. -/
theorem parts_bodyOf (hempty : P empty) (kind : Kind)
    (hparts : ∀ entry ∈ parts, entry.2.All P) : ∀ s ∈ (bodyOf kind fields parts).parts, P s := by
  cases kind with
  | scalar s => simp [bodyOf, Body.parts]
  | composite => simp [bodyOf, Body.parts]
  | reference => simp [bodyOf, Body.parts]
  | choice =>
    cases hpart : parts.get? "type" with
    | none => simp [bodyOf, Body.parts, hpart]
    | some part =>
      cases hentries : part.entries with
      | none => simp [bodyOf, Body.parts, hpart, hentries]
      | some schemas =>
        simpa [bodyOf, Body.parts, hpart, hentries] using
          (hparts _ (Table.mem_of_get? hpart)).entries schemas hentries
  | array =>
    cases hpart : parts.get? "items" with
    | none => simpa [bodyOf, Body.parts, hpart] using hempty
    | some part =>
      simpa [bodyOf, Body.parts, hpart] using (hparts _ (Table.mem_of_get? hpart)).fragment
  | object =>
    rw [bodyOf, objectBody]
    split
    · simp [Body.parts]
    · split
      · simp [Body.parts]
      · rename_i part hpart
        split
        · simp [Body.parts]
        · rename_i properties hproperties
          intro s hs
          obtain ⟨p, hp, rfl⟩ := List.mem_map.mp hs
          exact (hparts _ (Table.mem_of_get? hpart)).properties properties hproperties p hp

/-- What stands right inside a group is a member of some part. -/
theorem parts_groupsOf (hparts : ∀ entry ∈ parts, entry.2.All P) :
    ∀ group ∈ groupsOf parts, ∀ s ∈ group.parts, P s := by
  intro group hgroup
  obtain ⟨keyword, -, hkeyword⟩ := List.mem_filterMap.mp hgroup
  obtain ⟨part, hpart, rfl⟩ := Option.map_eq_some_iff.mp hkeyword
  cases hmembers : part.members with
  | none => simp [Group.parts]
  | some schemas => exact (hparts _ (Table.mem_of_get? hpart)).members schemas hmembers

end Schema

/-! ## Order -/

theorem Body.orderly {body : Body} (h : ∀ s ∈ body.parts, s.Orderly) : body.Orderly := by
  cases body with
  | scalar s => exact .scalar s
  | composite => exact .composite
  | reference ref => exact .reference ref
  | broken defect => exact .broken defect
  | choice alternatives => exact .choice h
  | array items => exact .array (h items (List.mem_singleton_self items))
  | object required properties =>
    exact .object required fun p hp => h p.2 (List.mem_map.mpr ⟨p, hp, rfl⟩)

theorem Group.orderly {group : Group} (h : ∀ s ∈ group.parts, s.Orderly) : group.Orderly := by
  cases group with
  | members keyword schemas => exact .members keyword h
  | malformed keyword => exact .malformed keyword

namespace Schema

variable {fields : Entries Json} {parts : Entries Part}

/-- Groups collected keyword by keyword stand in the order of the keywords. -/
theorem keywords_filterMap (f : Keyword → Option Group)
    (hf : ∀ keyword group, f keyword = some group → group.keyword = keyword) (keywords : List Keyword) :
    ((keywords.filterMap f).map Group.keyword).Sublist keywords := by
  induction keywords with
  | nil => exact List.Sublist.refl _
  | cons keyword rest ih =>
    cases hk : f keyword with
    | none =>
      rw [List.filterMap_cons_none hk]
      exact ih.cons keyword
    | some group =>
      rw [List.filterMap_cons_some hk, List.map_cons, hf keyword group hk]
      exact ih.cons_cons keyword

/-- Composition groups stand in the order of the keywords, each at most once. -/
theorem keywords_groupsOf (parts : Entries Part) :
    ((groupsOf parts).map Group.keyword).Sublist Keyword.all := by
  refine keywords_filterMap _ ?_ _
  intro keyword group h
  obtain ⟨part, -, rfl⟩ := Option.map_eq_some_iff.mp h
  cases part.members <;> rfl

theorem assemble_orderly (h : ∀ entry ∈ parts, entry.2.Orderly) :
    (assemble fields parts).Orderly := by
  rw [assemble]
  split
  · exact .unsupported _
  · exact .fragment _ (Body.orderly (parts_bodyOf (.unsupported _) _ h)) (keywords_groupsOf parts)
      fun group hgroup => Group.orderly (parts_groupsOf h group hgroup)

/-- **The schema of a document is orderly.** -/
theorem ofJson_orderly (v : Json) : (ofJson v).Orderly := by
  have hreadable : Readable Schema.Orderly fun _ => True :=
    ⟨Json.inherited_true, fun _ => .unsupported _, fun _ _ => assemble_orderly⟩
  exact hreadable.ofJson trivial

/-! ## References -/

end Schema

/-- **Assembled fragments**: what they consist of is made of the fields of an object, which is of some kind,
and of the parts of the values of these fields. -/
inductive Schema.Assembled : Facts → Body → List Group → Prop where
  | intro {fields : Entries Json} {kind : Kind} {parts : Entries Part}
      (isKind : Kind.ofFields? fields = some kind)
      (tied : ∀ key, (parts.get? key).map Part.value = fields.get? key) :
      Schema.Assembled (Schema.factsOf fields) (Schema.bodyOf kind fields parts) (Schema.groupsOf parts)

/-- **Every fragment of a schema** has a property, at every depth. -/
inductive Schema.Every (P : Facts → Body → List Group → Prop) : Schema → Prop where
  | unsupported (facts : Facts) : Schema.Every P (.unsupported facts)
  | fragment {facts : Facts} {body : Body} {groups : List Group} (own : P facts body groups)
      (parts : ∀ s ∈ body.parts, Schema.Every P s)
      (members : ∀ group ∈ groups, ∀ s ∈ group.parts, Schema.Every P s) :
      Schema.Every P (.fragment facts body groups)

/-- **The references of a schema are of a kind**, at every depth, and its fragments are assembled. -/
abbrev Schema.Refers (refers : String → Prop) : Schema → Prop :=
  Schema.Every fun facts body groups =>
    Assembled facts body groups ∧ ∀ ref, body = .reference (some ref) → refers ref

namespace Schema

variable {refers : String → Prop} {fields : Entries Json} {parts : Entries Part}

/-- The reference of a body is the one that the fields make. -/
theorem reference_bodyOf {kind : Kind} {ref : String}
    (h : bodyOf kind fields parts = .reference (some ref)) :
    (fields.get? "$ref").bind Json.text? = some ref := by
  cases kind with
  | reference => exact Body.reference.inj h
  | object =>
    rw [bodyOf, objectBody] at h
    split at h
    · cases h
    · split at h
      · cases h
      · split at h <;> cases h
  | scalar s => cases h
  | choice => cases h
  | array => cases h
  | composite => cases h

/-- What every assembled fragment has by its object, every fragment of a document has. -/
theorem readable_every {P : Facts → Body → List Group → Prop} {doc : Json → Prop}
    (hdoc : Json.Inherited doc)
    (h : ∀ {fields : Entries Json} {parts : Entries Part} {kind : Kind}, doc (.obj fields) →
      (∀ key, (parts.get? key).map Part.value = fields.get? key) → Kind.ofFields? fields = some kind →
      P (factsOf fields) (bodyOf kind fields parts) (groupsOf parts)) :
    Readable (Every P) doc := by
  refine ⟨hdoc, fun _ => .unsupported _, ?_⟩
  intro fields parts hfields htied hparts
  rw [assemble]
  split
  · exact .unsupported _
  · rename_i kind hkind
    exact .fragment (h hfields htied hkind) (parts_bodyOf (.unsupported _) kind hparts)
      (parts_groupsOf hparts)

/-- **The references of a schema** are among the references of its document. -/
theorem ofJson_refers {v : Json} (hv : ∀ ref ∈ v.references, refers ref) :
    (ofJson v).Refers refers := by
  have hreadable : Readable (Refers refers) _ :=
    readable_every (Json.inherited_said fun key text => key = "$ref" → refers text) <| by
      intro fields parts kind hsaid htied hkind
      refine ⟨.intro hkind htied, ?_⟩
      intro ref hbody
      exact hsaid "$ref" (by decide) ref (Json.mem_textsUnderFields (reference_bodyOf hbody)) rfl
  refine hreadable.ofJson ?_
  rintro key - text htext rfl
  exact hv text htext

end Schema

/-! ## Fields -/

/-- **Fields of the wrong form** for an object: the required names hold a list or an object, or the
properties are no object. -/
inductive Schema.Defective (fields : Entries Json) : Defect → Prop where
  | required {items : List Json} (listed : fields.get? "required" = some (.arr items))
      (compound : ∃ v ∈ items, v.isCompound = true) : Schema.Defective fields .requiredCompound
  | properties {v : Json} (given : fields.get? "properties" = some v) (other : v.fields? = none) :
      Schema.Defective fields .propertiesNotObject

/-- **Faithful schemas**: every fragment is made of the fields of an object, and broken only if they are of
the kind of an object, and of the wrong form. -/
inductive Schema.Faithful : Schema → Prop where
  | unsupported (facts : Facts) : Schema.Faithful (.unsupported facts)
  | fragment (fields : Entries Json) {body : Body} {groups : List Group}
      (broken : ∀ defect, body = .broken defect →
        Kind.ofFields? fields = some .object ∧ Schema.Defective fields defect)
      (parts : ∀ s ∈ body.parts, Schema.Faithful s)
      (members : ∀ group ∈ groups, ∀ s ∈ group.parts, Schema.Faithful s) :
      Schema.Faithful (.fragment (Schema.factsOf fields) body groups)

namespace Schema

variable {fields : Entries Json} {parts : Entries Part} {defect : Defect}

/-- A list of required names that cannot be used makes a fragment defective. -/
theorem defective_of_requiredNames (h : requiredNames (fields.get? "required") = .error defect) :
    Defective fields defect := by
  rw [requiredNames] at h
  split at h
  · cases h
  · rename_i items hitems
    split at h
    · rename_i hany
      cases h
      obtain ⟨v, hget, hv⟩ := Option.bind_eq_some_iff.mp hitems
      cases v with
      | arr found =>
        obtain rfl : found = items := Option.some.inj hv
        exact .required hget (List.any_eq_true.mp hany)
      | _ => cases hv
    · cases h

/-- A broken body is the body of an object whose fields are of the wrong form. -/
theorem defective_of_bodyOf {P : Schema → Prop} {kind : Kind}
    (htied : ∀ key, (parts.get? key).map Part.value = fields.get? key)
    (hparts : ∀ entry ∈ parts, entry.2.All P) (h : bodyOf kind fields parts = .broken defect) :
    kind = .object ∧ Defective fields defect := by
  cases kind with
  | object =>
    refine ⟨rfl, ?_⟩
    rw [bodyOf, objectBody] at h
    split at h
    · rename_i hrequired
      cases h
      exact defective_of_requiredNames hrequired
    · split at h
      · cases h
      · rename_i part hpart
        split at h
        · rename_i hnone
          cases h
          have hrole := (hparts _ (Table.mem_of_get? hpart)).role
          have hvalue := htied "properties"
          rw [hpart, Option.map_some] at hvalue
          rw [hnone] at hrole
          exact .properties hvalue.symm (by simpa using hrole.symm)
        · cases h
  | reference => cases h
  | scalar s => cases h
  | choice => cases h
  | array => cases h
  | composite => cases h

/-- **The schema of a document is faithful.** -/
theorem ofJson_faithful (v : Json) : (ofJson v).Faithful := by
  have hreadable : Readable Faithful fun _ => True := by
    refine ⟨Json.inherited_true, fun _ => .unsupported _, ?_⟩
    intro fields parts _ htied hparts
    rw [assemble]
    split
    · exact .unsupported _
    · rename_i kind hkind
      refine .fragment fields ?_ (parts_bodyOf (.unsupported _) kind hparts) (parts_groupsOf hparts)
      intro defect hbody
      obtain ⟨rfl, hdefective⟩ := defective_of_bodyOf htied hparts hbody
      exact ⟨hkind, hdefective⟩
  exact hreadable.ofJson trivial

end Schema

/-! ## Sources -/

/-- **The sources of a schema** have a property, at every depth, and whether they are of a kind or not. -/
inductive Schema.Sourced (doc : Json → Prop) : Schema → Prop where
  | unsupported {facts : Facts} (own : doc facts.source) : Schema.Sourced doc (.unsupported facts)
  | fragment {facts : Facts} {body : Body} {groups : List Group} (own : doc facts.source)
      (parts : ∀ s ∈ body.parts, Schema.Sourced doc s)
      (members : ∀ group ∈ groups, ∀ s ∈ group.parts, Schema.Sourced doc s) :
      Schema.Sourced doc (.fragment facts body groups)

/-- **The sources of a schema** inherit what its document has. -/
theorem Schema.ofJson_sourced {doc : Json → Prop} (hdoc : Json.Inherited doc) {v : Json} (hv : doc v) :
    (ofJson v).Sourced doc := by
  have hreadable : Readable (Sourced doc) doc := by
    refine ⟨hdoc, .unsupported, ?_⟩
    intro fields parts hfields _ hparts
    rw [assemble]
    split
    · exact .unsupported hfields
    · rename_i kind _
      exact .fragment hfields (parts_bodyOf (.unsupported hdoc.empty) kind hparts) (parts_groupsOf hparts)
  exact hreadable.ofJson hv

end TypeScribe
