import TypeScribe.Proofs.Reading

/-!
# Ten keywords

Of the fields of a fragment ten are looked at, and their order is of no account. `Json.trim` takes a
document to a **normal form**: at every place where a fragment may stand, the fields under other keys are
left out, and the rest is put in a fixed order. Everywhere else a value stays as it is: the names of
properties are no keywords, whatever they are, and keep their order.

A schema remembers the fragments it was read from, for the sake of failures. **Bare** schemas do not, and
trimming a document changes nothing in its bare schema (`Schema.bare_ofJson`).
-/

namespace TypeScribe

/-! ## Trimming -/

/-- Where a value stands in a document: as a fragment, as the members of a composition, as the properties
of an object, or anywhere else. -/
inductive Position where
  | fragment
  | members
  | properties
  | plain
  deriving Repr, DecidableEq

namespace Json

/-- The keywords of a fragment. -/
def keywords : List String :=
  ["title", "type", "properties", "required", "items", "$ref", "id", "allOf", "anyOf", "oneOf"]

/-- Where the value of a keyword stands. -/
def positionUnder (key : String) : Position :=
  if key = "items" then .fragment
  else if key = "properties" then .properties
  else if key = "allOf" ∨ key = "anyOf" ∨ key = "oneOf" then .members
  else .plain

/-- The fields under keywords, in the order of the keywords. -/
def picked (fields : Entries Json) : Entries Json :=
  keywords.filterMap fun key => (fields.get? key).map fun v => (key, v)

mutual

/-- **Trims a value** that stands at a position: every fragment keeps its keywords only, in their order. -/
def trim : Position → Json → Json
  | .fragment, .obj fields => .obj (picked (trimFields fields))
  | .members, .arr items => .arr (trimItems items)
  | .properties, .obj fields => .obj (trimValues fields)
  | _, v => v

@[inherit_doc trim]
def trimFields : List (String × Json) → List (String × Json)
  | [] => []
  | (key, v) :: rest => (key, trim (positionUnder key) v) :: trimFields rest

@[inherit_doc trim]
def trimValues : List (String × Json) → List (String × Json)
  | [] => []
  | (key, v) :: rest => (key, trim .fragment v) :: trimValues rest

@[inherit_doc trim]
def trimItems : List Json → List Json
  | [] => []
  | v :: rest => trim .fragment v :: trimItems rest

end

theorem trimItems_eq (items : List Json) : trimItems items = items.map (trim .fragment) := by
  induction items with
  | nil => rfl
  | cons v rest ih => rw [trimItems, ih, List.map_cons]

theorem trimValues_eq (fields : List (String × Json)) :
    trimValues fields = fields.map fun e => (e.1, e.2.trim .fragment) := by
  induction fields with
  | nil => rfl
  | cons e rest ih => rw [trimValues, ih, List.map_cons]

/-- Trimming the fields of a fragment trims each value according to its keyword. -/
theorem get?_trimFields (fields : Entries Json) (key : String) :
    Table.get? (trimFields fields) key = (fields.get? key).map (trim (positionUnder key)) := by
  induction fields with
  | nil => rfl
  | cons e rest ih =>
    obtain ⟨k, v⟩ := e
    rw [trimFields, Table.get?_cons, Table.get?_cons]
    split
    · rename_i hk
      rw [hk, Option.map_some]
    · exact ih

/-- What is picked is found by looking up a keyword, and nothing else is. -/
theorem get?_filterMap (fields : Entries Json) (key : String) : ∀ keys : List String,
    Table.get? (keys.filterMap fun key => (fields.get? key).map fun v => (key, v)) key =
      if key ∈ keys then fields.get? key else none
  | [] => rfl
  | k :: rest => by
    have ih := get?_filterMap fields key rest
    cases hk : fields.get? k with
    | none =>
      rw [List.filterMap_cons_none (by rw [hk]; rfl), ih]
      by_cases hkey : key = k
      · subst hkey
        simp [hk]
      · simp [hkey]
    | some v =>
      rw [List.filterMap_cons_some (by rw [hk]; rfl), Table.get?_cons, ih]
      by_cases hkey : key = k
      · subst hkey
        simp [hk]
      · simp [hkey]

/-- Plain values are not trimmed. -/
theorem trim_plain (v : Json) : v.trim .plain = v := by
  cases v <;> rfl

/-- **The field of a trimmed fragment** under a keyword is the trimmed field. -/
theorem get?_picked {key : String} (hkey : key ∈ keywords) (fields : Entries Json) :
    Table.get? (picked (trimFields fields)) key = (fields.get? key).map (trim (positionUnder key)) := by
  rw [picked, get?_filterMap, if_pos hkey, get?_trimFields]

/-- Under most keywords it is the same field. -/
theorem get?_picked_plain {key : String} (hkey : key ∈ keywords) (hplain : positionUnder key = .plain)
    (fields : Entries Json) : Table.get? (picked (trimFields fields)) key = fields.get? key := by
  rw [get?_picked hkey, hplain]
  cases fields.get? key with
  | none => rfl
  | some v => rw [Option.map_some, trim_plain]

/-- No keyword is lost by picking the known ones. -/
theorem has_picked {key : String} (hkey : key ∈ keywords) (fields : Entries Json) :
    Table.has (picked (trimFields fields)) key = fields.has key := by
  rw [Table.has, Table.has, get?_picked hkey, Option.isSome_map]

end Json

theorem Kind.hasComposite_picked (fields : Entries Json) :
    hasComposite (Json.picked (Json.trimFields fields)) = hasComposite fields := by
  simp only [hasComposite, Keyword.all, List.any_cons, List.any_nil]
  rw [Json.has_picked (by decide), Json.has_picked (by decide), Json.has_picked (by decide)]

/-- **The kind of a fragment** is found by keywords alone. -/
theorem Kind.ofFields?_picked (fields : Entries Json) :
    ofFields? (Json.picked (Json.trimFields fields)) = ofFields? fields := by
  simp only [ofFields?]
  rw [Json.has_picked (by decide), Json.has_picked (by decide), Json.has_picked (by decide),
    Json.get?_picked_plain (by decide) (by decide), hasComposite_picked]

/-! ## Bare schemas -/

/-- What a fragment says about itself, without the fragment. -/
def Facts.bare (facts : Facts) : Facts := { facts with source := .null }

mutual

/-- **A bare schema**: the fragments are forgotten, at every depth. -/
def Schema.bare : Schema → Schema
  | .unsupported facts => .unsupported facts.bare
  | .fragment facts body groups => .fragment facts.bare body.bare (Group.bareAll groups)

@[inherit_doc Schema.bare]
def Body.bare : Body → Body
  | .choice alternatives => .choice (Schema.bareAll alternatives)
  | .array items => .array items.bare
  | .object required properties => .object required (Schema.bareFields properties)
  | .scalar s => .scalar s
  | .broken defect => .broken defect
  | .composite => .composite
  | .reference ref => .reference ref

@[inherit_doc Schema.bare]
def Group.bareAll : List Group → List Group
  | [] => []
  | .members keyword schemas :: rest => .members keyword (Schema.bareAll schemas) :: Group.bareAll rest
  | .malformed keyword :: rest => .malformed keyword :: Group.bareAll rest

@[inherit_doc Schema.bare]
def Schema.bareAll : List Schema → List Schema
  | [] => []
  | s :: rest => s.bare :: Schema.bareAll rest

@[inherit_doc Schema.bare]
def Schema.bareFields : List (String × Schema) → List (String × Schema)
  | [] => []
  | (name, s) :: rest => (name, s.bare) :: Schema.bareFields rest

end

/-- A group without the fragments of its members. -/
def Group.bare : Group → Group
  | .members keyword schemas => .members keyword (Schema.bareAll schemas)
  | .malformed keyword => .malformed keyword

theorem Schema.bareAll_eq (schemas : List Schema) : bareAll schemas = schemas.map bare := by
  induction schemas with
  | nil => rfl
  | cons s rest ih => rw [bareAll, ih, List.map_cons]

theorem Schema.bareFields_eq (properties : List (String × Schema)) :
    bareFields properties = properties.map fun p => (p.1, p.2.bare) := by
  induction properties with
  | nil => rfl
  | cons p rest ih => rw [bareFields, ih, List.map_cons]

theorem Group.bareAll_eq (groups : List Group) : bareAll groups = groups.map bare := by
  induction groups with
  | nil => rfl
  | cons group rest ih => cases group <;> rw [bareAll, ih, List.map_cons, bare]

/-! ## Reading trimmed documents -/

namespace Schema

theorem readItems_eq (items : List Json) : readItems items = items.map read := by
  induction items with
  | nil => rfl
  | cons v rest ih => rw [readItems, ih, List.map_cons]

theorem readFields_eq (fields : List (String × Json)) :
    readFields fields = fields.map fun e => (e.1, read e.2) := by
  induction fields with
  | nil => rfl
  | cons e rest ih => rw [readFields, ih, List.map_cons]

/-- The parts that the fields of an object play. -/
def partsOf (fields : Entries Json) : Entries Part := (readFields fields).map fun r => (r.1, r.2.toPart)

/-- The part that a field plays is read off its value. -/
theorem get?_partsOf (fields : Entries Json) (key : String) :
    (partsOf fields).get? key = (fields.get? key).map fun v => (read v).toPart := by
  induction fields with
  | nil => rfl
  | cons e rest ih =>
    obtain ⟨k, v⟩ := e
    rw [partsOf, readFields, List.map_cons, Table.get?_cons, Table.get?_cons]
    split
    · rfl
    · exact ih

/-- **A value is read alike when it is trimmed**, in each of the parts that are trimmed. -/
structure ReadsTrimmed (v : Json) : Prop where
  fragment : (read (v.trim .fragment)).fragment.bare = (read v).fragment.bare
  members : (read (v.trim .members)).members.map bareAll = (read v).members.map bareAll
  properties : (read (v.trim .properties)).properties.map bareFields =
    (read v).properties.map bareFields

/-- The groups of a fragment are made of the members of parts. -/
theorem bareAll_groupsOf (parts : Entries Part) : Group.bareAll (groupsOf parts) =
    Keyword.all.filterMap fun keyword =>
      ((parts.get? keyword.key).map fun part => part.members.map bareAll).map fun members =>
        match members with
        | some schemas => .members keyword schemas
        | none => .malformed keyword := by
  rw [Group.bareAll_eq, groupsOf, List.map_filterMap]
  refine List.filterMap_congr fun keyword _ => ?_
  cases parts.get? keyword.key with
  | none => rfl
  | some part => cases hmembers : part.members <;> simp [hmembers, Group.bare]

section

variable {fields : Entries Json} (h : ∀ e ∈ fields, ReadsTrimmed e.2)
include h

/-- A part of a trimmed field, seen in a way that trimming does not change. -/
theorem get?_partsOf_picked {α : Type} {key : String} (hkey : key ∈ Json.keywords) (view : Part → α)
    (hview : ∀ v, ReadsTrimmed v →
      view (read (v.trim (Json.positionUnder key))).toPart = view (read v).toPart) :
    ((partsOf (Json.picked (Json.trimFields fields))).get? key).map view =
      ((partsOf fields).get? key).map view := by
  rw [get?_partsOf, get?_partsOf, Json.get?_picked hkey]
  cases hget : fields.get? key with
  | none => rfl
  | some v =>
    have hv := hview v (h (key, v) (Table.mem_of_get? hget))
    simpa using hv

theorem bare_objectBody_picked :
    (objectBody (Json.picked (Json.trimFields fields))
      (partsOf (Json.picked (Json.trimFields fields)))).bare =
      (objectBody fields (partsOf fields)).bare := by
  have hproperties := get?_partsOf_picked h (show "properties" ∈ Json.keywords by decide)
    (fun part => part.properties.map bareFields) fun v hv => hv.properties
  rw [objectBody, objectBody, Json.get?_picked_plain (by decide) (by decide)]
  cases requiredNames (fields.get? "required") with
  | error defect => rfl
  | ok required =>
    cases hpart : (partsOf fields).get? "properties" with
    | none =>
      rw [hpart] at hproperties
      have hnone := Option.map_eq_none_iff.mp hproperties
      simp only [hnone]
    | some part =>
      rw [hpart] at hproperties
      obtain ⟨part', hpart', hsame⟩ := Option.map_eq_some_iff.mp hproperties
      simp only [hpart']
      cases hfields : part.properties <;> cases hfields' : part'.properties <;>
        simp_all [Body.bare]

/-- Bodies are read alike from the trimmed fields, up to annotations. -/
theorem bare_bodyOf_picked (kind : Kind) :
    (bodyOf kind (Json.picked (Json.trimFields fields))
      (partsOf (Json.picked (Json.trimFields fields)))).bare =
      (bodyOf kind fields (partsOf fields)).bare := by
  cases kind with
  | scalar s => rfl
  | composite => rfl
  | reference => rw [bodyOf, bodyOf, Json.get?_picked_plain (by decide) (by decide)]
  | object => exact bare_objectBody_picked h
  | choice =>
    have htype := get?_partsOf_picked h (show "type" ∈ Json.keywords by decide) Part.entries
      fun v _ => by rw [show Json.positionUnder "type" = .plain by decide, Json.trim_plain]
    simp only [bodyOf]
    cases hpart : (partsOf fields).get? "type" with
    | none =>
      rw [hpart] at htype
      rw [Option.map_eq_none_iff.mp htype]
    | some part =>
      rw [hpart] at htype
      obtain ⟨part', hpart', hsame⟩ := Option.map_eq_some_iff.mp htype
      simp only [hpart', Option.bind_some, hsame]
  | array =>
    have hitems := get?_partsOf_picked h (show "items" ∈ Json.keywords by decide)
      (fun part => part.fragment.bare) fun v hv => hv.fragment
    simp only [bodyOf]
    cases hpart : (partsOf fields).get? "items" with
    | none =>
      rw [hpart] at hitems
      rw [Option.map_eq_none_iff.mp hitems]
    | some part =>
      rw [hpart] at hitems
      obtain ⟨part', hpart', hsame⟩ := Option.map_eq_some_iff.mp hitems
      simp only [hpart', Option.map_some, Option.getD_some, Body.bare, hsame]

/-- Composition groups are read alike from the trimmed fields, up to annotations. -/
theorem bareAll_groupsOf_picked :
    Group.bareAll (groupsOf (partsOf (Json.picked (Json.trimFields fields)))) =
      Group.bareAll (groupsOf (partsOf fields)) := by
  rw [bareAll_groupsOf, bareAll_groupsOf]
  refine List.filterMap_congr fun keyword _ => congrArg _ ?_
  have hposition : Json.positionUnder keyword.key = .members := by cases keyword <;> decide
  refine get?_partsOf_picked h (by cases keyword <;> decide) _ fun v hv => ?_
  rw [hposition]
  exact hv.members

/-- **A fragment is assembled alike** from its keywords alone. -/
theorem bare_assemble_picked :
    (assemble (Json.picked (Json.trimFields fields)) (partsOf (Json.picked (Json.trimFields fields)))).bare =
      (assemble fields (partsOf fields)).bare := by
  have hfacts : (factsOf (Json.picked (Json.trimFields fields))).bare = (factsOf fields).bare := by
    simp only [factsOf, Facts.bare]
    rw [Json.get?_picked_plain (by decide) (by decide), Json.get?_picked_plain (by decide) (by decide)]
  rw [assemble, assemble, Kind.ofFields?_picked]
  cases Kind.ofFields? fields with
  | none => simp only [bare, hfacts]
  | some kind => simp only [bare, hfacts, bare_bodyOf_picked h, bareAll_groupsOf_picked h]

end

mutual

/-- **Every value is read alike when it is trimmed.** -/
theorem readsTrimmed (v : Json) : ReadsTrimmed v := by
  match v with
  | .obj fields =>
    have ih := readsTrimmed_fields fields
    refine ⟨bare_assemble_picked ih, rfl, ?_⟩
    simp only [Json.trim, read, complete, Option.map_some, Json.trimValues_eq, readFields_eq, bareFields_eq,
      List.map_map, Option.some.injEq]
    refine List.map_congr_left fun e he => ?_
    simp only [Function.comp_apply, (ih e he).fragment]
  | .arr items =>
    have ih := readsTrimmed_items items
    refine ⟨rfl, ?_, rfl⟩
    simp only [Json.trim, read, complete, Option.map_some, Json.trimItems_eq, readItems_eq, bareAll_eq,
      List.map_map, Option.some.injEq]
    refine List.map_congr_left fun item hitem => ?_
    simp only [Function.comp_apply, (ih item hitem).fragment]
  | .null | .bool _ | .int _ | .real _ | .str _ => exact ⟨rfl, rfl, rfl⟩

theorem readsTrimmed_fields (fields : List (String × Json)) : ∀ e ∈ fields, ReadsTrimmed e.2 := by
  match fields with
  | [] => simp
  | (key, v) :: rest =>
    intro e he
    rcases List.mem_cons.mp he with rfl | he
    · exact readsTrimmed v
    · exact readsTrimmed_fields rest e he

theorem readsTrimmed_items (items : List Json) : ∀ v ∈ items, ReadsTrimmed v := by
  match items with
  | [] => simp
  | item :: rest =>
    intro v hv
    rcases List.mem_cons.mp hv with hitem | hv
    · rw [hitem]
      exact readsTrimmed item
    · exact readsTrimmed_items rest v hv

end

/-- **Documents that are trimmed alike** have the same bare schema. -/
theorem bare_ofJson {v v' : Json} (h : v.trim .fragment = v'.trim .fragment) :
    (ofJson v).bare = (ofJson v').bare := by
  calc (ofJson v).bare = (ofJson (v.trim .fragment)).bare := (readsTrimmed v).fragment.symm
    _ = (ofJson (v'.trim .fragment)).bare := by rw [h]
    _ = (ofJson v').bare := (readsTrimmed v').fragment

end Schema

end TypeScribe
