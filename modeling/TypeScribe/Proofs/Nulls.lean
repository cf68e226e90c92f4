import TypeScribe.Proofs.Keywords

/-!
# Null members

Members of a composition and entries of a type list may be the null type. `Json.prune` takes a document to
a **normal form** without them: at every place where a fragment may stand, the null members of its
compositions are left out, and the null entries of its types, in nested lists too. Putting such members into
a document, anywhere and as many as one likes, does not change the normal form.

**Slim** schemas have no null members either, and do not remember their fragments. Pruning a document changes
nothing in its slim schema (`Schema.slim_ofJson`).
-/

namespace TypeScribe

/-! ## Pruning -/

namespace Json

/-- The null type as a fragment. -/
def isNullMember : Json → Bool
  | .obj [(key, .str type)] => key == "type" && type == "null"
  | _ => false

/-- The null type as an entry of a type list. -/
def isNullEntry : Json → Bool
  | .str type => type == "null"
  | _ => false

mutual

/-- Leaves out the null entries of a type, at every depth. -/
def pruneType : Json → Json
  | .arr items => .arr (pruneEntries items)
  | v => v

@[inherit_doc pruneType]
def pruneEntries : List Json → List Json
  | [] => []
  | v :: rest => if v.isNullEntry then pruneEntries rest else pruneType v :: pruneEntries rest

end

mutual

/-- **Prunes a value** that stands at a position: the fragments inside it lose their null members and the null
entries of their types. -/
def prune : Position → Json → Json
  | .fragment, .obj fields => .obj (pruneFields fields)
  | .members, .arr items => .arr (pruneMembers items)
  | .properties, .obj fields => .obj (pruneValues fields)
  | _, v => v

@[inherit_doc prune]
def pruneFields : List (String × Json) → List (String × Json)
  | [] => []
  | (key, v) :: rest =>
    (key, if key = "type" then pruneType v else prune (positionUnder key) v) :: pruneFields rest

@[inherit_doc prune]
def pruneMembers : List Json → List Json
  | [] => []
  | v :: rest => if v.isNullMember then pruneMembers rest else prune .fragment v :: pruneMembers rest

@[inherit_doc prune]
def pruneValues : List (String × Json) → List (String × Json)
  | [] => []
  | (key, v) :: rest => (key, prune .fragment v) :: pruneValues rest

end

theorem pruneEntries_eq (items : List Json) :
    pruneEntries items = (items.filter (!·.isNullEntry)).map pruneType := by
  induction items with
  | nil => rfl
  | cons v rest ih => by_cases hv : v.isNullEntry <;> simp [pruneEntries, hv, ih]

theorem pruneMembers_eq (items : List Json) :
    pruneMembers items = (items.filter (!·.isNullMember)).map (prune .fragment) := by
  induction items with
  | nil => rfl
  | cons v rest ih => by_cases hv : v.isNullMember <;> simp [pruneMembers, hv, ih]

theorem pruneValues_eq (fields : List (String × Json)) :
    pruneValues fields = fields.map fun e => (e.1, e.2.prune .fragment) := by
  induction fields with
  | nil => rfl
  | cons e rest ih => rw [pruneValues, ih, List.map_cons]

/-- A pruned field. -/
def pruneUnder (key : String) (v : Json) : Json :=
  if key = "type" then pruneType v else prune (positionUnder key) v

/-- Pruning the fields of a fragment prunes each value according to its keyword. -/
theorem get?_pruneFields (fields : Entries Json) (key : String) :
    Table.get? (pruneFields fields) key = (fields.get? key).map (pruneUnder key) := by
  induction fields with
  | nil => rfl
  | cons e rest ih =>
    obtain ⟨k, v⟩ := e
    rw [pruneFields, Table.get?_cons, Table.get?_cons]
    split
    · rename_i hk
      rw [hk, Option.map_some, pruneUnder]
    · exact ih

/-- No keyword is lost by pruning. -/
theorem has_pruneFields (fields : Entries Json) (key : String) :
    Table.has (pruneFields fields) key = fields.has key := by
  rw [Table.has, Table.has, get?_pruneFields, Option.isSome_map]

theorem prune_plain (v : Json) : v.prune .plain = v := by
  cases v <;> rfl

/-- Under most keywords nothing is pruned. -/
theorem get?_pruneFields_plain (fields : Entries Json) {key : String} (htype : key ≠ "type")
    (hplain : positionUnder key = .plain) : Table.get? (pruneFields fields) key = fields.get? key := by
  rw [get?_pruneFields]
  cases fields.get? key with
  | none => rfl
  | some v => rw [Option.map_some, pruneUnder, if_neg htype, hplain, prune_plain]

theorem text?_pruneType (v : Json) : v.pruneType.text? = v.text? := by
  cases v <;> rfl

theorem items?_pruneType (v : Json) : v.pruneType.items? = v.items?.map pruneEntries := by
  cases v <;> rfl

end Json

/-- **The kind of a fragment** is that of the pruned one. -/
theorem Kind.ofFields?_pruneFields (fields : Entries Json) :
    ofFields? (Json.pruneFields fields) = ofFields? fields := by
  have htext : (Table.get? (Json.pruneFields fields) "type").bind Json.text? =
      (fields.get? "type").bind Json.text? := by
    rw [Json.get?_pruneFields]
    cases fields.get? "type" with
    | none => rfl
    | some v => exact Json.text?_pruneType v
  have hitems : ((Table.get? (Json.pruneFields fields) "type").bind Json.items?).isSome =
      ((fields.get? "type").bind Json.items?).isSome := by
    rw [Json.get?_pruneFields]
    cases fields.get? "type" with
    | none => rfl
    | some v => exact (congrArg _ (Json.items?_pruneType v)).trans Option.isSome_map
  have hcomposite : hasComposite (Json.pruneFields fields) = hasComposite fields := by
    simp only [hasComposite, Json.has_pruneFields]
  simp only [ofFields?, Json.has_pruneFields, htext, hitems, hcomposite]

/-! ## Slim schemas -/

/-- A fragment that is the null type and nothing else. -/
def Schema.isNull : Schema → Bool
  | .fragment facts (.scalar .null) [] => facts.id.isNone && facts.title.isNone
  | _ => false

mutual

/-- **A slim schema**: the fragments are forgotten, and null members are left out, at every depth. -/
def Schema.slim : Schema → Schema
  | .unsupported facts => .unsupported facts.bare
  | .fragment facts body groups => .fragment facts.bare body.slim (Group.slimAll groups)

@[inherit_doc Schema.slim]
def Body.slim : Body → Body
  | .choice alternatives => .choice (Schema.slimAll alternatives)
  | .array items => .array items.slim
  | .object required properties => .object required (Schema.slimFields properties)
  | .scalar s => .scalar s
  | .broken defect => .broken defect
  | .composite => .composite
  | .reference ref => .reference ref

@[inherit_doc Schema.slim]
def Group.slimAll : List Group → List Group
  | [] => []
  | .members keyword schemas :: rest => .members keyword (Schema.slimAll schemas) :: Group.slimAll rest
  | .malformed keyword :: rest => .malformed keyword :: Group.slimAll rest

@[inherit_doc Schema.slim]
def Schema.slimAll : List Schema → List Schema
  | [] => []
  | s :: rest => if s.isNull then Schema.slimAll rest else s.slim :: Schema.slimAll rest

@[inherit_doc Schema.slim]
def Schema.slimFields : List (String × Schema) → List (String × Schema)
  | [] => []
  | (name, s) :: rest => (name, s.slim) :: Schema.slimFields rest

end

/-- A group without the null ones among its members. -/
def Group.slim : Group → Group
  | .members keyword schemas => .members keyword (Schema.slimAll schemas)
  | .malformed keyword => .malformed keyword

theorem Group.slimAll_eq (groups : List Group) : slimAll groups = groups.map slim := by
  induction groups with
  | nil => rfl
  | cons group rest ih => cases group <;> rw [slimAll, ih, List.map_cons, slim]

namespace Schema

theorem slimAll_eq (schemas : List Schema) : slimAll schemas = (schemas.filter (!·.isNull)).map slim := by
  induction schemas with
  | nil => rfl
  | cons s rest ih => by_cases hs : s.isNull <;> simp [slimAll, hs, ih]

theorem slimFields_eq (properties : List (String × Schema)) :
    slimFields properties = properties.map fun p => (p.1, p.2.slim) := by
  induction properties with
  | nil => rfl
  | cons p rest ih => rw [slimFields, ih, List.map_cons]

/-- A schema and the slim one are the null type alike. -/
theorem isNull_slim (s : Schema) : s.slim.isNull = s.isNull := by
  cases s with
  | unsupported facts => rfl
  | fragment facts body groups =>
    cases groups with
    | nil =>
      cases body with
      | scalar s => cases s <;> rfl
      | _ => rfl
    | cons group rest =>
      have hleft : (slim (.fragment facts body (group :: rest))).isNull = false := by
        rw [slim, Group.slimAll_eq, List.map_cons]
        cases body.slim with
        | scalar s => cases s <;> rfl
        | _ => rfl
      rw [hleft]
      cases body with
      | scalar s => cases s <;> rfl
      | _ => rfl

/-! ## Reading pruned documents -/

/-- Lists of which some are left out that read as the null type, and the others read alike when they are
slim. -/
theorem slimAll_filter {items : List Json} {drop : Json → Bool} {f f' : Json → Schema}
    (hdrop : ∀ v, drop v = true → (f v).isNull = true)
    (hkeep : ∀ v ∈ items, (f' v).slim = (f v).slim) :
    slimAll ((items.filter (!drop ·)).map f') = slimAll (items.map f) := by
  induction items with
  | nil => rfl
  | cons v rest ih =>
    have ih := ih fun u hu => hkeep u (List.mem_cons_of_mem _ hu)
    have hv := hkeep v (List.mem_cons_self ..)
    have hnull : (f' v).isNull = (f v).isNull := by rw [← isNull_slim, hv, isNull_slim]
    cases hd : drop v with
    | true => simp [slimAll, hd, hdrop v hd, ih]
    | false => simp [slimAll, hd, hnull, hv, ih]

/-- A member that is left out would have been read as null. -/
theorem isNull_read_member {v : Json} (h : v.isNullMember = true) : (read v).fragment.isNull = true := by
  unfold Json.isNullMember at h
  split at h
  · simp only [Bool.and_eq_true, beq_iff_eq] at h
    obtain ⟨rfl, rfl⟩ := h
    rfl
  · cases h

/-- An entry of a type list that is left out would have been read as null. -/
theorem isNull_read_entry {v : Json} (h : v.isNullEntry = true) : (read v).entry.isNull = true := by
  unfold Json.isNullEntry at h
  split at h
  · obtain rfl := beq_iff_eq.mp h
    rfl
  · cases h

/-- A list as an entry is the choice of its own entries. -/
theorem entry_arr (items : List Json) : (read (.arr items)).entry.slim =
    .fragment ⟨.null, none, none⟩ (.choice (slimAll (items.map fun v => (read v).entry))) [] := by
  simp only [read, readItems_eq, List.map_map]
  rfl

mutual

/-- **A type is read alike when it is pruned.** -/
theorem entry_pruneType (v : Json) : (read v.pruneType).entry.slim = (read v).entry.slim := by
  match v with
  | .arr items =>
    have hentries := slimAll_filter (fun v hv => isNull_read_entry hv) (entry_pruneEntries items)
    rw [Json.pruneType, entry_arr, entry_arr, Json.pruneEntries_eq, List.map_map, ← hentries]
    rfl
  | .obj _ | .null | .bool _ | .int _ | .real _ | .str _ => rfl

/-- Entries of a type list are read alike once they are pruned, up to nulls. -/
theorem entry_pruneEntries (items : List Json) :
    ∀ v ∈ items, (read v.pruneType).entry.slim = (read v).entry.slim := by
  match items with
  | [] => simp
  | item :: rest =>
    intro v hv
    rcases List.mem_cons.mp hv with hitem | hv
    · rw [hitem]
      exact entry_pruneType item
    · exact entry_pruneEntries rest v hv

end

theorem entries_pruneType (v : Json) :
    (read v.pruneType).entries.map slimAll = (read v).entries.map slimAll := by
  cases v with
  | arr items =>
    simp only [Json.pruneType, read, complete, Option.map_some, readItems_eq, Json.pruneEntries_eq,
      List.map_map, Option.some.injEq]
    exact slimAll_filter (fun v hv => isNull_read_entry hv) fun v _ => entry_pruneType v
  | _ => rfl

/-- **A value is read alike when it is pruned**, in each of the parts that are pruned. -/
structure ReadsPruned (v : Json) : Prop where
  fragment : (read (v.prune .fragment)).fragment.slim = (read v).fragment.slim
  members : (read (v.prune .members)).members.map slimAll = (read v).members.map slimAll
  properties : (read (v.prune .properties)).properties.map slimFields =
    (read v).properties.map slimFields

/-- The groups of a fragment are made of the members of parts. -/
theorem slimAll_groupsOf (parts : Entries Part) : Group.slimAll (groupsOf parts) =
    Keyword.all.filterMap fun keyword =>
      ((parts.get? keyword.key).map fun part => part.members.map slimAll).map fun members =>
        match members with
        | some schemas => .members keyword schemas
        | none => .malformed keyword := by
  rw [Group.slimAll_eq, groupsOf, List.map_filterMap]
  refine List.filterMap_congr fun keyword _ => ?_
  cases parts.get? keyword.key with
  | none => rfl
  | some part => cases hmembers : part.members <;> simp [hmembers, Group.slim]

section

variable {fields : Entries Json} (h : ∀ e ∈ fields, ReadsPruned e.2)
include h

/-- A part of a pruned field, seen in a way that pruning does not change. -/
theorem get?_partsOf_pruned {α : Type} (key : String) (view : Part → α)
    (hview : ∀ v, ReadsPruned v → view (read (v.pruneUnder key)).toPart = view (read v).toPart) :
    ((partsOf (Json.pruneFields fields)).get? key).map view = ((partsOf fields).get? key).map view := by
  rw [get?_partsOf, get?_partsOf, Json.get?_pruneFields]
  cases hget : fields.get? key with
  | none => rfl
  | some v =>
    have hv := hview v (h (key, v) (Table.mem_of_get? hget))
    simpa using hv

theorem slim_objectBody_pruned :
    (objectBody (Json.pruneFields fields) (partsOf (Json.pruneFields fields))).slim =
      (objectBody fields (partsOf fields)).slim := by
  have hproperties := get?_partsOf_pruned h "properties" (fun part => part.properties.map slimFields)
    fun v hv => hv.properties
  rw [objectBody, objectBody, Json.get?_pruneFields_plain fields (by decide) (by decide)]
  cases requiredNames (fields.get? "required") with
  | error defect => rfl
  | ok required =>
    cases hpart : (partsOf fields).get? "properties" with
    | none =>
      rw [hpart] at hproperties
      simp only [Option.map_eq_none_iff.mp hproperties]
    | some part =>
      rw [hpart] at hproperties
      obtain ⟨part', hpart', hsame⟩ := Option.map_eq_some_iff.mp hproperties
      simp only [hpart']
      cases hfields : part.properties <;> cases hfields' : part'.properties <;>
        simp_all [Body.slim]

/-- Bodies are read alike from the pruned fields, up to nulls. -/
theorem slim_bodyOf_pruned (kind : Kind) :
    (bodyOf kind (Json.pruneFields fields) (partsOf (Json.pruneFields fields))).slim =
      (bodyOf kind fields (partsOf fields)).slim := by
  cases kind with
  | scalar s => rfl
  | composite => rfl
  | reference => rw [bodyOf, bodyOf, Json.get?_pruneFields_plain fields (by decide) (by decide)]
  | object => exact slim_objectBody_pruned h
  | choice =>
    have htype := get?_partsOf_pruned h "type" (fun part => part.entries.map slimAll)
      fun v _ => entries_pruneType v
    simp only [bodyOf]
    cases hpart : (partsOf fields).get? "type" with
    | none =>
      rw [hpart] at htype
      rw [Option.map_eq_none_iff.mp htype]
    | some part =>
      rw [hpart] at htype
      obtain ⟨part', hpart', hsame⟩ := Option.map_eq_some_iff.mp htype
      simp only [hpart', Option.bind_some]
      cases hentries : part.entries <;> cases hentries' : part'.entries <;> simp_all [Body.slim]
  | array =>
    have hitems := get?_partsOf_pruned h "items" (fun part => part.fragment.slim) fun v hv => hv.fragment
    simp only [bodyOf]
    cases hpart : (partsOf fields).get? "items" with
    | none =>
      rw [hpart] at hitems
      rw [Option.map_eq_none_iff.mp hitems]
    | some part =>
      rw [hpart] at hitems
      obtain ⟨part', hpart', hsame⟩ := Option.map_eq_some_iff.mp hitems
      simp only [hpart', Option.map_some, Option.getD_some, Body.slim, hsame]

/-- Composition groups are read alike from the pruned fields, up to nulls. -/
theorem slimAll_groupsOf_pruned :
    Group.slimAll (groupsOf (partsOf (Json.pruneFields fields))) =
      Group.slimAll (groupsOf (partsOf fields)) := by
  rw [slimAll_groupsOf, slimAll_groupsOf]
  refine List.filterMap_congr fun keyword _ => congrArg _ ?_
  refine get?_partsOf_pruned h keyword.key _ fun v hv => ?_
  have hunder : v.pruneUnder keyword.key = v.prune .members := by cases keyword <;> rfl
  rw [hunder]
  exact hv.members

/-- **A fragment is assembled alike** when it is pruned. -/
theorem slim_assemble_pruned :
    (assemble (Json.pruneFields fields) (partsOf (Json.pruneFields fields))).slim =
      (assemble fields (partsOf fields)).slim := by
  have hfacts : (factsOf (Json.pruneFields fields)).bare = (factsOf fields).bare := by
    simp only [factsOf, Facts.bare]
    rw [Json.get?_pruneFields_plain fields (by decide) (by decide),
      Json.get?_pruneFields_plain fields (by decide) (by decide)]
  rw [assemble, assemble, Kind.ofFields?_pruneFields]
  cases Kind.ofFields? fields with
  | none => simp only [slim, hfacts]
  | some kind => simp only [slim, hfacts, slim_bodyOf_pruned h, slimAll_groupsOf_pruned h]

end

mutual

/-- **Every value is read alike when it is pruned.** -/
theorem readsPruned (v : Json) : ReadsPruned v := by
  match v with
  | .obj fields =>
    have ih := readsPruned_fields fields
    refine ⟨slim_assemble_pruned ih, rfl, ?_⟩
    simp only [Json.prune, read, complete, Option.map_some, Json.pruneValues_eq, readFields_eq,
      slimFields_eq, List.map_map, Option.some.injEq]
    refine List.map_congr_left fun e he => ?_
    simp only [Function.comp_apply, (ih e he).fragment]
  | .arr items =>
    have ih := readsPruned_items items
    refine ⟨rfl, ?_, rfl⟩
    simp only [Json.prune, read, complete, Option.map_some, Json.pruneMembers_eq, readItems_eq,
      List.map_map, Option.some.injEq]
    exact slimAll_filter (fun v hv => isNull_read_member hv) fun v hv => (ih v hv).fragment
  | .null | .bool _ | .int _ | .real _ | .str _ => exact ⟨rfl, rfl, rfl⟩

theorem readsPruned_fields (fields : List (String × Json)) : ∀ e ∈ fields, ReadsPruned e.2 := by
  match fields with
  | [] => simp
  | (key, v) :: rest =>
    intro e he
    rcases List.mem_cons.mp he with rfl | he
    · exact readsPruned v
    · exact readsPruned_fields rest e he

theorem readsPruned_items (items : List Json) : ∀ v ∈ items, ReadsPruned v := by
  match items with
  | [] => simp
  | item :: rest =>
    intro v hv
    rcases List.mem_cons.mp hv with hitem | hv
    · rw [hitem]
      exact readsPruned item
    · exact readsPruned_items rest v hv

end

/-- **Documents that are pruned alike** have the same slim schema. -/
theorem slim_ofJson {v v' : Json} (h : v.prune .fragment = v'.prune .fragment) :
    (ofJson v).slim = (ofJson v').slim := by
  calc (ofJson v).slim = (ofJson (v.prune .fragment)).slim := (readsPruned v).fragment.symm
    _ = (ofJson (v'.prune .fragment)).slim := by rw [h]
    _ = (ofJson v').slim := (readsPruned v').fragment

end Schema

end TypeScribe
