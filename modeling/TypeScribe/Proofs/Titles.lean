import TypeScribe.Proofs.History
import TypeScribe.Proofs.Names

/-!
# Titles

The name of a node and whether it is declared are found in two ways. A **name** is the type name of the
title, or of the name that the fragment inherits from its property if it has no title at all. A fragment is
**declared** if the type name of its title is not empty, and otherwise if that of the inherited name is not,
and it is an object or composed. So the two part where a title is **hollow**: a text with characters none of
which is left in a type name.

* Every node is made of the fields of an object (`Label.Made`), by `Label.ofFields`.
* A declared node is without a name just if its title is hollow (`Label.Made.nameless_iff`). Such a node may
  come up in any construction, and be written (`build_nameless_iff`).
-/

namespace TypeScribe

/-! ## Names that are no keywords -/

namespace Naming

open Text

/-- No upper-case form begins with a small letter that has a capital. -/
theorem head_upper_ne {x c : Char} (hspared : isSpared x = true) (hcapital : x ∉ upper x) :
    (upper c).head? ≠ some x := by
  intro hhead
  have hmem : x ∈ upper c := List.mem_of_mem_head? hhead
  by_cases hc : c = x
  · subst hc
    exact hcapital hmem
  · exact not_mem_upper hspared hc hmem

/-- **A type name begins with a capital**, if its first letter has one. -/
theorem head_typeName?_ne {x : Char} (hspared : isSpared x = true) (hcapital : x ∉ upper x)
    (title : Option String) : (typeName? title).toList.head? ≠ some x := by
  cases title with
  | none => exact Option.some_ne_none x |>.symm
  | some title =>
    have hlike := nameLike_joined (cleaned title.toList) false fun c hc hne =>
      isWord_of_mem_cleaned hc hne
    simp only [typeName?, Option.map_some, Option.getD_some, typeName, String.toList_ofList, typeNameChars]
    cases hjoined : joined false (cleaned title.toList) with
    | nil => exact Option.some_ne_none x |>.symm
    | cons c rest =>
      rw [hjoined] at hlike
      have hupper := (upper_nameLike (hlike.begins c rfl)).1
      have hhead : (upper c ++ rest).head? = (upper c).head? := List.head?_append_of_ne_nil _ hupper
      exact fun h => head_upper_ne hspared hcapital (hhead.symm.trans h)

/-- **No title gives the keyword of a scalar**, as a type name. -/
theorem typeName?_ne_scalar (title : Option String) (s : Scalar) :
    typeName? title ≠ Layout.orNull s.text := by
  have hnumber := head_typeName?_ne (x := 'n') (by decide +kernel) (by decide) title
  have hstring := head_typeName?_ne (x := 's') (by decide +kernel) (by decide) title
  have hboolean := head_typeName?_ne (x := 'b') (by decide +kernel) (by decide) title
  intro h
  cases s with
  | null => exact hnumber (h ▸ rfl)
  | string => exact hstring (h ▸ rfl)
  | number => exact hnumber (h ▸ rfl)
  | boolean => exact hboolean (h ▸ rfl)

end Naming

/-- What is written for a text is `null` if there is no text, or if it is that text. -/
theorem Layout.orNull_eq_null {text : String} (h : text ≠ "null") : orNull text = "null" ↔ text = "" := by
  rw [orNull]
  split <;> simp_all

/-! ## Labels by fields -/

/-- **Hollow titles**: the title of an object is a text with characters, and its type name has none. -/
def Json.HasHollowTitle (v : Json) : Prop :=
  ∃ title, (v.field? "title").bind Json.filledText? = some title ∧ Naming.typeName title = ""

/-- Whether a fragment is declared under a name that it only inherits: objects are, and whatever is
composed. -/
def Kind.takesName (kind : Kind) (fields : Entries Json) : Bool :=
  kind == .object || kind == .composite || hasComposite fields

/-- **The label that fields make** under an inherited name, at a path. -/
def Label.ofFields (fields : Entries Json) (kind : Kind) (name : Option String) (path : String) :
    Label where
  source := .obj fields
  path := path
  name := Naming.typeName? ((Schema.factsOf fields).title.orElse fun _ => name)
  declared := Naming.typeName? (Schema.factsOf fields).title != "" ||
    (Naming.typeName? name != "" && kind.takesName fields)

/-- A label that is made of the fields of some object. -/
def Label.Made (label : Label) : Prop :=
  ∃ fields kind name path, Kind.ofFields? fields = some kind ∧ label = .ofFields fields kind name path

namespace Schema

variable {fields : Entries Json} {parts : Entries Part}

/-- There are groups if there are composing keywords. -/
theorem isEmpty_groupsOf (htied : ∀ key, (parts.get? key).map Part.value = fields.get? key) :
    (groupsOf parts).isEmpty = !Kind.hasComposite fields := by
  have hhas : ∀ key, fields.has key = (parts.get? key).isSome := by
    intro key
    rw [Table.has, ← htied key, Option.isSome_map]
  simp only [Kind.hasComposite, Keyword.all, List.any_cons, List.any_nil, hhas, groupsOf,
    List.filterMap_cons]
  cases parts.get? Keyword.allOf.key <;> cases parts.get? Keyword.anyOf.key <;>
    cases parts.get? Keyword.oneOf.key <;> rfl

/-- The body of an object is that of an object, whole or broken. -/
theorem isObject_bodyOf (kind : Kind) : (bodyOf kind fields parts).isObject = (kind == .object) := by
  cases kind with
  | object =>
    rw [bodyOf, objectBody]
    split
    · rfl
    · split
      · rfl
      · split <;> rfl
  | reference | scalar | choice | array | composite => rfl

/-- Only a fragment of the composite kind has a composite body. -/
theorem isComposite_bodyOf (kind : Kind) :
    (bodyOf kind fields parts).isComposite = (kind == .composite) := by
  cases kind with
  | object =>
    rw [bodyOf, objectBody]
    split
    · rfl
    · split
      · rfl
      · split <;> rfl
  | reference | scalar | choice | array | composite => rfl

/-- **The label of a new node** is made of the fields that its fragment is assembled from. -/
theorem Assembled.label {facts : Facts} {body : Body} {groups : List Group}
    (h : Assembled facts body groups) (name : Option String) (path : String) :
    ∃ fields kind, Kind.ofFields? fields = some kind ∧ facts = factsOf fields ∧
      (node facts body groups name path).label = .ofFields fields kind name path := by
  obtain ⟨hkind, htied⟩ := h
  refine ⟨_, _, hkind, rfl, ?_⟩
  simp only [Node.label, node, Label.ofFields, isDeclared, Kind.takesName, isObject_bodyOf,
    isComposite_bodyOf, isEmpty_groupsOf htied, Bool.not_not, factsOf]

end Schema

namespace Label

variable {fields : Entries Json} {kind : Kind} {name : Option String} {path : String} {label : Label}

/-- A fragment with a title is named by it. -/
theorem name_ofFields_some {title : String} (h : (Schema.factsOf fields).title = some title) :
    (ofFields fields kind name path).name = Naming.typeName title := by
  simp [ofFields, h, Naming.typeName?]

/-- A fragment without a title has the name that it inherits. -/
theorem name_ofFields_none (h : (Schema.factsOf fields).title = none) :
    (ofFields fields kind name path).name = Naming.typeName? name := by
  simp [ofFields, h]

/-- **Declared and nameless**: the title is hollow, and the inherited name would do. -/
theorem ofFields_nameless_iff :
    (ofFields fields kind name path).declared = true ∧ (ofFields fields kind name path).name = "" ↔
      (Json.obj fields).HasHollowTitle ∧ Naming.typeName? name ≠ "" ∧ kind.takesName fields = true := by
  have hhollow : (Json.obj fields).HasHollowTitle ↔
      ∃ title, (Schema.factsOf fields).title = some title ∧ Naming.typeName title = "" := Iff.rfl
  rw [hhollow]
  cases htitle : (Schema.factsOf fields).title with
  | none =>
    rw [name_ofFields_none htitle]
    simp only [ofFields, htitle, Naming.typeName?]
    constructor
    · rintro ⟨hdeclared, hname⟩
      simp [hname] at hdeclared
    · rintro ⟨⟨title, hsome, -⟩, -⟩
      cases hsome
  | some title =>
    rw [name_ofFields_some htitle]
    simp only [ofFields, htitle, Naming.typeName?, Option.map_some, Option.getD_some]
    constructor
    · rintro ⟨hdeclared, hname⟩
      exact ⟨⟨title, rfl, hname⟩, by simpa [hname] using hdeclared⟩
    · rintro ⟨⟨_, ⟨⟩, hname⟩, hother⟩
      exact ⟨by simpa [hname] using hother, hname⟩

/-- **A declared node is without a name just if its title is hollow.** -/
theorem Made.nameless_iff (h : label.Made) (hdeclared : label.declared = true) :
    label.name = "" ↔ label.source.HasHollowTitle := by
  obtain ⟨fields, kind, name, path, -, rfl⟩ := h
  constructor
  · intro hname
    exact (ofFields_nameless_iff.mp ⟨hdeclared, hname⟩).1
  · rintro ⟨title, htitle, hname⟩
    exact (name_ofFields_some htitle).trans hname

end Label

/-! ## Constructions -/

/-- **New labels are made of fields**, and the labels so far stay. -/
theorem Graph.made_invariant (labels : List Label) :
    Graph.Invariant fun g => ∃ more, g.labels = labels ++ more ∧ ∀ label ∈ more, label.Made where
  push := by
    rintro g facts body groups name path hassembled ⟨more, hlabels, hmore⟩
    obtain ⟨fields, kind, hkind, -, hlabel⟩ := hassembled.label name path
    refine ⟨more ++ [_], by rw [labels_push, hlabels, List.append_assoc], ?_⟩
    intro label hmem
    rcases List.mem_append.mp hmem with hmem | hmem
    · exact hmore label hmem
    · rw [List.mem_singleton.mp hmem, hlabel]
      exact ⟨fields, kind, name, path, hkind, rfl⟩
  bind _ _ h := h
  adjust := by
    intro g id f hf h
    rw [labels_adjust _ id hf]
    exact h

section

variable {σ : Type} [Source σ] {schema : Json} {name : Option String} {path : String}
  {keys : List String} {w : Workshop σ} {I : Graph → Prop}

/-- **Building a document** keeps every invariant, also if it fails. -/
theorem Graph.Invariant.leaves_root (hI : Graph.Invariant I) (settings : Settings) (schema : Json)
    (name : Option String) (path : String) (keys : List String) (hw : I w.graph) :
    I (leaves (Build.root settings schema name path keys w)).graph := by
  have hrefers : (Schema.ofJson schema).Refers fun _ => True := Schema.ofJson_refers fun _ _ => trivial
  have hholds : (hI.bond σ).holds keys w w := ⟨rfl, hw⟩
  have hroot : Together ((hI.bond σ).holds keys) (hI.bond σ).failed
      (Build.root settings schema name path keys w) (Build.root settings schema name path keys w) :=
    Schema.build_together (hI.links settings _) _ hrefers name path hholds
  revert hroot
  generalize Build.root settings schema name path keys w = result
  rintro (⟨-, hleft⟩ | ⟨-, hleft⟩) <;> exact hleft

namespace Registry

variable {r r₀ : Registry σ} {n : NodeId} {node : Node} {text : String}

/-- Building a fragment by a registry changes the graph as building it as a root does. -/
theorem graph_leaves_build : (leaves (build schema name path keys r)).graph =
    (leaves (Build.root r.settings schema name path keys r.workshop)).graph := by
  change (leaves (building (Build.root r.settings schema name path keys) r)).graph = _
  rw [building]
  cases Build.root r.settings schema name path keys r.workshop <;> rfl

/-- A node that a construction creates has a label that is made of fields. -/
theorem made_build (hnew : r.graph.size ≤ n)
    (hnode : (leaves (build schema name path keys r)).graph.node? n = some node) : node.label.Made := by
  have hmade := (Graph.made_invariant r.graph.labels).leaves_root (w := r.workshop) r.settings schema
    name path keys ⟨[], (List.append_nil _).symm, by simp⟩
  rw [← graph_leaves_build] at hmade
  obtain ⟨more, hlabels, hmore⟩ := hmade
  have hlabel := Graph.getElem?_labels (leaves (build schema name path keys r)).graph n
  rw [hlabels, hnode, List.getElem?_append_right (by rwa [← Graph.size_eq_labels])] at hlabel
  exact hmore _ (List.mem_of_getElem? hlabel)

/-- All labels of the roots that a fresh registry builds are made of fields. -/
theorem made_buildRoots {roots : List Json} {ids : List NodeId} (hf : r₀.Fresh)
    (h : buildRoots roots r₀ = .ok ids r) (hnode : r.graph.node? n = some node) : node.label.Made := by
  have hfresh : r₀.graph.labels = [] := by rw [hf.graph]; rfl
  obtain ⟨more, hlabels, hmore⟩ := buildRoots_keeps (Graph.made_invariant []) roots
    ⟨[], hfresh, by simp⟩ h
  have hlabel := Graph.getElem?_labels r.graph n
  rw [hlabels, List.nil_append, hnode] at hlabel
  exact hmore _ (List.mem_of_getElem? hlabel)

end Registry

/-- **Declared nodes have names, but for hollow titles.** Of the nodes that a construction creates, from any
state and whether it succeeds or fails, a declared one is without a name just if its title is hollow. A
compilation that succeeds writes the name of a declaration wherever the declaration is used, and it writes
`null` in its place just if the title is hollow. -/
theorem build_nameless_iff :
    (∀ (r : Registry σ) (schema : Json) (name : Option String) (path : String) (keys : List String)
      (n : NodeId) (node : Node), r.graph.size ≤ n →
      (leaves (Registry.build schema name path keys r)).graph.node? n = some node → node.declared = true →
      (node.name = "" ↔ node.source.HasHollowTitle)) ∧
    ∀ (r₀ r : Registry σ) (text : String), r₀.Fresh → Registry.parse r₀ = .ok text r →
      ∀ n ∈ r.draft.emission.toList, ∃ node, r.graph.node? n = some node ∧
        (r.draft.page n).inline = some node.name ∧ (node.name = "" ↔ node.source.HasHollowTitle) ∧
        (Layout.orNull node.name = "null" ↔ node.source.HasHollowTitle) := by
  refine ⟨?_, ?_⟩
  · intro r schema name path keys n node hnew hnode hdeclared
    exact (Registry.made_build hnew hnode).nameless_iff hdeclared
  · intro r₀ r text hf h n hn
    obtain ⟨ids, hcompiled⟩ := Registry.parse_compiled hf h
    rw [hcompiled.tracks.emission, List.mem_filter] at hn
    obtain ⟨hseen, hdeclared⟩ := hn
    obtain ⟨node, hnode, -⟩ := Graph.node_of_isDeclared hdeclared
    have hinline := hcompiled.tracks.named n hseen hdeclared
    rw [Graph.nameOf_of_node hnode] at hinline
    rw [Graph.isDeclared_of_node hnode] at hdeclared
    have hmade : node.label.Made := by
      obtain ⟨r₁, hbuild, hgraph⟩ := hcompiled.built
      exact Registry.made_buildRoots hf hbuild (hgraph ▸ hnode)
    have hnull : node.name ≠ "null" := by
      obtain ⟨fields, kind, name, path, -, hlabel⟩ := hmade
      rw [show node.name = node.label.name from rfl, hlabel]
      exact Naming.typeName?_ne_scalar _ .null
    refine ⟨node, hnode, hinline, hmade.nameless_iff hdeclared, ?_⟩
    rw [Layout.orNull_eq_null hnull]
    exact hmade.nameless_iff hdeclared

end

/-- A seal, with a title of marks only. -/
def hollowSeal : Json := .obj [("title", .str "!!"), ("type", .str "object")]

/-- A letter with a stamp, and with a seal whose title is hollow. -/
def sealedLetter : Registry Catalog := .queued {} ⟨[]⟩ "" [
  .obj [("title", .str "Letter"), ("type", .str "object"), ("properties", .obj [
    ("seal", hollowSeal), ("stamp", .obj [("type", .str "object")])])]]

theorem build_nameless_sealedLetter :
    (∃ node, (leaves (Registry.build hollowSeal (some "seal") "#" [] sealedLetter)).graph.node? 0 =
        some node ∧ node.declared = true ∧ node.name = "" ∧ node.source.HasHollowTitle) ∧
    ∃ text r, sealedLetter.Fresh ∧ Registry.parse sealedLetter = .ok text r ∧
      text = "interface Letter \x7b\n  seal?: null;\n  stamp?: Stamp;\n\x7d\n\n" ++
        "interface  \x7b\n\x7d\n\ninterface Stamp \x7b\n\x7d" ∧
      1 ∈ r.draft.emission.toList ∧ ∃ node, r.graph.node? 1 = some node ∧
        (r.draft.page 1).inline = some node.name ∧ node.name = "" ∧ node.source.HasHollowTitle ∧
        Layout.orNull node.name = "null" := by
  constructor
  · obtain ⟨node, hnode, hdeclared⟩ : ∃ node,
        (leaves (Registry.build hollowSeal (some "seal") "#" [] sealedLetter)).graph.node? 0 = some node ∧
          node.declared = true :=
      Graph.node_of_isDeclared (by decide +kernel)
    have hname : node.name = "" := by
      rw [← Graph.nameOf_of_node hnode]
      decide +kernel
    exact ⟨node, hnode, hdeclared, hname,
      (build_nameless_iff.1 _ _ _ _ _ 0 node (by decide) hnode hdeclared).mp hname⟩
  · have hfresh : sealedLetter.Fresh := Registry.fresh_queued _ _ _ _
    obtain ⟨text, r, hparse, htest⟩ := exists_of_succeeds (Registry.parse sealedLetter)
      (fun text (r : Registry Catalog) => decide (
        text = "interface Letter \x7b\n  seal?: null;\n  stamp?: Stamp;\n\x7d\n\n" ++
          "interface  \x7b\n\x7d\n\ninterface Stamp \x7b\n\x7d" ∧
        1 ∈ r.draft.emission.toList ∧ r.graph.nameOf 1 = "")) (by decide +kernel)
    obtain ⟨htext, hmem, hname⟩ := of_decide_eq_true htest
    obtain ⟨node, hnode, hinline, hnameless, hnull⟩ := build_nameless_iff.2 _ r text hfresh hparse 1 hmem
    rw [Graph.nameOf_of_node hnode] at hname
    have hhollow := hnameless.mp hname
    exact ⟨text, r, hfresh, hparse, htext, hmem, node, hnode, hinline, hname, hhollow,
      hnull.mpr hhollow⟩

end TypeScribe
