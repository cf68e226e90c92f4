import TypeScribe.Proofs.Shelves
import TypeScribe.Proofs.Words

/-!
# Type names and identifiers

What is left of a title in its type name need not begin with a letter. Where titles are in ASCII, this is all
that can be wrong with a type name: it is an identifier, or empty, or it begins with a digit
(`Naming.isIdentifier_or_empty_iff`, `Naming.IsAscii.beginsWithDigit_typeName`).

For what is declared in the end one has to know where names come from. A node is named by the title of its
fragment, or else by the property that the fragment is found in. This is kept track of while a document is
built, and every document that it leads to (`Schema.build_called`, `Build.resolve_called`).
-/

namespace TypeScribe

/-! ## Titles in ASCII -/

namespace Naming

open Text

/-- A text of ASCII characters. -/
def IsAscii (text : String) : Prop := ∀ c ∈ text.toList, c.toNat < 0x80

/-- Whether what is left of a title begins with a digit. -/
def leadsWithDigit (title : String) : Bool :=
  (title.toList.find? fun c => isWord c && c != '_').any Char.isDigit

/-- Whether a name begins with a digit. -/
def beginsWithDigit (name : String) : Bool := name.toList.head?.any Char.isDigit

variable {c : Char} {name title : String}

/-- A letter or digit goes on with a name, and it starts one if it is no digit. -/
theorem isNamePart_of_isAlphanum (h : c.isAlphanum = true) :
    isNamePart c = true ∧ isNameStart c = !c.isDigit := by
  have hall : (!c.isAlphanum || (isNamePart c && isNameStart c == !c.isDigit)) = true :=
    forall_ascii (P := fun c => !c.isAlphanum || (isNamePart c && isNameStart c == !c.isDigit))
      (by decide +kernel) (ascii_of_isAlphanum h)
  simpa [h] using hall

/-- Of ASCII, letters and digits are left in a type name, and raising makes letters of letters. -/
theorem isAlphanum_of_isWord (hascii : c.toNat < 0x80) (hword : isWord c = true) (hc : c ≠ '_') :
    c.isAlphanum = true ∧ c.toUpper.isAlphanum = true ∧ c.toUpper.isDigit = c.isDigit := by
  have hall : (!isWord c || c == '_' ||
      (c.isAlphanum && c.toUpper.isAlphanum && c.toUpper.isDigit == c.isDigit)) = true :=
    forall_ascii (P := fun c => !isWord c || c == '_' ||
      (c.isAlphanum && c.toUpper.isAlphanum && c.toUpper.isDigit == c.isDigit)) (by decide +kernel) hascii
  simpa [hword, hc, and_assoc] using hall

/-- **A name of name parts** is an identifier by its first character. -/
theorem isIdentifier_cons {rest : List Char} (hchars : name.toList = c :: rest)
    (hparts : ∀ d ∈ name.toList, isNamePart d = true) : isIdentifier name = isNameStart c := by
  have hfeed : name.toList.getLast? ≠ some '\n' := by
    intro hlast
    exact absurd (hparts _ (List.mem_of_getLast? hlast)) (by decide +kernel)
  have hrest : rest.all isNamePart = true := by
    rw [List.all_eq_true]
    intro d hd
    exact hparts d (hchars ▸ List.mem_cons_of_mem c hd)
  rw [isIdentifier, beq_eq_false_iff_ne.mpr hfeed, hchars, isBareName, hrest]
  simp

/-- **Letters and digits** are an identifier, or nothing, unless a digit comes first. -/
theorem isIdentifier_or_empty_iff (h : ∀ d ∈ name.toList, d.isAlphanum = true) :
    name = "" ∨ isIdentifier name = true ↔ beginsWithDigit name = false := by
  by_cases hne : name = ""
  · simp [hne, beginsWithDigit]
  · obtain ⟨c, rest, hchars⟩ := List.exists_cons_of_ne_nil (toList_ne_nil hne)
    have hstart := (isNamePart_of_isAlphanum (h c (hchars ▸ List.mem_cons_self ..))).2
    rw [isIdentifier_cons hchars fun d hd => (isNamePart_of_isAlphanum (h d hd)).1, hstart,
      beginsWithDigit, hchars]
    simp [hne]

/-- With an underscore before them they are always one. -/
theorem isIdentifier_underscore (h : ∀ d ∈ name.toList, d.isAlphanum = true) :
    isIdentifier ("_" ++ name) = true := by
  have hchars : ("_" ++ name).toList = '_' :: name.toList := by simp
  rw [isIdentifier_cons hchars]
  · decide
  · intro d hd
    rw [hchars] at hd
    rcases List.mem_cons.mp hd with rfl | hd
    · decide +kernel
    · exact (isNamePart_of_isAlphanum (h d hd)).1

/-- An underscore in front keeps a digit from the beginning of a name. -/
theorem beginsWithDigit_underscore (name : String) : beginsWithDigit ("_" ++ name) = false := by
  simp [beginsWithDigit]

/-- The same holds of a name in one of its forms. -/
theorem isIdentifier_form_iff {x : String} (h : ∀ d ∈ name.toList, d.isAlphanum = true)
    (hx : x ∈ nameForms name) : x = "" ∨ isIdentifier x = true ↔ beginsWithDigit x = false := by
  simp only [nameForms, List.mem_cons, List.not_mem_nil, or_false] at hx
  rcases hx with rfl | rfl
  · simp [isIdentifier_underscore h, beginsWithDigit_underscore]
  · exact isIdentifier_or_empty_iff h

theorem upper_ascii (h : c.toNat < 0x80) : upper c = [c.toUpper] := by
  rw [upper, if_pos h]

/-- What stands in the words of a title in ASCII. -/
theorem IsAscii.of_mem_words (h : IsAscii title) {w : List Char} (hw : w ∈ words title) (hc : c ∈ w) :
    c.toNat < 0x80 ∧ isWord c = true ∧ c ≠ '_' := by
  have hmem : c ∈ (words title).flatten := List.mem_flatten.mpr ⟨w, hw, hc⟩
  rw [flatten_words, List.mem_filter, Bool.and_eq_true, bne_iff_ne] at hmem
  exact ⟨h c hmem.1, hmem.2⟩

/-- **The type name of a title in ASCII** has letters and digits only. -/
theorem IsAscii.isAlphanum_typeName (h : IsAscii title) :
    ∀ c ∈ (typeName title).toList, c.isAlphanum = true := by
  intro c hc
  rw [toList_typeName, List.mem_flatMap] at hc
  obtain ⟨w, hw, hc⟩ := hc
  cases w with
  | nil => cases hc
  | cons first rest =>
    rcases List.mem_append.mp hc with hc | hc
    · obtain ⟨hascii, hword, hne⟩ := h.of_mem_words hw (List.mem_cons_self ..)
      obtain rfl : c = first.toUpper := by simpa [upper_ascii hascii] using hc
      exact (isAlphanum_of_isWord hascii hword hne).2.1
    · obtain ⟨hascii, hword, hne⟩ := h.of_mem_words hw (List.mem_cons_of_mem _ hc)
      exact (isAlphanum_of_isWord hascii hword hne).1

/-- It begins with a digit if what is left of the title does. -/
theorem IsAscii.beginsWithDigit_typeName (h : IsAscii title) :
    beginsWithDigit (typeName title) = leadsWithDigit title := by
  rw [beginsWithDigit, leadsWithDigit, ← List.head?_filter, ← flatten_words, toList_typeName]
  cases hwords : words title with
  | nil => rfl
  | cons w more =>
    have hw : w ∈ words title := hwords ▸ List.mem_cons_self ..
    cases w with
    | nil => exact absurd rfl (ne_nil_of_mem_words hw)
    | cons c rest =>
      obtain ⟨hascii, hword, hne⟩ := h.of_mem_words hw (List.mem_cons_self ..)
      simp [capitalized, upper_ascii hascii, (isAlphanum_of_isWord hascii hword hne).2.2]

/-- The type name of a title that may be missing, in ASCII. -/
theorem isAlphanum_typeName? {title : Option String} (h : ∀ t ∈ title, IsAscii t) :
    ∀ c ∈ (typeName? title).toList, c.isAlphanum = true := by
  cases title with
  | none => simp [typeName?]
  | some title => exact (h title rfl).isAlphanum_typeName

/-- The name made of an ASCII title does not begin with a digit unless the title leads with one. -/
theorem beginsWithDigit_typeName? {title : Option String} (h : ∀ t ∈ title, IsAscii t)
    (hled : ∀ t ∈ title, leadsWithDigit t = false) : beginsWithDigit (typeName? title) = false := by
  cases title with
  | none => rfl
  | some title => exact (h title rfl).beginsWithDigit_typeName.trans (hled title rfl)

end Naming

/-! ## Where names come from -/

/-- The names of the properties in a body. -/
def Body.propertyNames : Body → List String
  | .object _ properties => properties.map Prod.fst
  | _ => []

/-- **The titles and property names of a schema are of a kind**, at every depth. -/
def Schema.Called (good : String → Prop) : Schema → Prop :=
  Schema.Every fun facts body _ => (∀ t ∈ facts.title, good t) ∧ ∀ name ∈ body.propertyNames, good name

theorem Schema.Called.and {good better : String → Prop} {s : Schema} (h : s.Called good)
    (h' : s.Called better) : s.Called fun t => good t ∧ better t := by
  induction h with
  | unsupported facts => exact .unsupported facts
  | fragment own _ _ ihparts ihmembers =>
    have .fragment own' hparts hmembers := h'
    refine .fragment ?_ ?_ ?_
    · exact ⟨fun t ht => ⟨own.1 t ht, own'.1 t ht⟩, fun n hn => ⟨own.2 n hn, own'.2 n hn⟩⟩
    · exact fun s hs => ihparts s hs (hparts s hs)
    · exact fun group hgroup s hs => ihmembers group hgroup s hs (hmembers group hgroup s hs)

/-- A state of construction in which every node is named by a text of a kind, or by none, and the source
has nothing but the given documents. -/
structure Workshop.Called {σ : Type} [Source σ] (good : String → Prop) (documents : List Json)
    (w : Workshop σ) : Prop where
  shelf : Source.shelf w.source ⊆ documents
  names : ∀ l ∈ w.graph.labels, ∃ title, (∀ t ∈ title, good t) ∧ l.name = Naming.typeName? title

/-- What holds behind each of two steps holds behind both in turn. -/
theorem leaves_bind {ε S α β : Type} {I : S → Prop} {m : EStateM ε S α} {k : α → EStateM ε S β} {s : S}
    (hm : I (leaves (m s))) (hk : ∀ a s', I s' → I (leaves (k a s'))) : I (leaves ((m >>= k) s)) := by
  rw [bind_apply]
  revert hm
  cases m s with
  | ok a s' => exact hk a s'
  | error e s' => exact id

theorem Build.leaves_linkTo {σ : Type} (ref key : String) (w : Workshop σ) :
    leaves (linkTo ref key w) = w := by
  rw [linkTo_eq]
  split
  · rfl
  · split
    · rfl
    · split <;> rfl

section

variable {σ : Type} [Source σ] {good : String → Prop} {documents : List Json} {w : Workshop σ}
  {link : String → Build σ Link}

namespace Workshop.Called

/-- A new node is named by its title, or by the name that it inherits. -/
theorem enter (h : w.Called good documents) {facts : Facts} (htitle : ∀ t ∈ facts.title, good t)
    {name : Option String} (hname : ∀ t ∈ name, good t) (body : Body) (groups : List Group)
    (path : String) (keys : List String) :
    (w.enter (Schema.node facts body groups name path) path keys).Called good documents := by
  refine ⟨h.shelf, ?_⟩
  intro l hl
  have hl : l ∈ (w.graph.push (Schema.node facts body groups name path)).labels := by
    simpa [Workshop.enter, Workshop.update, Graph.labels] using hl
  rw [Graph.labels_push, List.mem_append, List.mem_singleton] at hl
  rcases hl with hl | rfl
  · exact h.names l hl
  · refine ⟨facts.title.orElse fun _ => name, ?_, rfl⟩
    cases hfacts : facts.title with
    | none => exact hname
    | some title => exact fun t ht => htitle t (hfacts ▸ ht)

/-- Parts of nodes do not matter. -/
theorem adjust (h : w.Called good documents) (id : NodeId) {f : Node → Node}
    (hf : ∀ node, (f node).label = node.label) :
    (leaves (Build.onGraph (·.adjust id f) w)).Called good documents := by
  refine ⟨h.shelf, ?_⟩
  rw [Build.onGraph_apply]
  change ∀ l ∈ (w.graph.adjust id f).labels, _
  rw [Graph.labels_adjust _ id hf]
  exact h.names

theorem reshape (h : w.Called good documents) (id : NodeId) (shape : Shape) :
    (leaves (Build.reshape id shape w)).Called good documents :=
  h.adjust id fun _ => rfl

theorem addField (h : w.Called good documents) (id : NodeId) (field : Field) :
    (leaves (Build.addField id field w)).Called good documents := by
  refine h.adjust id fun node => ?_
  split <;> rfl

theorem augment (h : w.Called good documents) (id : NodeId) (augmentations : List Augmentation) :
    (leaves (Build.augment id augmentations w)).Called good documents :=
  h.adjust id fun _ => rfl

theorem bindNew (h : w.Called good documents) (key : String) (id : NodeId) :
    (leaves (Build.bindNew key id w)).Called good documents := by
  refine ⟨h.shelf, ?_⟩
  rw [Build.bindNew, Build.onGraph_apply]
  change ∀ l ∈ (if w.graph.knows key = true then w.graph else w.graph.bind key id).labels, _
  split <;> exact h.names

/-- A lawful source that is asked for a document has no more than before. -/
theorem asking [LawfulSource σ] (h : w.Called good documents) (ref key : String) :
    (w.asking ref key).Called good documents :=
  ⟨List.Subset.trans (LawfulSource.shelf _ key) h.shelf, h.names⟩

end Workshop.Called

/-- **What is asked of resolving references**: it keeps track of names. -/
def Build.Tracks (good : String → Prop) (documents : List Json) (link : String → Build σ Link) : Prop :=
  ∀ ref {w : Workshop σ}, w.Called good documents → (leaves (link ref w)).Called good documents

mutual

/-- **Building a schema** keeps track of names, if resolving its references does. -/
theorem Schema.build_called (hlink : Build.Tracks good documents link)
    (s : Schema) (hs : s.Called good) {name : Option String} (hname : ∀ t ∈ name, good t) (path : String)
    (keys : List String) {w : Workshop σ} (h : w.Called good documents) :
    (leaves (s.build link name path keys w)).Called good documents := by
  cases hknown : s.facts.id.bind w.graph.find? with
  | some id =>
    rw [Schema.build_known s hknown]
    exact h
  | none =>
    match s with
    | .unsupported facts =>
      rw [Schema.build_unsupported (show facts.id.bind w.graph.find? = none from hknown)]
      exact h
    | .fragment facts body groups =>
      have .fragment ⟨htitle, hproperties⟩ hparts hmembers := hs
      rw [Schema.build_new (show facts.id.bind w.graph.find? = none from hknown), Schema.fill]
      refine leaves_bind (Body.build_called hlink body hproperties hparts _ facts hname path
        (h.enter htitle hname body groups path _)) ?_
      intro _ w h
      refine leaves_bind (Group.buildAll_called hlink groups hmembers facts path h) ?_
      intro augmentations w h
      exact leaves_bind (h.augment _ augmentations) fun _ _ h => h

/-- A body keeps to good names if its property names are good, and those of its parts. -/
theorem Body.build_called (hlink : Build.Tracks good documents link)
    (body : Body) (hproperties : ∀ name ∈ body.propertyNames, good name)
    (hparts : ∀ s ∈ body.parts, s.Called good) (id : NodeId) (facts : Facts) {name : Option String}
    (hname : ∀ t ∈ name, good t) (path : String) {w : Workshop σ} (h : w.Called good documents) :
    (leaves (body.build link id facts name path w)).Called good documents := by
  match body with
  | .scalar _ | .composite | .broken _ | .reference none => exact h
  | .choice alternatives =>
    refine leaves_bind (Schema.buildAll_called hlink alternatives hparts _ _ h) ?_
    exact fun ids w h => h.reshape id _
  | .array items =>
    have hitems := hparts items (List.mem_singleton_self items)
    refine leaves_bind (Schema.build_called hlink items hitems hname _ _ h) ?_
    exact fun item w h => h.reshape id _
  | .object required properties =>
    refine Body.buildFields_called hlink properties ?_ required id path h
    intro p hp
    exact ⟨hproperties p.1 (List.mem_map_of_mem hp), hparts p.2 (List.mem_map_of_mem hp)⟩
  | .reference (some ref) =>
    refine leaves_bind (hlink ref h) ?_
    exact fun l w h => h.reshape id _

theorem Body.buildFields_called (hlink : Build.Tracks good documents link)
    (properties : List (String × Schema)) (hp : ∀ p ∈ properties, good p.1 ∧ p.2.Called good)
    (required : List String) (id : NodeId) (path : String) {w : Workshop σ}
    (h : w.Called good documents) :
    (leaves (Body.buildFields link required properties id path w)).Called good documents := by
  match properties with
  | [] => exact h
  | (name, schema) :: rest =>
    obtain ⟨hname, hschema⟩ := hp (name, schema) (List.mem_cons_self ..)
    have hinherited : ∀ t ∈ some name, good t := by
      rintro t ⟨⟩
      exact hname
    refine leaves_bind (Schema.build_called hlink schema hschema hinherited _ _ h) ?_
    intro type w h
    refine leaves_bind (h.addField id _) ?_
    intro _ w h
    exact Body.buildFields_called hlink rest (fun p hmem => hp p (List.mem_cons_of_mem _ hmem)) required id
      path h

/-- A list of fragments keeps to good names if each fragment does. -/
theorem Schema.buildAll_called (hlink : Build.Tracks good documents link)
    (schemas : List Schema) (hs : ∀ s ∈ schemas, s.Called good) (path : String) (index : Nat)
    {w : Workshop σ} (h : w.Called good documents) :
    (leaves (Schema.buildAll link schemas path index w)).Called good documents := by
  match schemas with
  | [] => exact h
  | schema :: rest =>
    refine leaves_bind (Schema.build_called hlink schema (hs schema (List.mem_cons_self ..)) (by simp)
      _ _ h) ?_
    intro id w h
    exact leaves_bind (Schema.buildAll_called hlink rest
      (fun s hmem => hs s (List.mem_cons_of_mem _ hmem)) path (index + 1) h) fun _ _ h => h

theorem Group.buildAll_called (hlink : Build.Tracks good documents link)
    (groups : List Group) (hg : ∀ group ∈ groups, ∀ s ∈ group.parts, s.Called good) (facts : Facts)
    (path : String) {w : Workshop σ} (h : w.Called good documents) :
    (leaves (Group.buildAll link groups facts path w)).Called good documents := by
  match groups with
  | [] => exact h
  | .malformed _ :: _ => exact h
  | .members keyword schemas :: rest =>
    have hschemas := hg (.members keyword schemas) (List.mem_cons_self ..)
    refine leaves_bind (Schema.buildAll_called hlink schemas hschemas _ _ h) ?_
    intro members w h
    exact leaves_bind (Group.buildAll_called hlink rest
      (fun group hmem => hg group (List.mem_cons_of_mem _ hmem)) facts path h) fun _ _ h => h

end

/-- Resolving a reference changes nothing, unless it leads to a document that is not known yet. -/
theorem Build.leaves_resolve (settings : Settings) (budget : Nat) (ref : String) (w : Workshop σ) :
    leaves (resolve settings budget ref w) = w ∨
      ∃ key, w.graph.keyOf settings ref = .ok key ∧ w.graph.knows key = false ∧ 0 < budget := by
  cases hkey : w.graph.keyOf settings ref with
  | error failure =>
    rw [resolve_failed budget hkey]
    exact Or.inl rfl
  | ok key =>
    cases hknown : w.graph.knows key with
    | true =>
      rw [resolve_known budget hkey hknown, leaves_linkTo]
      exact Or.inl rfl
    | false =>
      cases budget with
      | zero =>
        rw [resolve_endless hkey hknown]
        exact Or.inl rfl
      | succ budget => exact Or.inr ⟨key, rfl, hknown, Nat.succ_pos budget⟩

variable [LawfulSource σ]

/-- **Resolving references** keeps track of names, if the titles and property names of all documents are of
the kind. -/
theorem Build.resolve_called (hdocuments : ∀ v ∈ documents, (Schema.ofJson v).Called good)
    (settings : Settings) (budget : Nat) : Tracks (σ := σ) good documents (resolve settings budget) := by
  induction budget with
  | zero =>
    intro ref w h
    rcases leaves_resolve settings 0 ref w with hsame | ⟨key, -, -, hbudget⟩
    · rwa [hsame]
    · exact absurd hbudget (Nat.lt_irrefl 0)
  | succ budget ih =>
    intro ref w h
    rcases leaves_resolve settings (budget + 1) ref w with hsame | ⟨key, hkey, hknown, -⟩
    · rwa [hsame]
    · rw [resolve_new budget hkey hknown]
      have hasked := h.asking ref key
      cases hloaded : (Source.load w.source key).result with
      | error fault => exact hasked
      | ok fields =>
        have hcalled := hdocuments _ (h.shelf (LawfulSource.served hloaded))
        refine leaves_bind (Schema.build_called ih _ hcalled (by simp) _ _ hasked) ?_
        intro id w h
        refine leaves_bind (h.bindNew key id) ?_
        intro _ w h
        rwa [leaves_linkTo]

namespace Registry

/-- **Building roots in turn** keeps track of names. -/
theorem buildRoots_called (hdocuments : ∀ v ∈ documents, (Schema.ofJson v).Called good)
    (roots : List Json) (hroots : ∀ v ∈ roots, (Schema.ofJson v).Called good) :
    ∀ {r r' : Registry σ} {ids : List NodeId}, r.workshop.Called good documents →
      buildRoots roots r = .ok ids r' → r'.workshop.Called good documents := by
  induction roots with
  | nil =>
    intro r r' ids hr h
    cases h
    exact hr
  | cons schema rest ih =>
    intro r r' ids hr h
    obtain ⟨id, w, node, more, hroot, -, -, hmore, -⟩ := buildRoots_cons h
    have hbuilt := Schema.build_called
      (Build.resolve_called hdocuments r.settings (Source.budget r.workshop.source schema)) _
      (hroots schema (List.mem_cons_self ..)) (show ∀ t ∈ none, good t by simp) "#" [] hr
    change (leaves (Build.root r.settings schema none "#" [] r.workshop)).Called good documents at hbuilt
    rw [hroot] at hbuilt
    exact ih (fun v hv => hroots v (List.mem_cons_of_mem _ hv)) hbuilt hmore

variable {r₀ r : Registry σ} {text : String} {ids : List NodeId}

/-- **Every name comes from a title or a property name** of the roots, or of a document on the shelf. -/
theorem Compiled.exists_called (h : r₀.Compiled r ids text) (hf : r₀.Fresh)
    (hcalled : ∀ v ∈ r₀.pending ++ Source.shelf r₀.workshop.source, (Schema.ofJson v).Called good)
    (n : NodeId) : ∃ title, (∀ t ∈ title, good t) ∧ r.graph.nameOf n = Naming.typeName? title := by
  obtain ⟨r₁, hbuild, hgraph⟩ := h.built
  have hstart : r₀.workshop.Called good (Source.shelf r₀.workshop.source) := by
    refine ⟨List.Subset.refl _, ?_⟩
    rw [show r₀.workshop.graph = {} from hf.graph]
    simp [Graph.labels]
  have hend := buildRoots_called (fun v hv => hcalled v (List.mem_append_right _ hv)) r₀.pending
    (fun v hv => hcalled v (List.mem_append_left _ hv)) hstart hbuild
  cases hnode : r.graph.node? n with
  | none => exact ⟨none, by simp, by rw [Graph.nameOf, hnode]; rfl⟩
  | some node =>
    have hmem : node.label ∈ r.graph.labels :=
      List.mem_of_getElem? (by rw [Graph.getElem?_labels, hnode]; rfl)
    rw [hgraph] at hmem
    obtain ⟨title, htitle, hname⟩ := hend.names _ hmem
    exact ⟨title, htitle, (Graph.nameOf_of_node hnode).trans hname⟩

end Registry

end

/-! ## Declared names -/

section

variable {σ : Type} [Source σ] [LawfulSource σ]

open Naming

/-- **What is declared is an identifier, but for digits.** The type name of a title in ASCII is empty or an
identifier unless what is left of the title begins with a digit. In a compilation that succeeds, where all
titles and property names are in ASCII, whatever is declared is nameless or an identifier unless it begins
with a digit itself; and if no title and no property name leads with a digit, nothing does. -/
theorem parse_identifiers_iff :
    (∀ title, IsAscii title →
      (typeName title = "" ∨ isIdentifier (typeName title) = true ↔ leadsWithDigit title = false)) ∧
    ∀ {r₀ r : Registry σ} {text : String}, r₀.Fresh →
      (∀ v ∈ r₀.pending ++ Source.shelf r₀.workshop.source, (Schema.ofJson v).Called IsAscii) →
      Registry.parse r₀ = .ok text r → ∃ blocks, Written r text blocks ∧
        (∀ d ∈ blocks.flatten,
          (d.declared = "" ∨ isIdentifier d.declared = true ↔ beginsWithDigit d.declared = false)) ∧
        ((∀ v ∈ r₀.pending ++ Source.shelf r₀.workshop.source,
            (Schema.ofJson v).Called fun t => leadsWithDigit t = false) →
          ∀ d ∈ blocks.flatten, d.declared = "" ∨ isIdentifier d.declared = true) := by
  constructor
  · intro title htitle
    rw [← htitle.beginsWithDigit_typeName]
    exact isIdentifier_or_empty_iff htitle.isAlphanum_typeName
  intro r₀ r text hf hascii h
  obtain ⟨ids, hcompiled⟩ := Registry.parse_compiled hf h
  obtain ⟨blocks, hwritten⟩ := hcompiled.written
  have hforms : ∀ d ∈ blocks.flatten, ∃ n, d.declared ∈ nameForms (r.graph.nameOf n) := by
    intro d hd
    obtain ⟨ds, hds, hd⟩ := List.mem_flatten.mp hd
    obtain ⟨n, -, hdeclares⟩ := hwritten.exists_node hds
    exact ⟨n, hdeclares.declared_forms.2 _ (List.mem_map_of_mem hd)⟩
  refine ⟨blocks, hwritten, ?_, ?_⟩
  · intro d hd
    obtain ⟨n, hform⟩ := hforms d hd
    obtain ⟨title, htitle, hname⟩ := hcompiled.exists_called hf hascii n
    exact isIdentifier_form_iff (hname ▸ isAlphanum_typeName? htitle) hform
  · intro hled d hd
    obtain ⟨n, hform⟩ := hforms d hd
    obtain ⟨title, htitle, hname⟩ := hcompiled.exists_called hf
      (fun v hv => Schema.Called.and (hascii v hv) (hled v hv)) n
    have hplain := isAlphanum_typeName? fun t ht => (htitle t ht).1
    rw [hname] at hform
    rw [isIdentifier_form_iff hplain hform]
    simp only [nameForms, List.mem_cons, List.not_mem_nil, or_false] at hform
    rcases hform with hform | hform
    · rw [hform]
      exact beginsWithDigit_underscore _
    · rw [hform]
      exact beginsWithDigit_typeName? (fun t ht => (htitle t ht).1) fun t ht => (htitle t ht).2

/-- A type with a title that is an identifier. -/
def sheetSchema : Json := .obj [("title", .str "sheet"), ("type", .str "string")]

/-- An object without a title that refers to it. -/
def partSchema : Json := .obj [("type", .str "object"), ("allOf", .arr [.obj [("$ref", .str "sheet")]])]

/-- An object whose title leads with a digit, as does the name of its property. -/
def modelSchema : Json := .obj [("title", .str "3d model"), ("properties", .obj [("_2nd part", partSchema)])]

/-- A compilation of that object. -/
def digitTitles : Registry Catalog := .queued {} ⟨[("sheet", sheetSchema)]⟩ "" [modelSchema]

theorem called_digitTitles {good : String → Prop} (hmodel : good "3d model") (hpart : good "_2nd part")
    (hsheet : good "sheet") : ∀ v ∈ digitTitles.pending ++ Source.shelf digitTitles.workshop.source,
      (Schema.ofJson v).Called good := by
  intro v hv
  rcases List.mem_cons.mp hv with rfl | hv
  · have hread : Schema.ofJson modelSchema = .fragment ⟨modelSchema, none, some "3d model"⟩
        (.object [] [("_2nd part", .fragment ⟨partSchema, none, none⟩ (.object [] []) [.members .allOf
          [.fragment ⟨.obj [("$ref", .str "sheet")], none, none⟩ (.reference (some "sheet")) []]])]) [] := rfl
    rw [hread]
    refine .fragment ⟨by simpa using hmodel, by simpa [Body.propertyNames] using hpart⟩ ?_ (by simp)
    simp only [Body.parts, List.map_cons, List.map_nil, List.forall_mem_singleton]
    refine .fragment ⟨by simp, by simp [Body.propertyNames]⟩ (by simp [Body.parts]) ?_
    simp only [Group.parts, List.forall_mem_singleton]
    exact .fragment ⟨by simp, by simp [Body.propertyNames]⟩ (by simp [Body.parts]) (by simp)
  · obtain rfl : v = sheetSchema := List.mem_singleton.mp hv
    have hread : Schema.ofJson sheetSchema =
        .fragment ⟨sheetSchema, none, some "sheet"⟩ (.scalar .string) [] := rfl
    rw [hread]
    exact .fragment ⟨by simpa using hsheet, by simp [Body.propertyNames]⟩ (by simp [Body.parts]) (by simp)

/-- Two of the four names are no identifiers. -/
theorem parse_identifiers_digitTitles :
    ¬ (typeName "3d model" = "" ∨ isIdentifier (typeName "3d model") = true) ∧
    ∃ text r, digitTitles.Fresh ∧
      (∀ v ∈ digitTitles.pending ++ Source.shelf digitTitles.workshop.source, (Schema.ofJson v).Called IsAscii) ∧
      Registry.parse digitTitles = .ok text r ∧
      text = "interface 3dModel \x7b\n  \"_2nd part\"?: 2ndPart;\n\x7d\n\n" ++
        "interface _2ndPart \x7b\n\x7d\n\ntype 2ndPart = _2ndPart & (Sheet);\n\ntype Sheet = string;" ∧
      ∃ blocks, Written r text blocks ∧ ∀ d ∈ blocks.flatten,
        (d.declared = "" ∨ isIdentifier d.declared = true ↔ beginsWithDigit d.declared = false) := by
  constructor
  · rw [(parse_identifiers_iff (σ := Catalog)).1 "3d model" (Text.forall_mem (by decide))]
    decide +kernel
  · have hfresh : digitTitles.Fresh := Registry.fresh_queued _ _ _ _
    have hcalled : ∀ v ∈ digitTitles.pending ++ Source.shelf digitTitles.workshop.source,
        (Schema.ofJson v).Called IsAscii :=
      called_digitTitles (Text.forall_mem (by decide)) (Text.forall_mem (by decide))
        (Text.forall_mem (by decide))
    obtain ⟨text, r, hparse, htest⟩ := exists_of_succeeds (Registry.parse digitTitles)
      (fun text _ => decide (
        text = "interface 3dModel \x7b\n  \"_2nd part\"?: 2ndPart;\n\x7d\n\n" ++
          "interface _2ndPart \x7b\n\x7d\n\ntype 2ndPart = _2ndPart & (Sheet);\n\ntype Sheet = string;"))
      (by decide +kernel)
    obtain ⟨blocks, hwritten, hexact, -⟩ := parse_identifiers_iff.2 hfresh hcalled hparse
    exact ⟨text, r, hfresh, hcalled, hparse, of_decide_eq_true htest, blocks, hwritten, hexact⟩

end

end TypeScribe
