import TypeScribe.Files.Shelf
import TypeScribe.Proofs.Loading
import TypeScribe.Proofs.Pieces

/-!
# Catalogs and shelves of files are lawful

Whatever a catalog serves is one of its documents, and whatever a shelf serves is the document of a file of
its tree, or was served before. So both are lawful sources.

A shelf that starts with nothing served withholds the empty text: the empty path leads to the working
directory, and a document that was served before came from a file, which is at another place
(`Files.Shelf.withholds_empty`).
-/

namespace TypeScribe

theorem Table.mem_insert {κ α : Type} [DecidableEq κ] {table : Table κ α} {key : κ} {value : α}
    {entry : κ × α} (h : entry ∈ table.insert key value) : entry = (key, value) ∨ entry ∈ table := by
  induction table with
  | nil => exact Or.inl (List.mem_singleton.mp h)
  | cons first rest ih =>
    obtain ⟨k, v⟩ := first
    rw [insert] at h
    split at h
    · rename_i hk
      rcases List.mem_cons.mp h with rfl | h
      · exact Or.inl (by rw [hk])
      · exact Or.inr (List.mem_cons_of_mem _ h)
    · rcases List.mem_cons.mp h with rfl | h
      · exact Or.inr (List.mem_cons_self ..)
      · exact (ih h).imp_right (List.mem_cons_of_mem _)

instance : LawfulSource Catalog where
  served {catalog name fields} h := by
    change catalog.find name = .ok fields at h
    rw [Catalog.find] at h
    split at h
    · cases h
    · rename_i found hfound
      cases h
      exact List.mem_map.mpr ⟨_, Table.mem_of_get? hfound, rfl⟩
    · cases h
  shelf _ _ := List.Subset.refl _

/-- Asking a catalog for documents does not change it. -/
theorem Catalog.eq_of_becomes {catalog later : Catalog} (h : Source.Becomes catalog later) :
    later = catalog := by
  induction h with
  | refl => rfl
  | load _ _ ih => exact ih

/-- A catalog withholds what it has no document for. -/
theorem Catalog.withholds {catalog : Catalog} {location : String}
    (h : catalog.documents.get? location = none) : Source.Withholds catalog location := by
  intro later hlater fields hload
  change later.find location = .ok fields at hload
  rw [eq_of_becomes hlater, Catalog.find, h] at hload
  cases hload

namespace Files

/-! ## Files of a tree -/

theorem Tree.walkFrom_ok {tree : Tree} {parts : List String} : ∀ {start place : Place},
    tree.walkFrom start parts = .ok place → place = parts.foldl Path.descend start := by
  induction parts with
  | nil =>
    intro start place h
    cases h
    rfl
  | cons part rest ih =>
    intro start place h
    rw [walkFrom] at h
    split at h
    · cases h
    · cases h
    · split at h
      · cases h
      · exact ih h

/-- A walk that comes to its end ends where the path leads. -/
theorem Tree.walk_ok {tree : Tree} {path : Path} {place : Place} (h : tree.walk path = .ok place) :
    place = path.resolve tree.home := by
  rw [walk] at h
  cases hask : askable path with
  | error trouble =>
    rw [hask] at h
    cases h
  | ok u =>
    rw [hask] at h
    exact walkFrom_ok h

/-- What a path leads to stands where the path resolves to. -/
theorem Tree.stat_ok {tree : Tree} {path : Path} {entry : Entry} (h : tree.stat path = .ok entry) :
    tree.entry? (path.resolve tree.home) = some entry := by
  rw [stat] at h
  cases hwalk : tree.walk path with
  | error trouble =>
    rw [hwalk] at h
    cases h
  | ok place =>
    rw [hwalk] at h
    rw [← walk_ok hwalk]
    cases hentry : tree.entry? place with
    | none =>
      simp only [bind, Except.bind, hentry] at h
      cases h
    | some found =>
      simp only [bind, Except.bind, hentry] at h
      cases h
      rfl

/-- What is read from a path is the file at the place it leads to. -/
theorem Tree.readFile_ok {tree : Tree} {path : Path} {octets : List UInt8}
    (h : tree.readFile path = .ok octets) :
    tree.entry? (path.resolve tree.home) = some (.file octets) := by
  rw [readFile] at h
  cases hstat : tree.stat path with
  | error trouble =>
    rw [hstat] at h
    cases h
  | ok entry =>
    rw [hstat] at h
    cases entry with
    | directory => cases h
    | file content =>
      cases h
      exact stat_ok hstat

namespace Shelf

/-- A document that is read afresh is that of a file where its path resolves to. -/
theorem fetch_ok {shelf : Shelf} {path : Path} {fields : Entries Json}
    (h : shelf.fetch path = .ok fields) :
    ∃ octets, shelf.tree.entry? (path.resolve shelf.tree.home) = some (.file octets) ∧
      document? (.file octets) = some (.obj fields) := by
  rw [fetch, Tree.readJson] at h
  cases hread : shelf.tree.readFile path with
  | error trouble =>
    rw [hread] at h
    cases h
  | ok octets =>
    rw [hread] at h
    refine ⟨octets, Tree.readFile_ok hread, ?_⟩
    rw [document?]
    cases hparse : parseOctets octets with
    | error fault =>
      simp only [hparse] at h
      cases h
    | ok found =>
      simp only [hparse] at h
      cases found <;> cases h
      rfl

/-- **What loading does**: it serves what was served for that place, or the document of the file there, which
counts as served from then on. -/
theorem load_cases (shelf : Shelf) (location : String) :
    (shelf.load location).source = shelf ∧
      (∀ fields, (shelf.load location).result = .ok fields →
        shelf.served.get? (shelf.tree.resolved (Path.ofText location)).toText = some fields) ∨
    ∃ fields octets, (shelf.load location).result = .ok fields ∧
      shelf.tree.entry? ((Path.ofText location).resolve shelf.tree.home) = some (.file octets) ∧
      document? (.file octets) = some (.obj fields) ∧
      (shelf.load location).source =
        ⟨shelf.tree, shelf.served.insert (shelf.tree.resolved (Path.ofText location)).toText fields⟩ := by
  rw [load]
  split
  · exact Or.inl ⟨rfl, fun fields h => by cases h⟩
  · rw [loadPath]
    split
    · rename_i fields hserved
      refine Or.inl ⟨rfl, fun found h => ?_⟩
      cases h
      exact hserved
    · split
      · exact Or.inl ⟨rfl, fun fields h => by cases h⟩
      · rename_i fields hfetch
        obtain ⟨octets, hentry, hdocument⟩ := fetch_ok hfetch
        exact Or.inr ⟨fields, octets, rfl, hentry, hdocument, rfl⟩

/-- The document of a file of the tree is on the shelf. -/
theorem mem_shelf {shelf : Shelf} {place : Place} {octets : List UInt8} {document : Json}
    (hentry : shelf.tree.entry? place = some (.file octets))
    (hdocument : document? (.file octets) = some document) : document ∈ Source.shelf shelf := by
  have hget : shelf.tree.entries.get? place = some (.file octets) := by
    rw [Tree.entry?] at hentry
    split at hentry
    · cases hentry
    · exact hentry
  exact List.mem_append_right _
    (List.mem_filterMap.mpr ⟨(place, .file octets), Table.mem_of_get? hget, hdocument⟩)

instance : LawfulSource Shelf where
  served {shelf location fields} h := by
    rcases shelf.load_cases location with ⟨-, hserved⟩ | ⟨found, octets, hfound, hentry, hdocument, -⟩
    · have hmem := Table.mem_of_get? (hserved fields h)
      exact List.mem_append_left _ (List.mem_map.mpr ⟨_, hmem, rfl⟩)
    · obtain rfl : found = fields := Except.ok.inj (hfound.symm.trans h)
      exact mem_shelf hentry hdocument
  shelf shelf location := by
    rcases shelf.load_cases location with ⟨hsame, -⟩ | ⟨fields, octets, -, hentry, hdocument, hnew⟩
    · change Source.shelf (shelf.load location).source ⊆ _
      rw [hsame]
      exact List.Subset.refl _
    · change Source.shelf (shelf.load location).source ⊆ _
      rw [hnew]
      intro document hmem
      rcases List.mem_append.mp hmem with hmem | hmem
      · obtain ⟨entry, hentry', rfl⟩ := List.mem_map.mp hmem
        rcases Table.mem_insert hentry' with rfl | hold
        · exact mem_shelf hentry hdocument
        · exact List.mem_append_left _ (List.mem_map.mpr ⟨entry, hold, rfl⟩)
      · exact List.mem_append_right _ hmem

end Shelf

/-! ## The empty path -/

/-- Places whose names can stand in a path. -/
def Place.Plain (place : Place) : Prop := ∀ name ∈ place, name ≠ "" ∧ name ≠ "." ∧ '/' ∉ name.toList

theorem Path.plain_ofText (text : String) : Place.Plain (ofText text).parts := by
  intro name hname
  obtain ⟨hmem, hkept⟩ := List.mem_filter.mp hname
  obtain ⟨piece, hpiece, rfl⟩ := List.mem_map.mp hmem
  rw [Bool.and_eq_true, bne_iff_ne, bne_iff_ne] at hkept
  refine ⟨hkept.1, hkept.2, ?_⟩
  rw [String.toList_ofList]
  exact Text.not_mem_of_mem_piecesAt '/' _ piece hpiece

/-- The names of a place that a path leads to are those of the path or of the working directory. Dots lead up
and do not stay. -/
theorem Path.mem_resolve {home : Place} {path : Path} {name : String} (h : name ∈ path.resolve home) :
    name ∈ home ∨ name ∈ path.parts ∧ name ≠ ".." := by
  have hdescend : ∀ (parts : List String) (place : Place), name ∈ parts.foldl descend place →
      name ∈ place ∨ name ∈ parts ∧ name ≠ ".." := by
    intro parts
    induction parts with
    | nil => exact fun place hmem => Or.inl hmem
    | cons part rest ih =>
      intro place hmem
      rcases ih _ hmem with hmem | ⟨hmem, hne⟩
      · rw [descend] at hmem
        split at hmem
        · exact Or.inl (List.dropLast_subset _ hmem)
        · rename_i hpart
          rcases List.mem_append.mp hmem with hmem | hmem
          · exact Or.inl hmem
          · obtain rfl := List.mem_singleton.mp hmem
            exact Or.inr ⟨List.mem_cons_self .., hpart⟩
      · exact Or.inr ⟨List.mem_cons_of_mem _ hmem, hne⟩
  refine (hdescend path.parts _ h).imp_left fun hmem => ?_
  split at hmem
  · exact absurd hmem List.not_mem_nil
  · exact hmem

/-- The place that a plain path leads to from a plain directory is plain. -/
theorem Path.plain_resolve {home : Place} {path : Path} (hhome : home.Plain)
    (hpath : Place.Plain path.parts) : (path.resolve home).Plain := by
  intro name hname
  rcases mem_resolve hname with hname | ⟨hname, -⟩
  · exact hhome name hname
  · exact hpath name hname

/-- Names with slashes in between are read as these names. -/
theorem Place.names_intercalate {place : Place} (h : place.Plain) :
    ((Text.piecesAt '/' ("/".intercalate place).toList).map String.ofList).filter
      (fun part => part != "" && part != ".") = place := by
  induction place with
  | nil => rfl
  | cons name rest ih =>
    obtain ⟨hempty, hdot, hslash⟩ := h name (List.mem_cons_self ..)
    have ih := ih fun other hother => h other (List.mem_cons_of_mem _ hother)
    cases rest with
    | nil =>
      rw [String.intercalate_singleton, Text.piecesAt_of_not_mem hslash]
      simp [hempty, hdot]
    | cons next more =>
      have hchars : ("/".intercalate (name :: next :: more)).toList =
          name.toList ++ '/' :: ("/".intercalate (next :: more)).toList := by
        rw [String.intercalate_cons_cons, String.toList_append, String.toList_append]
        simp
      rw [hchars, Text.piecesAt_append_cons hslash, List.map_cons, String.ofList_toList,
        List.filter_cons_of_pos (by simp [hempty, hdot]), ih]

theorem Place.toText_path (place : Place) : place.path.toText = "/" ++ "/".intercalate place := by
  rw [Path.toText, if_neg (by simp [Place.path])]
  rfl

/-- **The text of a place can be read back.** -/
theorem Place.parts_path {place : Place} (h : place.Plain) :
    (Path.ofText place.path.toText).parts = place := by
  rw [toText_path, Path.ofText, String.toList_append]
  exact names_intercalate h

namespace Shelf

/-- What was served came from files: there is one at the place of every key. -/
def Sound (shelf : Shelf) : Prop :=
  ∀ key fields, shelf.served.get? key = some fields →
    ∃ place octets, place.Plain ∧ key = place.path.toText ∧
      shelf.tree.entry? place = some (.file octets)

/-- Whatever a sound shelf becomes is sound, over the same files. -/
theorem Sound.becomes {shelf later : Shelf} (hhome : shelf.tree.home.Plain) (h : shelf.Sound)
    (hlater : Source.Becomes shelf later) : later.tree = shelf.tree ∧ later.Sound := by
  induction hlater with
  | refl => exact ⟨rfl, h⟩
  | @load middle _ location ih =>
    obtain ⟨htree, hsound⟩ := ih
    change (middle.load location).source.tree = _ ∧ (middle.load location).source.Sound
    rcases middle.load_cases location with ⟨hsame, -⟩ | ⟨fields, octets, -, hentry, -, hnew⟩
    · rw [hsame]
      exact ⟨htree, hsound⟩
    · rw [hnew]
      refine ⟨htree, ?_⟩
      intro key found hfound
      rw [Table.get?_insert] at hfound
      split at hfound
      · rename_i hkey
        refine ⟨_, octets, Path.plain_resolve (htree ▸ hhome) (Path.plain_ofText location), hkey, hentry⟩
      · exact hsound key found hfound

/-- **A shelf withholds the empty text**, if its working directory is one. -/
theorem withholds_empty {tree : Tree} (hplain : tree.home.Plain)
    (hhome : tree.entry? tree.home = some .directory) :
    Source.Withholds (⟨tree, []⟩ : Shelf) "" := by
  intro later hlater fields hload
  obtain ⟨htree, hsound⟩ := Sound.becomes hplain (fun key fields h => by cases h) hlater
  have htree : later.tree = tree := htree
  have hresolve : (Path.ofText "").resolve later.tree.home = tree.home := by
    rw [htree]
    rfl
  rcases later.load_cases "" with ⟨-, hserved⟩ | ⟨found, octets, -, hentry, -⟩
  · obtain ⟨place, octets, hplace, hkey, hentry⟩ := hsound _ fields (hserved fields hload)
    have hsame : place = tree.home := by
      rw [Tree.resolved, hresolve] at hkey
      rw [← Place.parts_path hplace, ← hkey, Place.parts_path hplain]
    rw [hsame, htree, hhome] at hentry
    cases hentry
  · rw [hresolve, htree, hhome] at hentry
    cases hentry

end Shelf

end Files

end TypeScribe
