import TypeScribe.Proofs.Atomicity
import TypeScribe.Proofs.Recall

/-!
# Detours

A shelf resolves a location by its names alone when it looks for what it remembers, and walks through the
directories when it reads a file. A walk that comes to its end ends at the place that the location resolves
to. But it may be **blocked** where resolving is not: by a directory that is missing or is a file, although
the path leaves it again, or by a name that is too long.

So as long as files do not change, what a shelf remembers makes no difference to any reply, but for
**detours**: a location whose way is blocked is served all the same, if one that meets it was served before
(`Shelf.replies_fresh_iff`).
-/

namespace TypeScribe.Files

/-- **The document at a place** is that of the file there. -/
def Tree.Holds (tree : Tree) (place : Place) (fields : Entries Json) : Prop :=
  ∃ octets, tree.entry? place = some (.file octets) ∧ Shelf.document? (.file octets) = some (.obj fields)

section

variable {tree : Tree} {place : Place} {location : String} {fields fields' : Entries Json}
  {trouble : Trouble}

/-- A place holds one document at most. -/
theorem Tree.Holds.unique (h : tree.Holds place fields) (h' : tree.Holds place fields') :
    fields = fields' := by
  obtain ⟨octets, hentry, hdocument⟩ := h
  obtain ⟨octets', hentry', hdocument'⟩ := h'
  cases hentry.symm.trans hentry'
  exact Json.obj.inj (Option.some.inj (hdocument.symm.trans hdocument'))

/-! ## Reading afresh -/

namespace Shelf

theorem fetch_of_blocked {shelf : Shelf} {path : Path} (h : shelf.tree.walk path = .error trouble) :
    shelf.fetch path = .error (.file trouble) := by
  rw [fetch, Tree.readJson, Tree.readFile, Tree.stat, h]
  rfl

/-- A walk that gets to a document fetches it. -/
theorem fetch_of_walked {shelf : Shelf} {path : Path} (h : shelf.tree.walk path = .ok place)
    (hholds : shelf.tree.Holds place fields) : shelf.fetch path = .ok fields := by
  obtain ⟨octets, hentry, hdocument⟩ := hholds
  have hread : shelf.tree.readFile path = .ok octets := by
    rw [Tree.readFile, Tree.stat, h]
    simp only [bind, Except.bind, hentry]
  rw [fetch, Tree.readJson, hread]
  rw [document?] at hdocument
  split at hdocument
  · rename_i found hparse
    cases hdocument
    simp only [hparse]
  · cases hdocument

theorem fresh_eq (h : tree.home.target? location = some place) :
    (tree.shelf.load location).result = tree.shelf.fetch (Path.ofText location) := by
  have hload : tree.shelf.load location = _ := load_of_target h
  have hserved : tree.shelf.served.get? (tree.shelf.tree.resolved (Path.ofText location)).toText = none := rfl
  rw [hload, loadPath]
  simp only [hserved]
  cases tree.shelf.fetch (Path.ofText location) <;> rfl

/-- **A location is served afresh** if the way to its place is free, and there is a document. -/
theorem fresh_ok_iff : (tree.shelf.load location).result = .ok fields ↔
    ∃ place, tree.home.target? location = some place ∧ tree.walk (Path.ofText location) = .ok place ∧
      tree.Holds place fields := by
  constructor
  · intro h
    obtain ⟨place, htarget⟩ := target_of_served h
    have htarget : tree.home.target? location = some place := htarget
    rw [fresh_eq htarget] at h
    obtain ⟨-, rfl⟩ := Place.target_eq_some_iff.mp htarget
    cases hwalk : tree.walk (Path.ofText location) with
    | error trouble =>
      rw [fetch_of_blocked hwalk] at h
      cases h
    | ok place =>
      exact ⟨_, htarget, by rw [Tree.walk_ok hwalk], fetch_ok h⟩
  · rintro ⟨place, htarget, hwalk, hholds⟩
    rw [fresh_eq htarget]
    exact fetch_of_walked hwalk hholds

end Shelf

/-! ## Loads in turn -/

/-- **A detour**: the way to a location is blocked, and one that meets it was served before. -/
structure Tree.Detour (tree : Tree) (before : List String) (location : String) : Prop where
  blocked : ∃ trouble, tree.walk (Path.ofText location) = .error trouble
  served : ∃ earlier ∈ before, tree.home.Meet earlier location ∧
    ∃ fields, (tree.shelf.load earlier).result = .ok fields

namespace Shelf

/-- Loading changes no file. -/
theorem tree_after_loads (shelf : Shelf) (locations : List String) :
    (shelf.after (locations.map .load)).tree = shelf.tree := by
  induction locations generalizing shelf with
  | nil => rfl
  | cons location rest ih => exact (ih _).trans (tree_load shelf location)

/-- Locations that meet are not served different documents afresh. -/
theorem fresh_unique {other : String} (hmeet : tree.home.Meet location other)
    (h : (tree.shelf.load location).result = .ok fields)
    (h' : (tree.shelf.load other).result = .ok fields') : fields = fields' := by
  obtain ⟨place, htarget, htarget'⟩ := hmeet
  obtain ⟨_, hsame, -, hholds⟩ := fresh_ok_iff.mp h
  obtain ⟨_, hsame', -, hholds'⟩ := fresh_ok_iff.mp h'
  cases htarget.symm.trans hsame
  cases htarget'.symm.trans hsame'
  exact hholds.unique hholds'

/-- **What loads leave behind**: for a location, what one that meets it would be served afresh. -/
theorem recalled_loads_iff (hhome : tree.home.Plain) (before : List String) (location : String)
    (fields : Entries Json) :
    (tree.shelf.after (before.map .load)).recalled? location = some fields ↔
      ∃ earlier ∈ before, tree.home.Meet earlier location ∧
        (tree.shelf.load earlier).result = .ok fields := by
  induction before using List.reverseRecOn generalizing location fields with
  | nil =>
    constructor
    · intro h
      obtain ⟨place, -, hserved⟩ := Option.bind_eq_some_iff.mp h
      cases hserved
    · rintro ⟨earlier, hmem, -⟩
      cases hmem
  | append_singleton before last ih =>
    have htree := tree_after_loads tree.shelf before
    rw [List.map_append, List.map_singleton, after_concat]
    generalize hshelf : tree.shelf.after (before.map .load) = shelf at ih htree
    have htree : shelf.tree = tree := htree
    change (shelf.load last).source.recalled? location = some fields ↔ _
    by_cases hmeet : tree.home.Meet last location
    · rw [recalled_load_iff (htree ▸ hmeet), load_ok_iff, ih, htree]
      constructor
      · rintro (⟨earlier, hmem, hearlier, hfresh⟩ | ⟨-, hfresh⟩)
        · exact ⟨earlier, List.mem_append_left _ hmem, hearlier.trans hmeet, hfresh⟩
        · exact ⟨last, List.mem_concat_self, hmeet, hfresh⟩
      · rintro ⟨earlier, hmem, hearlier, hfresh⟩
        rcases List.mem_append.mp hmem with hmem | hmem
        · exact Or.inl ⟨earlier, hmem, hearlier.trans hmeet.symm, hfresh⟩
        · obtain rfl := List.mem_singleton.mp hmem
          cases hrecall : shelf.recalled? earlier with
          | none => exact Or.inr ⟨rfl, hfresh⟩
          | some found =>
            obtain ⟨first, hfirst, hback, hfound⟩ := (ih earlier found).mp hrecall
            rw [← fresh_unique hback hfound hfresh]
            exact Or.inl ⟨first, hfirst, hback, hfound⟩
    · rw [recalled_of_apart (htree ▸ hhome) (htree ▸ hmeet), ih]
      constructor
      · exact fun ⟨earlier, hmem, h⟩ => ⟨earlier, List.mem_append_left _ hmem, h⟩
      · rintro ⟨earlier, hmem, hearlier, hfresh⟩
        rcases List.mem_append.mp hmem with hmem | hmem
        · exact ⟨earlier, hmem, hearlier, hfresh⟩
        · obtain rfl := List.mem_singleton.mp hmem
          exact absurd hearlier hmeet

/-- **What a detour comes to**: the document is served although it could not be read. -/
theorem load_of_detour (hhome : tree.home.Plain) {before : List String} (h : tree.Detour before location) :
    ∃ place fields trouble, tree.home.target? location = some place ∧ tree.Holds place fields ∧
      tree.walk (Path.ofText location) = .error trouble ∧
      ((tree.shelf.after (before.map .load)).load location).result = .ok fields ∧
      (tree.shelf.load location).result = .error (.file trouble) := by
  obtain ⟨trouble, hblocked⟩ := h.blocked
  obtain ⟨earlier, hmem, hmeet, fields, hserved⟩ := h.served
  have hrecall := (recalled_loads_iff hhome before location fields).mpr ⟨earlier, hmem, hmeet, hserved⟩
  obtain ⟨place, htarget, htarget'⟩ := hmeet
  obtain ⟨_, hsame, -, hholds⟩ := fresh_ok_iff.mp hserved
  cases htarget.symm.trans hsame
  refine ⟨place, fields, trouble, htarget', hholds, hblocked, by rw [load_recalled hrecall], ?_⟩
  rw [fresh_eq htarget', fetch_of_blocked hblocked]

/-- Without a detour, the answer is what it would be if nothing had been served. -/
theorem load_of_no_detour (hhome : tree.home.Plain) {before : List String}
    (h : ¬ tree.Detour before location) :
    ((tree.shelf.after (before.map .load)).load location).result = (tree.shelf.load location).result := by
  cases hrecall : (tree.shelf.after (before.map .load)).recalled? location with
  | none => rw [load_unrecalled hrecall, tree_after_loads]; rfl
  | some fields =>
    obtain ⟨earlier, hmem, hmeet, hserved⟩ := (recalled_loads_iff hhome before location fields).mp hrecall
    cases hwalk : tree.walk (Path.ofText location) with
    | error trouble => exact absurd ⟨⟨trouble, hwalk⟩, earlier, hmem, hmeet, fields, hserved⟩ h
    | ok place =>
      obtain ⟨place', htarget, htarget'⟩ := hmeet
      obtain ⟨_, hsame, -, hholds⟩ := fresh_ok_iff.mp hserved
      cases htarget.symm.trans hsame
      obtain ⟨-, rfl⟩ := Place.target_eq_some_iff.mp htarget'
      rw [load_recalled hrecall]
      exact (fresh_ok_iff.mpr ⟨_, htarget', by rw [hwalk, Tree.walk_ok hwalk], hholds⟩).symm

end Shelf

/-- **Straight ways are free**: in a closed tree, a location without double dots is no detour, unless it or a
name in it is too long. -/
theorem Tree.Closed.not_detour (h : tree.Closed) {before : List String}
    (hdots : ".." ∉ (Path.ofText location).parts)
    (hshort : ∀ part ∈ (Path.ofText location).parts, part.utf8ByteSize ≤ nameLimit)
    (hsize : (Path.ofText location).toText.utf8ByteSize ≤ pathLimit) : ¬ tree.Detour before location := by
  intro hdetour
  obtain ⟨trouble, hblocked⟩ := hdetour.blocked
  obtain ⟨earlier, -, ⟨place, hearlier, htarget⟩, fields, hserved⟩ := hdetour.served
  obtain ⟨_, hsame, -, octets, hentry, -⟩ := Shelf.fresh_ok_iff.mp hserved
  cases hearlier.symm.trans hsame
  obtain ⟨hnull, hresolve⟩ := Place.target_eq_some_iff.mp htarget
  rw [Path.resolve, Path.foldl_descend hdots] at hresolve
  have hask : askable (Path.ofText location) = .ok () := by
    rw [askable, hnull, if_neg (by simp), if_neg (Nat.not_lt.mpr hsize)]
  rw [walk, hask] at hblocked
  rcases h.walkFrom _ hdots _ (by rw [hresolve, hentry]; rfl) with hwalk | hwalk
  · cases hwalk.symm.trans hblocked
  · obtain ⟨part, hpart, hlong⟩ := walkFrom_too_long _ hwalk
    exact absurd (hshort part hpart) (Nat.not_le.mpr hlong)

end

/-- **What is remembered makes no difference, but for detours.** When locations are loaded in turn from files
that do not change, each of them has the reply that a shelf with nothing served would give, unless it is a
detour. Then the reply is the document at its place, and a shelf with nothing served would say what blocks the
way. If everything stands in a directory, a location without double dots is no detour, as long as it is not
too long. -/
theorem Shelf.replies_fresh_iff {tree : Tree} (hhome : tree.home.Plain) {locations : List String} {i : Nat}
    {location : String} (hi : locations[i]? = some location) :
    ((tree.shelf.replies (locations.map .load))[i]? = some (tree.shelf.reply (.load location)) ↔
      ¬ tree.Detour (locations.take i) location) ∧
    (tree.Detour (locations.take i) location → ∃ place fields trouble,
      tree.home.target? location = some place ∧ tree.Holds place fields ∧
      tree.walk (Path.ofText location) = .error trouble ∧
      (tree.shelf.replies (locations.map .load))[i]? = some (.document fields) ∧
      tree.shelf.reply (.load location) = .unavailable (.file trouble)) ∧
    (tree.Closed → ".." ∉ (Path.ofText location).parts →
      (∀ part ∈ (Path.ofText location).parts, part.utf8ByteSize ≤ Tree.nameLimit) →
      (Path.ofText location).toText.utf8ByteSize ≤ Tree.pathLimit →
      ¬ tree.Detour (locations.take i) location) := by
  have hstep : (locations.map Step.load)[i]? = some (.load location) := by
    rw [List.getElem?_map, hi, Option.map_some]
  have hreply : (tree.shelf.replies (locations.map .load))[i]? = _ := getElem?_replies_load hstep
  rw [← List.map_take] at hreply
  have hdetour : tree.Detour (locations.take i) location → ∃ place fields trouble,
      tree.home.target? location = some place ∧ tree.Holds place fields ∧
      tree.walk (Path.ofText location) = .error trouble ∧
      (tree.shelf.replies (locations.map .load))[i]? = some (.document fields) ∧
      tree.shelf.reply (.load location) = .unavailable (.file trouble) := by
    intro h
    obtain ⟨place, fields, trouble, htarget, hholds, hblocked, hserved, hfresh⟩ := load_of_detour hhome h
    refine ⟨place, fields, trouble, htarget, hholds, hblocked, ?_, ?_⟩
    · rw [hreply, hserved]
      rfl
    · rw [reply, hfresh]
      rfl
  refine ⟨⟨?_, ?_⟩, hdetour, fun hclosed => hclosed.not_detour⟩
  · intro hsame h
    obtain ⟨place, fields, trouble, -, -, -, hserved, hfresh⟩ := hdetour h
    rw [hserved, hfresh] at hsame
    cases hsame
  · intro h
    rw [hreply, load_of_no_detour hhome h]
    rfl

/-- A working directory with a document and an empty directory. -/
def fileAndDirectory : Tree :=
  ⟨["w"], [(["w"], .directory), (["w", "s"], .directory), (["w", "a"], .file [123, 125])]⟩

/-- By way of a directory that is there, the document is served as it would be afresh. By way of one that is
missing, it is served only because it was before. -/
theorem Shelf.replies_fresh_iff_fileAndDirectory :
    fileAndDirectory.home.Plain ∧
    (fileAndDirectory.shelf.replies (["a", "s/../a", "x/../a"].map .load))[1]? =
      some (fileAndDirectory.shelf.reply (.load "s/../a")) ∧
    (fileAndDirectory.shelf.replies (["a", "s/../a", "x/../a"].map .load))[2]? ≠
      some (fileAndDirectory.shelf.reply (.load "x/../a")) := by
  have hhome : fileAndDirectory.home.Plain := by unfold Place.Plain; decide
  have hmeet : fileAndDirectory.home.Meet "a" "x/../a" := ⟨["w", "a"], by decide +kernel, by decide +kernel⟩
  have hfree : fileAndDirectory.walk (Path.ofText "s/../a") = .ok ["w", "a"] := by decide +kernel
  have hblocked : fileAndDirectory.walk (Path.ofText "x/../a") = .error .missing := by decide +kernel
  have hserved : ∃ fields, (fileAndDirectory.shelf.load "a").result = .ok fields :=
    exists_of_isOk (by decide +kernel)
  refine ⟨hhome, (replies_fresh_iff hhome rfl).1.mpr ?_, fun hsame => ?_⟩
  · intro h
    obtain ⟨trouble, hwalk⟩ := h.blocked
    cases hfree.symm.trans hwalk
  · exact (replies_fresh_iff hhome rfl).1.mp hsame ⟨⟨_, hblocked⟩, "a", by simp, hmeet, hserved⟩

end TypeScribe.Files
