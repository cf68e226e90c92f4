import TypeScribe.Proofs.Shelves
import TypeScribe.Proofs.Writing

/-!
# What a shelf remembers

A shelf remembers the documents it has served by the place that a location resolves to. Locations that
resolve to one place **meet**, however they are spelled.

* **Hit.** What is remembered for a location is served again, and nothing changes (`Shelf.load_recalled`).
* **Miss.** Otherwise the answer is that of a shelf with nothing served (`Shelf.load_unrecalled`). A document
  is remembered from then on for every location that meets this one, and for no other
  (`Shelf.recalled_of_served`, `Shelf.recalled_of_apart`). A failure leaves the shelf as it was
  (`Shelf.source_of_failed`).

Loads are **steps** of a shelf, and changes of its files are steps, too. Whatever the steps are, a document
that is remembered stays (`Shelf.recalled_after`), and what is remembered in the end some load has given
(`Shelf.recalled_origin`).
-/

namespace TypeScribe.Files

/-! ## Where locations lead -/

/-- **The place that a location resolves to** from a working directory. A location with the null character is
no path, and resolves to none. -/
def Place.target? (home : Place) (location : String) : Option Place :=
  if (Path.ofText location).hasNull then none else some ((Path.ofText location).resolve home)

/-- Locations **meet** if they resolve to one place. -/
def Place.Meet (home : Place) (location other : String) : Prop :=
  ∃ place, home.target? location = some place ∧ home.target? other = some place

section

variable {home place place' : Place} {location other third : String}

theorem Place.target_eq_some_iff : home.target? location = some place ↔
    (Path.ofText location).hasNull = false ∧ (Path.ofText location).resolve home = place := by
  rw [target?]
  split <;> simp [*]

theorem Place.Meet.symm (h : home.Meet location other) : home.Meet other location := by
  obtain ⟨place, hlocation, hother⟩ := h
  exact ⟨place, hother, hlocation⟩

theorem Place.Meet.trans (h : home.Meet location other) (h' : home.Meet other third) :
    home.Meet location third := by
  obtain ⟨place, hlocation, hother⟩ := h
  obtain ⟨place', hother', hthird⟩ := h'
  obtain rfl : place = place' := Option.some.inj (hother.symm.trans hother')
  exact ⟨place, hlocation, hthird⟩

/-- Different places have different texts. -/
theorem Place.eq_of_toText_path (hplace : place.Plain) (hplace' : place'.Plain)
    (h : place.path.toText = place'.path.toText) : place = place' := by
  rw [← parts_path hplace, h, parts_path hplace']

theorem Place.plain_of_target (hhome : home.Plain) (h : home.target? location = some place) :
    place.Plain := by
  obtain ⟨-, rfl⟩ := target_eq_some_iff.mp h
  exact Path.plain_resolve hhome (Path.plain_ofText location)

end

/-- A shelf with nothing served. -/
def Tree.shelf (tree : Tree) : Shelf := ⟨tree, []⟩

namespace Shelf

variable {shelf : Shelf} {location other : String} {fields : Entries Json} {place : Place}

/-! ## Loads -/

/-- **What a shelf remembers** for a location. -/
def recalled? (shelf : Shelf) (location : String) : Option (Entries Json) :=
  (shelf.tree.home.target? location).bind fun place => shelf.served.get? place.path.toText

/-- What is remembered of a location is what is remembered of its target. -/
theorem recalled_eq (h : shelf.tree.home.target? location = some place) :
    shelf.recalled? location = shelf.served.get? place.path.toText := by
  rw [recalled?, h, Option.bind_some]

/-- The same is remembered for locations that meet. -/
theorem recalled_meet (h : shelf.tree.home.Meet location other) :
    shelf.recalled? location = shelf.recalled? other := by
  obtain ⟨place, hlocation, hother⟩ := h
  rw [recalled_eq hlocation, recalled_eq hother]

theorem load_of_target (h : shelf.tree.home.target? location = some place) :
    shelf.load location = shelf.loadPath (Path.ofText location) := by
  rw [load, (Place.target_eq_some_iff.mp h).1]
  rfl

theorem load_of_no_target (h : shelf.tree.home.target? location = none) :
    shelf.load location = { result := .error (.file .nullCharacter), source := shelf } := by
  rw [Place.target?] at h
  split at h
  · rename_i hnull
    rw [load, if_pos hnull]
  · cases h

/-- **Hit.** What is remembered is served again. -/
theorem load_recalled (h : shelf.recalled? location = some fields) :
    shelf.load location = { result := .ok fields, source := shelf } := by
  obtain ⟨place, htarget, hserved⟩ := Option.bind_eq_some_iff.mp h
  obtain ⟨-, rfl⟩ := Place.target_eq_some_iff.mp htarget
  rw [load_of_target htarget, loadPath, Tree.resolved, hserved]

/-- **Miss.** What is not remembered is read from the files as they are. -/
theorem load_unrecalled (h : shelf.recalled? location = none) :
    (shelf.load location).result = (shelf.tree.shelf.load location).result := by
  cases htarget : shelf.tree.home.target? location with
  | none =>
    have hfresh : shelf.tree.shelf.tree.home.target? location = none := htarget
    rw [load_of_no_target htarget, load_of_no_target hfresh]
  | some place =>
    have hfresh : shelf.tree.shelf.tree.home.target? location = some place := htarget
    rw [recalled_eq htarget] at h
    rw [load_of_target htarget, load_of_target hfresh]
    obtain ⟨-, rfl⟩ := Place.target_eq_some_iff.mp htarget
    have hfetch : shelf.tree.shelf.fetch (Path.ofText location) = shelf.fetch (Path.ofText location) := rfl
    rw [loadPath, loadPath, Tree.resolved, h, hfetch]
    cases shelf.fetch (Path.ofText location) <;> rfl

/-- A load gives what is remembered, and where nothing is, what a fresh shelf would give. -/
theorem load_ok_iff : (shelf.load location).result = .ok fields ↔
    shelf.recalled? location = some fields ∨
      shelf.recalled? location = none ∧ (shelf.tree.shelf.load location).result = .ok fields := by
  cases hrecall : shelf.recalled? location with
  | none => simp [load_unrecalled hrecall]
  | some found => simp [load_recalled hrecall]

/-- Loads do not touch files. -/
theorem tree_load (shelf : Shelf) (location : String) : (shelf.load location).source.tree = shelf.tree := by
  rcases shelf.load_cases location with ⟨hsame, -⟩ | ⟨found, octets, -, -, -, hnew⟩
  · rw [hsame]
  · rw [hnew]

/-- **A load that fails leaves no trace.** -/
theorem source_of_failed {fault : LoadFault} (h : (shelf.load location).result = .error fault) :
    (shelf.load location).source = shelf := by
  rcases shelf.load_cases location with ⟨hsame, -⟩ | ⟨found, octets, hfound, -⟩
  · exact hsame
  · rw [hfound] at h
    cases h

/-- Only a location with a target is served. -/
theorem target_of_served (h : (shelf.load location).result = .ok fields) :
    ∃ place, shelf.tree.home.target? location = some place := by
  cases htarget : shelf.tree.home.target? location with
  | none =>
    rw [load_of_no_target htarget] at h
    cases h
  | some place => exact ⟨place, rfl⟩

/-- Whether a location is served can be computed. -/
theorem exists_of_isOk (h : (shelf.load location).result.isOk = true) :
    ∃ fields, (shelf.load location).result = .ok fields := by
  cases hload : (shelf.load location).result with
  | ok fields => exact ⟨fields, rfl⟩
  | error fault =>
    rw [hload] at h
    cases h

/-- **A document that is served is remembered** for all locations that meet. -/
theorem recalled_of_served (h : (shelf.load location).result = .ok fields)
    (hmeet : shelf.tree.home.Meet location other) :
    (shelf.load location).source.recalled? other = some fields := by
  obtain ⟨place, htarget, hother⟩ := hmeet
  obtain ⟨-, rfl⟩ := Place.target_eq_some_iff.mp htarget
  rw [recalled_eq (tree_load shelf location ▸ hother)]
  rcases shelf.load_cases location with ⟨hsame, hserved⟩ | ⟨found, octets, hfound, -, -, hnew⟩
  · rw [hsame]
    exact hserved fields h
  · obtain rfl : found = fields := Except.ok.inj (hfound.symm.trans h)
    rw [hnew]
    exact (Table.get?_insert ..).trans (if_pos rfl)

/-- **A load decides what is remembered** for all locations that meet: its document, if it gives one. -/
theorem recalled_load_iff (hmeet : shelf.tree.home.Meet location other) :
    (shelf.load location).source.recalled? other = some fields ↔
      (shelf.load location).result = .ok fields := by
  constructor
  · intro h
    cases hload : (shelf.load location).result with
    | ok found =>
      rw [recalled_of_served hload hmeet] at h
      rw [Option.some.inj h]
    | error fault =>
      rw [source_of_failed hload, ← recalled_meet hmeet] at h
      rw [load_recalled h] at hload
      cases hload
  · exact fun h => recalled_of_served h hmeet

/-- What is remembered for other locations stays as it is. -/
theorem recalled_of_apart (hhome : shelf.tree.home.Plain) (hapart : ¬ shelf.tree.home.Meet location other) :
    (shelf.load location).source.recalled? other = shelf.recalled? other := by
  rcases shelf.load_cases location with ⟨hsame, -⟩ | ⟨found, octets, hfound, -, -, hnew⟩
  · rw [hsame]
  · obtain ⟨place, htarget⟩ := target_of_served hfound
    cases hother : shelf.tree.home.target? other with
    | none => rw [recalled?, recalled?, tree_load, hother, Option.bind_none, Option.bind_none]
    | some place' =>
      have hkey : place'.path.toText ≠ place.path.toText := by
        intro heq
        obtain rfl := Place.eq_of_toText_path (Place.plain_of_target hhome hother)
          (Place.plain_of_target hhome htarget) heq
        exact hapart ⟨_, htarget, hother⟩
      obtain ⟨-, rfl⟩ := Place.target_eq_some_iff.mp htarget
      rw [recalled_eq hother, recalled_eq (tree_load shelf location ▸ hother), hnew]
      exact (Table.get?_insert ..).trans (if_neg hkey)

end Shelf

/-! ## Changes of files -/

/-- **Writing** a file at a path, whose directories are there. -/
def Tree.writeFile (tree : Tree) (path : Path) (octets : List UInt8) : Except Trouble Tree := do
  let place ← tree.walk path
  match tree.entry? place with
  | some .directory => .error .isDirectory
  | _ => .ok (tree.put place (.file octets))

/-- **Removing** the file at a path. -/
def Tree.removeFile (tree : Tree) (path : Path) : Except Trouble Tree := do
  let place ← tree.walk path
  match tree.entry? place with
  | none => .error .missing
  | some .directory => .error .isDirectory
  | some (.file _) => .ok (tree.remove place)

/-- A change of files. -/
inductive Edit where
  /-- A file is written, and the directories above it are made. -/
  | put (location : String) (octets : List UInt8)
  /-- A file is removed. -/
  | remove (location : String)
  deriving Repr, DecidableEq

namespace Edit

/-- A change at a path that may be refused, and is then none. -/
def attempt (path : Path) (change : Tree → Except Trouble Tree) : Output.OnTree Unit := fun tree =>
  match change tree with
  | .ok tree' => .ok () tree'
  | .error trouble => .error (.file trouble path.toText) tree

/-- **Makes a change.** -/
def run : Edit → Output.OnTree Unit
  | .put location octets => do
    let path := Path.ofText location
    Output.ensureDirectories path.parent
    attempt path (·.writeFile path octets)
  | .remove location =>
    let path := Path.ofText location
    attempt path (·.removeFile path)

theorem home_attempt {path : Path} {change : Tree → Except Trouble Tree}
    (h : ∀ {tree tree'}, change tree = .ok tree' → tree'.home = tree.home) (tree : Tree) :
    (leaves (attempt path change tree)).home = tree.home := by
  rw [attempt]
  cases hchange : change tree with
  | ok tree' => exact h hchange
  | error trouble => rfl

theorem exists_of_walked {tree tree' : Tree} {path : Path} {change : Place → Except Trouble Tree}
    (h : (tree.walk path >>= change) = .ok tree') : ∃ place, change place = .ok tree' := by
  cases hwalk : tree.walk path with
  | error trouble =>
    rw [hwalk] at h
    cases h
  | ok place =>
    rw [hwalk] at h
    exact ⟨place, h⟩

theorem home_writeFile {tree tree' : Tree} {path : Path} {octets : List UInt8}
    (h : tree.writeFile path octets = .ok tree') : tree'.home = tree.home := by
  obtain ⟨place, h⟩ := exists_of_walked h
  split at h <;> cases h
  rfl

theorem home_removeFile {tree tree' : Tree} {path : Path} (h : tree.removeFile path = .ok tree') :
    tree'.home = tree.home := by
  obtain ⟨place, h⟩ := exists_of_walked h
  split at h <;> cases h
  rfl

/-- Whatever happens to files, the working directory stays. -/
theorem home_run (edit : Edit) (tree : Tree) : (leaves (edit.run tree)).home = tree.home := by
  cases edit with
  | remove location => exact home_attempt home_removeFile tree
  | put location octets =>
    have hgrown := Output.ensureDirectories_grown (Path.ofText location).parent tree
    change (leaves ((Output.ensureDirectories (Path.ofText location).parent >>= fun _ =>
      attempt (Path.ofText location) (·.writeFile (Path.ofText location) octets)) tree)).home = _
    cases hensure : Output.ensureDirectories (Path.ofText location).parent tree with
    | error failure grown =>
      rw [bind_error _ hensure]
      rw [hensure] at hgrown
      exact hgrown.home
    | ok u grown =>
      rw [bind_ok _ hensure]
      rw [hensure] at hgrown
      exact (home_attempt home_writeFile grown).trans hgrown.home

end Edit

/-! ## Steps -/

namespace Shelf

/-- **What happens to a shelf**: it is asked for a document, or its files are changed. -/
inductive Step where
  | load (location : String)
  | edit (edit : Edit)
  deriving Repr, DecidableEq

/-- **What a step gives**: a document or the reason why there is none, and for a change of files whether it
was made. -/
inductive Reply where
  | document (fields : Entries Json)
  | unavailable (fault : LoadFault)
  | done
  | refused (failure : Output.WriteFailure)

/-- The reply of a load. -/
def Reply.ofLoad : Except LoadFault (Entries Json) → Reply
  | .ok fields => .document fields
  | .error fault => .unavailable fault

/-- The reply of a step. -/
def reply (shelf : Shelf) : Step → Reply
  | .load location => .ofLoad (shelf.load location).result
  | .edit edit =>
    match edit.run shelf.tree with
    | .ok _ _ => .done
    | .error failure _ => .refused failure

/-- The shelf behind a step. -/
def next (shelf : Shelf) : Step → Shelf
  | .load location => (shelf.load location).source
  | .edit edit => { shelf with tree := leaves (edit.run shelf.tree) }

/-- The shelf after steps in turn. -/
def after (shelf : Shelf) (steps : List Step) : Shelf := steps.foldl next shelf

/-- **The replies** of steps in turn. -/
def replies (shelf : Shelf) : List Step → List Reply
  | [] => []
  | step :: rest => shelf.reply step :: (shelf.next step).replies rest

variable {shelf : Shelf} {location other : String} {fields : Entries Json}

theorem Reply.ofLoad_eq_document {result : Except LoadFault (Entries Json)} :
    ofLoad result = .document fields ↔ result = .ok fields := by
  cases result <;> simp [ofLoad]

theorem Reply.ofLoad_eq_unavailable {result : Except LoadFault (Entries Json)} {fault : LoadFault} :
    ofLoad result = .unavailable fault ↔ result = .error fault := by
  cases result <;> simp [ofLoad]

theorem after_append (shelf : Shelf) (steps more : List Step) :
    shelf.after (steps ++ more) = (shelf.after steps).after more := List.foldl_append

theorem after_concat (shelf : Shelf) (steps : List Step) (step : Step) :
    shelf.after (steps ++ [step]) = (shelf.after steps).next step := after_append shelf steps [step]

/-- The reply of a step is that of the shelf that the steps before have left. -/
theorem getElem?_replies (steps : List Step) : ∀ (shelf : Shelf) (i : Nat),
    (shelf.replies steps)[i]? = steps[i]?.map (shelf.after (steps.take i)).reply := by
  induction steps with
  | nil => exact fun shelf i => rfl
  | cons step rest ih =>
    intro shelf i
    cases i with
    | zero => rfl
    | succ i =>
      rw [replies, List.getElem?_cons_succ, List.getElem?_cons_succ, ih]
      rfl

/-- The reply to a load is what the shelf after the steps before it gives. -/
theorem getElem?_replies_load {steps : List Step} {i : Nat} (h : steps[i]? = some (.load location)) :
    (shelf.replies steps)[i]? =
      some (.ofLoad ((shelf.after (steps.take i)).load location).result) := by
  rw [getElem?_replies, h]
  rfl

theorem home_next (shelf : Shelf) (step : Step) : (shelf.next step).tree.home = shelf.tree.home := by
  cases step with
  | load location => rw [next, tree_load]
  | edit edit => exact edit.home_run shelf.tree

/-- The working directory stays the same. -/
theorem home_after (steps : List Step) : ∀ shelf : Shelf,
    (shelf.after steps).tree.home = shelf.tree.home := by
  induction steps with
  | nil => exact fun shelf => rfl
  | cons step rest ih => exact fun shelf => (ih (shelf.next step)).trans (home_next shelf step)

/-- Changes of files leave what is remembered. -/
theorem recalled_edit (shelf : Shelf) (edit : Edit) (location : String) :
    (shelf.next (.edit edit)).recalled? location = shelf.recalled? location := by
  rw [recalled?, recalled?, home_next]
  rfl

section

variable (hhome : shelf.tree.home.Plain)
include hhome

/-- **What is remembered stays** over a step. -/
theorem recalled_next (step : Step) (h : shelf.recalled? location = some fields) :
    (shelf.next step).recalled? location = some fields := by
  cases step with
  | edit edit => rw [recalled_edit, h]
  | load asked =>
    change (shelf.load asked).source.recalled? location = some fields
    by_cases hmeet : shelf.tree.home.Meet asked location
    · rw [load_recalled ((recalled_meet hmeet).trans h)]
      exact h
    · rw [recalled_of_apart hhome hmeet, h]

/-- **What is remembered stays**, whatever happens. -/
theorem recalled_after (steps : List Step) (h : shelf.recalled? location = some fields) :
    (shelf.after steps).recalled? location = some fields := by
  induction steps generalizing shelf with
  | nil => exact h
  | cons step rest ih => exact ih (home_next shelf step ▸ hhome) (recalled_next hhome step h)

end

/-- **What is remembered some load has given**, if nothing was remembered in the beginning. -/
theorem recalled_origin {tree : Tree} (hhome : tree.home.Plain) {steps : List Step}
    (h : (tree.shelf.after steps).recalled? location = some fields) :
    ∃ (i : Nat) (asked : String), steps[i]? = some (.load asked) ∧ tree.home.Meet asked location ∧
      (tree.shelf.replies steps)[i]? = some (.document fields) := by
  induction steps using List.reverseRecOn with
  | nil =>
    obtain ⟨place, -, hserved⟩ := Option.bind_eq_some_iff.mp h
    cases hserved
  | append_singleton steps step ih =>
    by_cases hold : (tree.shelf.after steps).recalled? location = some fields
    · obtain ⟨i, asked, hi, hmeet, hreply⟩ := ih hold
      have hlt : i < steps.length := (List.getElem?_eq_some_iff.mp hi).1
      refine ⟨i, asked, (List.getElem?_append_left hlt).trans hi, hmeet, ?_⟩
      rw [getElem?_replies, List.getElem?_append_left hlt,
        List.take_append_of_le_length (Nat.le_of_lt hlt), ← getElem?_replies, hreply]
    · have hhome' : (tree.shelf.after steps).tree.home = tree.home := home_after steps tree.shelf
      rw [after_concat] at h
      cases step with
      | edit edit =>
        rw [recalled_edit] at h
        exact absurd h hold
      | load asked =>
        have hmeet : tree.home.Meet asked location := by
          by_contra hapart
          rw [← recalled_of_apart (hhome' ▸ hhome) (hhome' ▸ hapart)] at hold
          exact hold h
        have hlast : (steps ++ [Step.load asked])[steps.length]? = some (.load asked) :=
          List.getElem?_concat_length
        refine ⟨steps.length, asked, hlast, hmeet, ?_⟩
        rw [getElem?_replies_load hlast, List.take_left, Option.some_inj, Reply.ofLoad_eq_document]
        exact (recalled_load_iff (hhome' ▸ hmeet)).mp h

end Shelf

end TypeScribe.Files
