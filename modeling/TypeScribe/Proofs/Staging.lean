import TypeScribe.Proofs.Writing

/-!
# A file beside the target

New content is not written over the target. It goes to a file **beside** the target, under a name that nothing
else has; it is checked there, and then that file is moved to the target's place, or removed if anything fails.
`Output.writeStaged` does all of this step by step. It comes to the same as `Output.write`, which does without
that file, in what it says and in the tree that it leaves (`Output.writeStaged_eq`). So nothing is left of the
file, however a write ends.

The file must not get in the way of the path. It does not, because the path only passes directories, once they
have been made (`Output.ensureDirectories_ok`).
-/

namespace TypeScribe

/-! ## Tables -/

namespace Table

variable {κ α : Type} [DecidableEq κ] {table : Table κ α} {key other : κ}

theorem erase_cons (k : κ) (v : α) (rest : Table κ α) (key : κ) :
    erase ((k, v) :: rest) key = if k = key then rest.erase key else (k, v) :: rest.erase key := by
  by_cases hk : k = key <;> simp [erase, hk]

/-- **A new entry can be taken out again.** -/
theorem erase_insert_new (h : table.get? key = none) (value : α) :
    (table.insert key value).erase key = table := by
  induction table with
  | nil => simp [insert, erase]
  | cons entry rest ih =>
    obtain ⟨k, v⟩ := entry
    rw [get?_cons] at h
    split at h
    · cases h
    · rename_i hk
      rw [insert, if_neg hk, erase_cons, if_neg (Ne.symm hk), ih h]

theorem erase_insert_of_ne (h : key ≠ other) (value : α) :
    (table.insert key value).erase other = (table.erase other).insert key value := by
  induction table with
  | nil => simp [insert, erase, h]
  | cons entry rest ih =>
    obtain ⟨k, v⟩ := entry
    by_cases hk : key = k
    · subst hk
      simp [insert, erase_cons, h]
    · by_cases ho : k = other
      · rw [insert, if_neg hk, erase_cons, erase_cons, if_pos ho, if_pos ho, ih]
      · rw [insert, if_neg hk, erase_cons, erase_cons, if_neg ho, if_neg ho, insert, if_neg hk, ih]

theorem insert_insert (value value' : α) :
    (table.insert key value).insert key value' = table.insert key value' := by
  induction table with
  | nil => simp [insert]
  | cons entry rest ih =>
    obtain ⟨k, v⟩ := entry
    by_cases hk : key = k
    · simp [insert, hk]
    · simp [insert, hk, ih]

end Table

/-! ## Walks -/

namespace Files.Tree

variable {tree tree' : Tree} {path : Path} {place : Place}

/-- **A step of a walk** goes down from a directory, by a name that is not too long. -/
theorem walkFrom_cons_iff {start : Place} {part : String} {rest : List String} :
    tree.walkFrom start (part :: rest) = .ok place ↔ tree.entry? start = some .directory ∧
      part.utf8ByteSize ≤ nameLimit ∧ tree.walkFrom (Path.descend start part) rest = .ok place := by
  rw [walkFrom]
  cases tree.entry? start with
  | none => simp
  | some entry =>
    cases entry with
    | file octets => simp
    | directory =>
      by_cases hlong : part.utf8ByteSize > nameLimit
      · simp [hlong, Nat.not_le.mpr hlong]
      · simp [hlong, Nat.not_lt.mp hlong]

/-- A walk still leads to its end when there are more directories. -/
theorem walkFrom_mono (h : ∀ p, tree.entry? p = some .directory → tree'.entry? p = some .directory)
    (parts : List String) : ∀ {start : Place}, tree.walkFrom start parts = .ok place →
      tree'.walkFrom start parts = .ok place := by
  induction parts with
  | nil => exact fun hwalk => hwalk
  | cons part rest ih =>
    intro start hwalk
    obtain ⟨hdir, hshort, hrest⟩ := walkFrom_cons_iff.mp hwalk
    exact walkFrom_cons_iff.mpr ⟨h start hdir, hshort, ih hrest⟩

/-- **A path can still be walked** if all directories are still there. -/
theorem walk_mono (hwalk : tree.walk path = .ok place) (hhome : tree'.home = tree.home)
    (h : ∀ p, tree.entry? p = some .directory → tree'.entry? p = some .directory) :
    tree'.walk path = .ok place := by
  rw [walk] at hwalk ⊢
  cases hask : askable path with
  | error trouble =>
    rw [hask] at hwalk
    cases hwalk
  | ok u =>
    rw [hask] at hwalk
    rw [hhome]
    exact walkFrom_mono h path.parts hwalk

theorem walkFrom_append {more : List String} {place' : Place} (hmore : tree.walkFrom place more = .ok place')
    (parts : List String) : ∀ {start : Place}, tree.walkFrom start parts = .ok place →
      tree.walkFrom start (parts ++ more) = .ok place' := by
  induction parts with
  | nil =>
    rintro start ⟨⟩
    exact hmore
  | cons part rest ih =>
    intro start hwalk
    obtain ⟨hdir, hshort, hrest⟩ := walkFrom_cons_iff.mp hwalk
    exact walkFrom_cons_iff.mpr ⟨hdir, hshort, ih hrest⟩

end Files.Tree

namespace Output

open Files (Tree Path Place)

variable {tree tree' grown : Tree} {path : Path} {place above : Place} {name : String}

/-- What finding the spot of a path takes: the path can be asked for, and all but its last name leads to a
directory. -/
theorem spot_eq_ok_iff : spot tree path = .ok (above, name) ↔
    Tree.askable path = .ok () ∧ tree.walk path.parent = .ok above ∧ tree.entry? above = some .directory ∧
      name = path.name := by
  rw [spot]
  cases hask : Tree.askable path with
  | error trouble => simp [bind, Except.bind]
  | ok u =>
    cases hwalk : tree.walk path.parent with
    | error trouble => simp [bind, Except.bind]
    | ok found =>
      simp only [bind, Except.bind]
      constructor
      · intro h
        split at h
        · cases h
        · cases h
        · rename_i hentry
          cases h
          exact ⟨trivial, rfl, hentry, rfl⟩
      · rintro ⟨-, ⟨⟩, hdir, rfl⟩
        rw [hdir]

/-- **A path whose spot is found can be walked**, if its last name fits. -/
theorem walk_of_spot (h : spot tree path = .ok (above, name)) (hne : path.parts ≠ [])
    (hshort : path.name.utf8ByteSize ≤ Tree.nameLimit) : tree.walk path = .ok (path.resolve tree.home) := by
  obtain ⟨hask, hwalk, hdir, -⟩ := spot_eq_ok_iff.mp h
  have habove := Files.Tree.walk_ok hwalk
  have hparts : path.parts = path.parent.parts ++ [path.name] := by
    rw [Files.Path.parent, Files.Path.name, List.getLast?_eq_some_getLast hne, Option.getD_some,
      List.dropLast_append_getLast hne]
  rw [Tree.walk] at hwalk ⊢
  cases hparent : Tree.askable path.parent with
  | error trouble =>
    rw [hparent] at hwalk
    cases hwalk
  | ok u =>
    rw [hparent] at hwalk
    rw [hask]
    have hwalk : tree.walkFrom (if path.isAbsolute then [] else tree.home) path.parent.parts = .ok above :=
      hwalk
    have hlast : tree.walkFrom above [path.name] = .ok (path.resolve tree.home) := by
      refine Tree.walkFrom_cons_iff.mpr ⟨hdir, hshort, ?_⟩
      rw [Files.Path.resolve_parent hne, ← habove]
      rfl
    change tree.walkFrom (if path.isAbsolute then [] else tree.home) path.parts = _
    rw [hparts]
    exact Tree.walkFrom_append hlast _ hwalk

/-- A directory that is made can be walked to. -/
theorem stat_of_makeDirectory (h : makeDirectory tree path = .ok tree') :
    tree'.stat path = .ok .directory := by
  obtain ⟨hnone, rfl⟩ := makeDirectory_ok h
  rw [makeDirectory] at h
  split at h
  · cases h
  · rename_i hparts
    have hne : path.parts ≠ [] := fun hempty => hparts (by rw [hempty]; rfl)
    cases hspot : spot tree path with
    | error trouble =>
      rw [hspot] at h
      cases h
    | ok found =>
      obtain ⟨above, name⟩ := found
      obtain ⟨-, rfl⟩ := spot_ok hspot
      rw [hspot] at h
      simp only [bind, Except.bind] at h
      split at h
      · cases h
      · split at h
        · cases h
        · rename_i hshort
          have hplace : path.resolve tree.home ≠ [] := by
            intro hempty
            rw [hempty] at hnone
            cases hnone
          have hentry : ∀ other, Tree.entry? (tree.put (path.resolve tree.home) .directory) other = _ :=
            Tree.entry_put hplace .directory
          have hwalk : (tree.put (path.resolve tree.home) .directory).walk path =
              .ok (path.resolve tree.home) := by
            refine Tree.walk_mono (walk_of_spot hspot hne (Nat.not_lt.mp hshort)) rfl ?_
            intro p hp
            rw [hentry]
            split
            · rfl
            · exact hp
          rw [Tree.stat, hwalk]
          simp [bind, Except.bind, hentry]

theorem stat_of_isDirectory (h : tree.isDirectory path = true) : tree.stat path = .ok .directory := by
  rw [Tree.isDirectory] at h
  split at h
  · assumption
  · cases h

/-- Making sure of a directory succeeds only if it is there in the end. -/
theorem ensureDirectory_ok {otherwise : OnTree Unit}
    (hotherwise : ∀ tree', otherwise tree = .ok () tree' → tree'.stat path = .ok .directory)
    (h : ensureDirectory path otherwise tree = .ok () tree') : tree'.stat path = .ok .directory := by
  rw [ensureDirectory_apply] at h
  split at h
  · rename_i made hmake
    cases h
    exact stat_of_makeDirectory hmake
  · exact hotherwise tree' h
  · split at h
    · rename_i hdir
      cases h
      exact stat_of_isDirectory hdir
    · cases h

/-- **Directories that are made can be walked to.** -/
theorem ensureDirectories_ok (h : ensureDirectories path tree = .ok () tree') :
    tree'.stat path = .ok .directory := by
  have hpath : path = ⟨path.root, path.parts.reverse.reverse⟩ := by rw [List.reverse_reverse]
  rw [hpath]
  rw [ensureDirectories] at h
  cases hnames : path.parts.reverse with
  | nil =>
    rw [hnames, ensureNames] at h
    exact ensureDirectory_ok (by rintro _ ⟨⟩) h
  | cons name above =>
    rw [hnames, ensureNames] at h
    refine ensureDirectory_ok ?_ h
    intro last hotherwise
    obtain ⟨_, made, -, hagain⟩ := ok_of_bind hotherwise
    exact ensureDirectory_ok (by rintro _ ⟨⟩) hagain

/-! ## Staged writes -/

/-- The name of the file beside a target. A mark tells it apart from others. -/
def besideName (path : Path) (mark : String) : String := "." ++ path.name ++ "." ++ mark ++ ".tmp"

/-- The place of the file beside a target. -/
def beside (tree : Tree) (path : Path) (mark : String) : Place :=
  path.parent.resolve tree.home ++ [besideName path mark]

/-- Makes an empty file beside the target. -/
def stage (path : Path) (mark : String) : OnTree Place := do
  prepare path
  let place := beside (← get) path mark
  modify (·.put place (.file []))
  return place

/-- Moves a file to the place of the target. -/
def move (source : Place) (path : Path) : OnTree Unit := do
  match Tree.entry? (← get) source with
  | some (.file content) =>
    replace path content
    modify (·.remove source)
  | _ => throw (.file .missing path.toText)

/-- Fills the file beside the target, has the content checked, and moves the file. -/
def settle (source : Place) (path : Path) (content : String) (checked : Bool) : OnTree Unit := do
  modify (·.put source (.file content.toUTF8.toList))
  if checked then
    match check content with
    | .ok _ => pure ()
    | .error fault => throw (.rejected fault)
  move source path

/-- **Writes by way of a file beside the target**, which is removed again if anything fails. -/
def writeStaged (mark : String) (path : Path) (content : String) (checked : Bool) : OnTree Unit := do
  ensureDirectories path.parent
  let source ← stage path mark
  tryCatch (settle source path content checked) fun failure => do
    modify (·.remove source)
    throw failure

/-- The file beside never has the name of the file that is written. -/
theorem besideName_ne (path : Path) (mark : String) : besideName path mark ≠ path.name := by
  intro h
  have hlength := congrArg String.length h
  have hdot : ".".length = 1 := rfl
  simp only [besideName, String.length_append, hdot] at hlength
  omega

/-- Staging puts an empty file beside the one to be written. -/
theorem stage_apply (hprepare : prepare path grown = .ok () grown) (mark : String) :
    stage path mark grown =
      .ok (beside grown path mark) (grown.put (beside grown path mark) (.file [])) := by
  rw [stage, bind_ok _ hprepare]
  rfl

theorem walk_of_stat {entry : Files.Entry} (h : tree.stat path = .ok entry) :
    tree.walk path = .ok (path.resolve tree.home) := by
  rw [Tree.stat] at h
  cases hwalk : tree.walk path with
  | error trouble =>
    rw [hwalk] at h
    cases h
  | ok found => rw [Tree.walk_ok hwalk]

section

variable (hnone : grown.entry? place = none)
include hnone

theorem ne_nil_of_entry_eq_none : place ≠ [] := by
  rintro rfl
  cases hnone

/-- A file where nothing was takes the place of no directory. -/
theorem directory_put (octets : List UInt8) {p : Place} (hp : grown.entry? p = some .directory) :
    Tree.entry? (grown.put place (.file octets)) p = some .directory := by
  have hne : p ≠ place := by
    rintro rfl
    rw [hnone] at hp
    cases hp
  rw [Tree.entry_put (ne_nil_of_entry_eq_none hnone), if_neg hne, hp]

/-- **A file where nothing was** does not get in the way of a path whose directories are there. -/
theorem spot_put (hparent : grown.stat path.parent = .ok .directory) (octets : List UInt8) :
    spot (grown.put place (.file octets)) path = spot grown path := by
  have hwalk := walk_of_stat hparent
  have hdir := Tree.stat_ok hparent
  cases hask : Tree.askable path with
  | error trouble =>
    rw [spot, spot, hask]
    rfl
  | ok u =>
    have hwalk' : (grown.put place (.file octets)).walk path.parent = _ :=
      Tree.walk_mono hwalk rfl fun p => directory_put hnone octets
    rw [spot_eq_ok_iff.mpr ⟨hask, hwalk, hdir, rfl⟩,
      spot_eq_ok_iff.mpr ⟨hask, hwalk', directory_put hnone octets hdir, rfl⟩]

theorem remove_put (octets : List UInt8) : (grown.put place (.file octets)).remove place = grown := by
  have hget : grown.entries.get? place = none := by
    rwa [Tree.entry?, if_neg (ne_nil_of_entry_eq_none hnone)] at hnone
  rw [Tree.put, Tree.remove, Table.erase_insert_new hget]

/-- What was put elsewhere remains when the file beside is removed. -/
theorem remove_put_put {target : Place} (hne : target ≠ place) (octets : List UInt8) (entry : Files.Entry) :
    ((grown.put place (.file octets)).put target entry).remove place = grown.put target entry := by
  have hremove := remove_put hnone octets
  rw [Tree.remove] at hremove
  rw [Tree.put, Tree.remove, Table.erase_insert_of_ne hne]
  exact congrArg (Tree.put · target entry) hremove

end

/-- **Replacing the target** goes as it would without the file beside it. -/
theorem replace_beside {mark : String} (hnone : grown.entry? (beside grown path mark) = none)
    (hparent : grown.stat path.parent = .ok .directory) (octets : List UInt8) :
    (∃ failure, replace path octets grown = .error failure grown ∧
      replace path octets (grown.put (beside grown path mark) (.file octets)) =
        .error failure (grown.put (beside grown path mark) (.file octets))) ∨
    ∃ target, target ≠ beside grown path mark ∧
      replace path octets grown = .ok () (grown.put target (.file octets)) ∧
      replace path octets (grown.put (beside grown path mark) (.file octets)) =
        .ok () ((grown.put (beside grown path mark) (.file octets)).put target (.file octets)) := by
  rw [replace_apply, replace_apply, spot_put hnone hparent]
  cases hspot : spot grown path with
  | error trouble => exact Or.inl ⟨_, rfl, rfl⟩
  | ok found =>
    obtain ⟨above, name⟩ := found
    obtain ⟨rfl, rfl⟩ := spot_ok hspot
    dsimp only
    split
    · exact Or.inl ⟨_, rfl, rfl⟩
    · have hne : path.parent.resolve grown.home ++ [path.name] ≠ beside grown path mark := by
        intro heq
        exact besideName_ne path mark (by simpa [beside] using heq.symm)
      rw [Tree.entry_put (ne_nil_of_entry_eq_none hnone), if_neg hne]
      split
      · exact Or.inl ⟨_, rfl, rfl⟩
      · exact Or.inr ⟨_, hne, rfl, rfl⟩

section

variable {source : Place} {content : String} {fault : Fault} {failure : WriteFailure} {m : OnTree Unit}

/-- What succeeds leaves nothing to remove. -/
theorem discard_ok (h : m tree = .ok () tree') :
    (tryCatch m fun failure => do
      modify (·.remove source)
      throw failure) tree = .ok () tree' := by
  change EStateM.tryCatch m _ tree = _
  rw [EStateM.tryCatch, h]

/-- What fails has the file beside the target removed. -/
theorem discard_error (h : m tree = .error failure tree') :
    (tryCatch m fun failure => do
      modify (·.remove source)
      throw failure) tree = .error failure (tree'.remove source) := by
  change EStateM.tryCatch m _ tree = _
  rw [EStateM.tryCatch, h]
  rfl

theorem fill_apply (source : Place) (octets : List UInt8) (tree : Tree) :
    (modify (·.put source (.file octets)) : OnTree Unit) (tree.put source (.file [])) =
      .ok () (tree.put source (.file octets)) := by
  change EStateM.Result.ok () ((tree.put source (.file [])).put source (.file octets)) = _
  rw [Tree.put, Tree.put, Tree.put, Table.insert_insert]

/-- A text that fails the check has been written beside, and the file itself is not touched. -/
theorem settle_rejected (h : check content = .error fault) (path : Path) (source : Place) (tree : Tree) :
    settle source path content true (tree.put source (.file [])) =
      .error (.rejected fault) (tree.put source (.file content.toUTF8.toList)) := by
  rw [settle, bind_ok _ (fill_apply source _ tree), h]
  rfl

/-- A text that passes the check, or is not checked, replaces the file, and then the one beside is
removed. -/
theorem settle_passed {checked : Bool} (h : checked = true → check content = .ok ()) (path : Path)
    (hnone : tree.entry? source = none) : settle source path content checked (tree.put source (.file [])) =
      (replace path content.toUTF8.toList >>= fun _ => modify (·.remove source))
        (tree.put source (.file content.toUTF8.toList)) := by
  have hmove : move source path (tree.put source (.file content.toUTF8.toList)) =
      (replace path content.toUTF8.toList >>= fun _ => modify (·.remove source))
        (tree.put source (.file content.toUTF8.toList)) := by
    rw [move, bind_ok _ (show (get : OnTree Tree) _ = .ok _ _ from rfl),
      Tree.entry_put (ne_nil_of_entry_eq_none hnone), if_pos rfl]
  rw [settle, bind_ok _ (fill_apply source _ tree), ← hmove]
  cases checked with
  | false => rfl
  | true =>
    rw [h rfl]
    rfl

end

/-- **A staged write comes to the same** as a write, whatever unused name the file beside the target is given. -/
theorem writeStaged_eq (mark : String) (path : Path) (content : String) (checked : Bool) (tree : Tree)
    (hunused : ∀ grown, ensureDirectories path.parent tree = .ok () grown →
      grown.entry? (beside grown path mark) = none) :
    writeStaged mark path content checked tree = write path content checked tree := by
  rw [writeStaged, write]
  cases hensure : ensureDirectories path.parent tree with
  | error failure grown => rw [bind_error _ hensure, bind_error _ hensure]
  | ok u grown =>
    have hnone := hunused grown hensure
    have hparent := ensureDirectories_ok hensure
    rw [bind_ok _ hensure, bind_ok _ hensure]
    rcases prepare_cases path grown with ⟨failure, hprepare⟩ | ⟨-, -, hprepare⟩
    · have hstage : stage path mark grown = .error failure grown := bind_error _ hprepare
      rw [bind_error _ hprepare, bind_error _ hstage]
    · rw [bind_ok _ hprepare, bind_ok _ (stage_apply hprepare mark)]
      by_cases hfault : ∃ fault, checked = true ∧ check content = .error fault
      · obtain ⟨fault, rfl, hfault⟩ := hfault
        rw [discard_error (settle_rejected hfault path _ grown), remove_put hnone, hfault]
        rfl
      · have hpassed : checked = true → check content = .ok () := by
          intro hchecked
          cases hcheck : check content with
          | ok u => rfl
          | error fault => exact absurd ⟨fault, hchecked, hcheck⟩ hfault
        have hsettle := settle_passed hpassed path hnone
        have hwrite : (do
            if checked then
              match check content with
              | .ok _ => pure ()
              | .error fault => throw (.rejected fault)
            replace path content.toUTF8.toList : OnTree Unit) grown =
              replace path content.toUTF8.toList grown := by
          cases checked with
          | false => rfl
          | true => rw [hpassed rfl]; rfl
        refine Eq.trans ?_ hwrite.symm
        rcases replace_beside hnone hparent content.toUTF8.toList with
          ⟨failure, hplain, hstaged⟩ | ⟨target, hne, hplain, hstaged⟩
        · rw [bind_error _ hstaged] at hsettle
          rw [discard_error hsettle, remove_put hnone, hplain]
        · rw [bind_ok _ hstaged] at hsettle
          rw [discard_ok hsettle, hplain]
          exact congrArg (EStateM.Result.ok ()) (remove_put_put hnone hne _ _)

end Output

end TypeScribe
