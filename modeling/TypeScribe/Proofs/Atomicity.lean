import TypeScribe.Proofs.Staging
import Mathlib.Logic.Function.Basic

/-!
# Writes are all or nothing

Writes come one after the other, to any paths, and each may fail. What one of them does to the **files** of a
tree is said in one line: it sets the content of its target, or it changes nothing (`Output.Order.AllOrNothing`).
So the files in the end are those of the beginning with the targets set of the writes that succeeded, in turn
(`Output.file_carryOut`).

A new file is asked for before its directories are made. What is asked for may fail to be found because one
of these directories is missing, and be found once they are made: a path may go down into a missing directory
and up again, to a file that is there. `Files.Tree.exists_eq_false_iff` says when nothing is found.
-/

namespace TypeScribe

namespace Files.Tree

variable {tree tree' : Tree} {path : Path} {place : Place} {fresh : Place → Prop}

/-! ## Files -/

/-- The content of the file at a place. -/
def file? (tree : Tree) (place : Place) : Option (List UInt8) :=
  match tree.entry? place with
  | some (.file octets) => some octets
  | _ => none

theorem file_congr (h : tree'.entry? place = tree.entry? place) : tree'.file? place = tree.file? place := by
  rw [file?, file?, h]

/-- A tree that grows has the files it had. -/
theorem Grown.file (h : Grown fresh tree tree') : tree'.file? = tree.file? := by
  funext place
  rcases h.entry place with hsame | ⟨hnone, hnew, -⟩
  · exact file_congr hsame
  · rw [file?, file?, hnone, hnew]

/-- Nothing that is a directory is replaced while a tree grows. -/
theorem Grown.directory (h : Grown fresh tree tree') (hdir : tree.entry? place = some .directory) :
    tree'.entry? place = some .directory := by
  rcases h.entry place with hsame | ⟨-, hnew, -⟩
  · rw [hsame, hdir]
  · exact hnew

theorem file_put (hplace : place ≠ []) (octets : List UInt8) :
    (tree.put place (.file octets)).file? = Function.update tree.file? place (some octets) := by
  funext other
  by_cases hother : other = place
  · subst hother
    rw [Function.update_self, file?, entry_put hplace, if_pos rfl]
  · rw [Function.update_of_ne hother]
    exact file_congr (by rw [entry_put hplace, if_neg hother])

/-! ## What is found at a path -/

/-- **A walk comes to its end** if all places before it are directories, and no name is too long. -/
theorem walkFrom_iff (rest : List String) : ∀ (start : Place) (part : String),
    tree.walkFrom start (part :: rest) = .ok ((part :: rest).foldl Path.descend start) ↔
      (∀ names, names <+: (part :: rest).dropLast →
        tree.entry? (names.foldl Path.descend start) = some .directory) ∧
      ∀ name ∈ part :: rest, name.utf8ByteSize ≤ nameLimit := by
  induction rest with
  | nil =>
    intro start part
    rw [walkFrom_cons_iff]
    simp [walkFrom]
  | cons next rest ih =>
    intro start part
    have hfronts : ∀ P : List String → Prop,
        (∀ names, names <+: (part :: next :: rest).dropLast → P names) ↔
          P [] ∧ ∀ names, names <+: (next :: rest).dropLast → P (part :: names) := by
      intro P
      rw [List.dropLast_cons_of_ne_nil (by simp)]
      simp only [List.prefix_cons_iff]
      constructor
      · intro h
        exact ⟨h [] (Or.inl rfl), fun names hnames => h _ (Or.inr ⟨names, rfl, hnames⟩)⟩
      · rintro ⟨hnil, hcons⟩ names (rfl | ⟨more, rfl, hmore⟩)
        · exact hnil
        · exact hcons more hmore
    rw [hfronts, List.forall_mem_cons, walkFrom_cons_iff]
    have hrest := ih (Path.descend start part) next
    rw [List.foldl_cons, hrest]
    constructor
    · rintro ⟨hdir, hshort, hdirs, hshorts⟩
      exact ⟨⟨hdir, hdirs⟩, hshort, hshorts⟩
    · rintro ⟨⟨hdir, hdirs⟩, hshort, hshorts⟩
      exact ⟨hdir, hshort, hdirs, hshorts⟩

/-- A walk complains of a long name only if one of the names is too long. -/
theorem walkFrom_too_long (parts : List String) : ∀ {start : Place},
    tree.walkFrom start parts = .error .nameTooLong → ∃ part ∈ parts, nameLimit < part.utf8ByteSize := by
  induction parts with
  | nil => exact fun h => nomatch h
  | cons part rest ih =>
    intro start h
    rw [walkFrom] at h
    split at h
    · cases h
    · cases h
    · split at h
      · rename_i hlong
        exact ⟨part, List.mem_cons_self .., hlong⟩
      · obtain ⟨name, hname, hlong⟩ := ih h
        exact ⟨name, List.mem_cons_of_mem _ hname, hlong⟩

section

variable (hne : path.parts ≠ []) (hask : askable path = .ok ())
include hne hask

/-- A path can be walked to its end if all places passed on the way are directories and no name is
too long. -/
theorem walk_eq_ok_iff : tree.walk path = .ok (path.resolve tree.home) ↔
    (∀ p, path.parent.Passes tree.home p → tree.entry? p = some .directory) ∧
      ∀ part ∈ path.parts, part.utf8ByteSize ≤ nameLimit := by
  obtain ⟨part, rest, hparts⟩ := List.exists_cons_of_ne_nil hne
  have hwalk : tree.walk path =
      tree.walkFrom (if path.isAbsolute then [] else tree.home) path.parts := by
    rw [walk, hask]
    rfl
  have hpasses : (∀ p, path.parent.Passes tree.home p → tree.entry? p = some .directory) ↔
      ∀ names, names <+: path.parts.dropLast →
        tree.entry? (names.foldl Path.descend (if path.isAbsolute then [] else tree.home)) =
          some .directory := by
    constructor
    · exact fun h names hnames => h _ ⟨names, hnames, rfl⟩
    · rintro h p ⟨names, hnames, rfl⟩
      exact h names hnames
  rw [hwalk, hpasses, Path.resolve, hparts]
  exact walkFrom_iff rest _ part

/-- **When nothing is found**: there is nothing where the path leads, or it passes something that is no
directory. -/
theorem exists_eq_false_iff (hshort : ∀ part ∈ path.parts, part.utf8ByteSize ≤ nameLimit) :
    tree.exists? path = .ok false ↔
      tree.entry? (path.resolve tree.home) = none ∨
        ∃ p, path.parent.Passes tree.home p ∧ tree.entry? p ≠ some .directory := by
  have hiff : tree.walk path = _ ↔ _ := walk_eq_ok_iff hne hask
  cases hwalk : tree.walk path with
  | ok place =>
    obtain rfl := walk_ok hwalk
    have hdirs := (hiff.mp hwalk).1
    have hnot : ¬ ∃ p, path.parent.Passes tree.home p ∧ tree.entry? p ≠ some .directory := by
      rintro ⟨p, hp, hother⟩
      exact hother (hdirs p hp)
    rw [exists?, stat, hwalk, or_iff_left hnot]
    cases hentry : tree.entry? (path.resolve tree.home) <;> simp [bind, Except.bind, hentry]
  | error trouble =>
    have hshortEnough : trouble ≠ .nameTooLong := by
      rintro rfl
      rw [walk, hask] at hwalk
      obtain ⟨part, hpart, hlong⟩ := walkFrom_too_long _ hwalk
      exact absurd (hshort part hpart) (Nat.not_le.mpr hlong)
    have hsome : ∃ p, path.parent.Passes tree.home p ∧ tree.entry? p ≠ some .directory := by
      by_contra hnone
      have hdirs : ∀ p, path.parent.Passes tree.home p → tree.entry? p = some .directory :=
        fun p hp => by_contra fun hother => hnone ⟨p, hp, hother⟩
      rw [hiff.mpr ⟨hdirs, hshort⟩] at hwalk
      cases hwalk
    rw [exists?, stat, hwalk]
    constructor
    · exact fun _ => Or.inr hsome
    · intro _
      cases trouble <;> first | rfl | exact absurd rfl hshortEnough

end

end Files.Tree

namespace Output

open Files (Tree Path Place)

variable {tree tree' : Tree} {path : Path} {content : String} {checked : Bool}

/-! ## Writes that succeed -/

/-- The target of a replacement can be walked to, if its name fits. -/
theorem walk_of_replace {octets : List UInt8} (h : replace path octets tree = .ok () tree')
    (hshort : path.name.utf8ByteSize ≤ Tree.nameLimit) :
    path.parts ≠ [] ∧ Tree.askable path = .ok () ∧ tree.walk path = .ok (path.resolve tree.home) := by
  rw [replace_apply] at h
  cases hspot : spot tree path with
  | error trouble =>
    rw [hspot] at h
    cases h
  | ok found =>
    obtain ⟨above, name⟩ := found
    obtain ⟨-, rfl⟩ := spot_ok hspot
    have hne : path.parts ≠ [] := by
      intro hempty
      have hname : path.name = "" := by rw [Files.Path.name, hempty]; rfl
      rw [hspot] at h
      simp [hname] at h
    exact ⟨hne, (spot_eq_ok_iff.mp hspot).1, walk_of_spot hspot hne hshort⟩

/-- **A write that succeeds**: directories are made, the path can be walked, and the content is put where it
leads. -/
theorem write_ok (h : write path content checked tree = .ok () tree') :
    ∃ grown, Tree.Grown (path.parent.Passes tree.home) tree grown ∧
      path.parts ≠ [] ∧ Tree.askable path = .ok () ∧ grown.walk path = .ok (path.resolve tree.home) ∧
      path.resolve tree.home ≠ [] ∧ grown.entry? (path.resolve tree.home) ≠ some .directory ∧
      tree' = grown.put (path.resolve tree.home) (.file content.toUTF8.toList) := by
  have hgrown := ensureDirectories_grown path.parent tree
  cases hensure : ensureDirectories path.parent tree with
  | error failure grown =>
    rw [write, bind_error _ hensure] at h
    cases h
  | ok u grown =>
    rw [hensure] at hgrown
    have hgrown : Tree.Grown _ tree grown := hgrown
    rcases prepare_cases path grown with ⟨failure, hprepare⟩ | ⟨-, hshort, hprepare⟩
    · rw [write, bind_ok _ hensure, bind_error _ hprepare] at h
      cases h
    · rcases write_prepared hensure hprepare content checked with ⟨failure, hrejected⟩ | hreplace
      · rw [hrejected] at h
        cases h
      · rw [hreplace] at h
        obtain ⟨hne, hask, hwalk⟩ := walk_of_replace h (by omega)
        rcases replace_cases path content.toUTF8.toList grown with
          ⟨failure, hfailed⟩ | ⟨hplace, hfile, hdone⟩
        · rw [hfailed] at h
          cases h
        · rw [hdone] at h
          cases h
          rw [hgrown.home] at hwalk hplace hfile ⊢
          exact ⟨grown, hgrown, hne, hask, hwalk, hplace, hfile, rfl⟩

/-- **What is written can be read back** by the same path. -/
theorem readFile_of_write (h : write path content checked tree = .ok () tree') :
    tree'.readFile path = .ok content.toUTF8.toList := by
  obtain ⟨grown, hgrown, -, -, hwalk, hplace, hfile, rfl⟩ := write_ok h
  have hentry : ∀ other,
      Tree.entry? (grown.put (path.resolve tree.home) (.file content.toUTF8.toList)) other = _ :=
    Tree.entry_put hplace (.file content.toUTF8.toList)
  have hkept : ∀ p, grown.entry? p = some .directory →
      Tree.entry? (grown.put (path.resolve tree.home) (.file content.toUTF8.toList)) p =
        some .directory := by
    intro p hp
    have hne : p ≠ path.resolve tree.home := fun heq => hfile (heq ▸ hp)
    rw [hentry, if_neg hne, hp]
  have hreach : (grown.put (path.resolve tree.home) (.file content.toUTF8.toList)).walk path =
      .ok (path.resolve tree.home) := Tree.walk_mono hwalk rfl hkept
  rw [Tree.readFile, Tree.stat, hreach]
  simp only [bind, Except.bind, hentry, if_true]

/-- **A new file is written** if it can be written at all, and nothing is there, or the path passes a place
where nothing is. -/
theorem writeNew_ok_iff : writeNew path content checked tree = .ok () tree' ↔
    write path content checked tree = .ok () tree' ∧
      (tree.entry? (path.resolve tree.home) = none ∨
        ∃ place, path.parent.Passes tree.home place ∧ tree.entry? place = none) := by
  have hfound : ∀ {tree'}, write path content checked tree = .ok () tree' →
      (tree.exists? path = .ok false ↔ (tree.entry? (path.resolve tree.home) = none ∨
        ∃ place, path.parent.Passes tree.home place ∧ tree.entry? place = none)) := by
    intro tree' h
    obtain ⟨grown, hgrown, hne, hask, hwalk, -, -, -⟩ := write_ok h
    rw [← hgrown.home] at hwalk
    obtain ⟨hdirs, hshort⟩ := (Tree.walk_eq_ok_iff hne hask).mp hwalk
    rw [hgrown.home] at hdirs
    rw [Tree.exists_eq_false_iff hne hask hshort]
    have hpassed : ∀ p, path.parent.Passes tree.home p →
        (tree.entry? p ≠ some .directory ↔ tree.entry? p = none) := by
      intro p hp
      rcases hgrown.entry p with hsame | ⟨hnone, -, -⟩
      · rw [← hsame, hdirs p hp]
        simp
      · simp [hnone]
    constructor
    · exact Or.imp_right fun ⟨p, hp, hother⟩ => ⟨p, hp, (hpassed p hp).mp hother⟩
    · exact Or.imp_right fun ⟨p, hp, hnone⟩ => ⟨p, hp, (hpassed p hp).mpr hnone⟩
  rw [writeNew_apply]
  constructor
  · intro h
    cases hexists : tree.exists? path with
    | error trouble =>
      rw [hexists] at h
      cases h
    | ok found =>
      rw [hexists] at h
      cases found with
      | true => cases h
      | false => exact ⟨h, (hfound h).mp hexists⟩
  · rintro ⟨h, habsent⟩
    rw [(hfound h).mpr habsent]
    exact h

/-! ## One write after the other -/

/-- **An order to write**: a text to a path, checked or not, and to a new file only or to any. -/
structure Order where
  path : Path
  content : String
  checked : Bool := true
  isNew : Bool := false

namespace Order

/-- Carries out an order. -/
def run (o : Order) : OnTree Unit :=
  if o.isNew then writeNew o.path o.content o.checked else write o.path o.content o.checked

/-- What is to be written. -/
def octets (o : Order) : List UInt8 := o.content.toUTF8.toList

/-- The files with the target of an order set. -/
def applied (home : Place) (files : Place → Option (List UInt8)) (o : Order) :
    Place → Option (List UInt8) :=
  Function.update files (o.path.resolve home) (some o.octets)

/-- **All or nothing**, for an order that is carried out on a tree.

* With a file beside the target, under any unused name, it comes to the same.
* If it succeeds, the content of the target is set, and no other file is touched. What is written can be read
  by the path of the order.
* If it fails, every file is as it was.
* Either way, a new directory stands where nothing was, above the target as it is written, and no directory
  is lost.
* An order for a new file succeeds if it would as an order for any, and there is nothing at the target or at
  a place that the path passes. If the path has no double dots, there is nothing at the target. -/
structure AllOrNothing (o : Order) (tree : Tree) : Prop where
  staged : ∀ mark, (∀ grown, ensureDirectories o.path.parent tree = .ok () grown →
      grown.entry? (beside grown o.path mark) = none) →
    writeStaged mark o.path o.content o.checked tree = write o.path o.content o.checked tree
  done : ∀ {tree'}, o.run tree = .ok () tree' →
    tree'.file? = applied tree.home tree.file? o ∧ tree'.readFile o.path = .ok o.octets
  failed : ∀ {failure tree'}, o.run tree = .error failure tree' → tree'.file? = tree.file?
  made : ∀ {place}, Tree.entry? (leaves (o.run tree)) place = some .directory →
    tree.entry? place = some .directory ∨ tree.entry? place = none ∧ o.path.parent.Passes tree.home place
  kept : ∀ {place}, tree.entry? place = some .directory →
    Tree.entry? (leaves (o.run tree)) place = some .directory
  new : o.isNew = true → ∀ {tree'}, (o.run tree = .ok () tree' ↔
    write o.path o.content o.checked tree = .ok () tree' ∧
      (tree.entry? (o.path.resolve tree.home) = none ∨
        ∃ place, o.path.parent.Passes tree.home place ∧ tree.entry? place = none))
  absent : o.isNew = true → tree.Closed → ".." ∉ o.path.parts → ∀ {tree'}, o.run tree = .ok () tree' →
    tree.entry? (o.path.resolve tree.home) = none

variable {o : Order}

/-- **What an order does**: it fails, and the tree has grown by directories at most; or it is a write that
succeeds. -/
theorem run_cases (o : Order) (tree : Tree) :
    (∃ failure grown, o.run tree = .error failure grown ∧
      Tree.Grown (o.path.parent.Passes tree.home) tree grown) ∨
    ∃ tree', o.run tree = .ok () tree' ∧ write o.path o.content o.checked tree = .ok () tree' := by
  have hwrite : (∃ failure grown, write o.path o.content o.checked tree = .error failure grown ∧
        Tree.Grown (o.path.parent.Passes tree.home) tree grown) ∨
      ∃ tree', write o.path o.content o.checked tree = .ok () tree' := by
    rcases write_cases o.path o.content o.checked tree with hfailed | ⟨grown, -, -, -, -, hdone⟩
    · exact Or.inl hfailed
    · exact Or.inr ⟨_, hdone⟩
  rw [run]
  split
  · rcases writeNew_cases o.path o.content o.checked tree with ⟨failure, hfailed⟩ | ⟨-, hsame⟩
    · exact Or.inl ⟨failure, tree, hfailed, .refl tree⟩
    · rw [hsame]
      exact hwrite.imp_right fun ⟨tree', h⟩ => ⟨tree', h, h⟩
  · exact hwrite.imp_right fun ⟨tree', h⟩ => ⟨tree', h, h⟩

theorem write_of_run (h : o.run tree = .ok () tree') : write o.path o.content o.checked tree = .ok () tree' := by
  rcases run_cases o tree with ⟨failure, grown, hfailed, -⟩ | ⟨found, hrun, hwrite⟩
  · rw [hfailed] at h
    cases h
  · rw [hrun] at h
    cases h
    exact hwrite

/-- An order that fails has made directories on the way to its target at most. -/
theorem grown_of_failed {failure : WriteFailure} (h : o.run tree = .error failure tree') :
    Tree.Grown (o.path.parent.Passes tree.home) tree tree' := by
  rcases run_cases o tree with ⟨other, grown, hfailed, hgrown⟩ | ⟨found, hrun, -⟩
  · rw [hfailed] at h
    cases h
    exact hgrown
  · rw [hrun] at h
    cases h

/-- Whatever an order does, directories only come up where nothing was. -/
theorem directory_run_iff (o : Order) (tree : Tree) : ∃ grown,
    Tree.Grown (o.path.parent.Passes tree.home) tree grown ∧
      ∀ place, Tree.entry? (leaves (o.run tree)) place = some .directory ↔
        grown.entry? place = some .directory := by
  rcases run_cases o tree with ⟨failure, grown, hfailed, hgrown⟩ | ⟨tree', hrun, hwrite⟩
  · refine ⟨grown, hgrown, fun place => ?_⟩
    rw [hfailed]
    rfl
  · obtain ⟨grown, hgrown, -, -, -, hplace, hfile, rfl⟩ := write_ok hwrite
    refine ⟨grown, hgrown, fun place => ?_⟩
    rw [hrun]
    change Tree.entry? (grown.put _ _) place = _ ↔ _
    rw [Tree.entry_put hplace]
    split
    · rename_i heq
      simp [heq, hfile]
    · rfl

/-- In a closed tree nothing is found below a place where nothing is. -/
theorem entry_of_missing (hclosed : tree.Closed) (hdots : ".." ∉ path.parts) {place : Place}
    (hpasses : path.parent.Passes tree.home place) (hnone : tree.entry? place = none) :
    tree.entry? (path.resolve tree.home) = none := by
  obtain ⟨names, hnames, rfl⟩ := hpasses
  obtain ⟨rest, hrest⟩ := hnames.trans (List.dropLast_prefix path.parts)
  have hdots' : ".." ∉ names := fun hmem => hdots (hrest ▸ List.mem_append_left rest hmem)
  rw [Path.resolve, Path.foldl_descend hdots'] at hnone
  rw [Path.resolve, Path.foldl_descend hdots, ← hrest, ← List.append_assoc]
  by_contra hsome
  by_cases hempty : rest = []
  · rw [hempty, List.append_nil] at hsome
    exact hsome hnone
  · have habove := hclosed.above rest hempty (Option.isSome_iff_ne_none.mpr hsome)
    exact absurd (hnone.symm.trans habove) (by simp)

/-- **An order is all or nothing**, on every tree. -/
theorem allOrNothing (o : Order) (tree : Tree) : o.AllOrNothing tree where
  staged mark hunused := writeStaged_eq mark o.path o.content o.checked tree hunused
  done h := by
    have hwrite := write_of_run h
    refine ⟨?_, readFile_of_write hwrite⟩
    obtain ⟨grown, hgrown, -, -, -, hplace, -, rfl⟩ := write_ok hwrite
    rw [Tree.file_put hplace, hgrown.file]
    rfl
  failed h := (grown_of_failed h).file
  made {place} h := by
    obtain ⟨grown, hgrown, hiff⟩ := directory_run_iff o tree
    rcases hgrown.entry place with hsame | ⟨hnone, -, hpasses⟩
    · rw [hiff, hsame] at h
      exact Or.inl h
    · exact Or.inr ⟨hnone, hpasses⟩
  kept {place} h := by
    obtain ⟨grown, hgrown, hiff⟩ := directory_run_iff o tree
    exact (hiff place).mpr (hgrown.directory h)
  new hnew := by
    intro tree'
    rw [run, if_pos hnew]
    exact writeNew_ok_iff
  absent hnew hclosed hdots := by
    intro tree' h
    rw [run, if_pos hnew] at h
    rcases (writeNew_ok_iff.mp h).2 with hnone | ⟨place, hpasses, hnone⟩
    · exact hnone
    · exact entry_of_missing hclosed hdots hpasses hnone

end Order

/-- Carries out orders in turn, whether they succeed or fail. -/
def carryOut (tree : Tree) : List Order → Tree
  | [] => tree
  | o :: rest => carryOut (leaves (o.run tree)) rest

/-- The orders that succeed, when orders are carried out in turn. -/
def succeeded (tree : Tree) : List Order → List Order
  | [] => []
  | o :: rest =>
    match o.run tree with
    | .ok _ tree' => o :: succeeded tree' rest
    | .error _ tree' => succeeded tree' rest

theorem home_run (o : Order) (tree : Tree) : (leaves (o.run tree)).home = tree.home := by
  rcases o.run_cases tree with ⟨failure, grown, hfailed, hgrown⟩ | ⟨tree', hrun, hwrite⟩
  · rw [hfailed]
    exact hgrown.home
  · obtain ⟨grown, hgrown, -, -, -, -, -, rfl⟩ := write_ok hwrite
    rw [hrun]
    exact hgrown.home

/-- **The files in the end**: the targets are set of the orders that succeeded, in turn. -/
theorem file_carryOut (orders : List Order) : ∀ tree : Tree,
    (carryOut tree orders).file? = (succeeded tree orders).foldl (Order.applied tree.home) tree.file? := by
  induction orders with
  | nil => exact fun tree => rfl
  | cons o rest ih =>
    intro tree
    have hstep := o.allOrNothing tree
    have hhome := home_run o tree
    rw [carryOut, succeeded, ih, hhome]
    cases hrun : o.run tree with
    | ok u tree' => rw [List.foldl_cons, ← (hstep.done hrun).1]; rfl
    | error failure tree' => rw [← hstep.failed hrun]; rfl

/-- The directories in the end: those of the beginning, and some that the orders' paths pass. -/
theorem directory_carryOut (orders : List Order) : ∀ {tree : Tree} {place : Place},
    Tree.entry? (carryOut tree orders) place = some .directory →
      tree.entry? place = some .directory ∨ ∃ o ∈ orders, o.path.parent.Passes tree.home place := by
  induction orders with
  | nil => exact fun h => Or.inl h
  | cons o rest ih =>
    intro tree place h
    rcases ih h with hstep | ⟨later, hmem, hpasses⟩
    · rcases (o.allOrNothing tree).made hstep with hold | ⟨-, hpasses⟩
      · exact Or.inl hold
      · exact Or.inr ⟨o, List.mem_cons_self .., hpasses⟩
    · rw [home_run] at hpasses
      exact Or.inr ⟨later, List.mem_cons_of_mem _ hmem, hpasses⟩

/-- **Writes are all or nothing**, for orders that are carried out in turn on any tree. Each of them is, on the
tree that those before it leave. The files in the end are those of the beginning with the targets set of the
orders that succeeded, and whatever has become a directory is above the target of some order. -/
theorem carryOut_allOrNothing (tree : Tree) (orders : List Order) :
    (∀ before o after, orders = before ++ o :: after → o.AllOrNothing (carryOut tree before)) ∧
    (carryOut tree orders).file? = (succeeded tree orders).foldl (Order.applied tree.home) tree.file? ∧
    ∀ place, Tree.entry? (carryOut tree orders) place = some .directory →
      tree.entry? place = some .directory ∨ ∃ o ∈ orders, o.path.parent.Passes tree.home place :=
  ⟨fun before o _ _ => o.allOrNothing (carryOut tree before), file_carryOut orders tree,
    fun _ => directory_carryOut orders⟩

/-- An order for a new file, by way of a directory that is missing, replaces a file. -/
example :
    let tree : Tree := ⟨["w"], [(["w"], .directory), (["w", "a"], .file [104])]⟩
    let order : Order := { path := ⟨"", ["x", "..", "a"]⟩, content := "", checked := false, isNew := true }
    succeeds (fun _ tree' => decide (tree'.file? ["w", "a"] = some [])) (order.run tree) = true := by
  decide +kernel

end Output

end TypeScribe
