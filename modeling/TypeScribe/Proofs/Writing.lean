import TypeScribe.Output.Writer
import TypeScribe.Proofs.Shelves
import TypeScribe.Proofs.Steps

/-!
# What a write does to a tree

A write may fail at many points, and before that it makes directories. **A tree grows** if directories come
up where nothing was, and all else stays as it is. Whatever happens in a write before the target is
replaced only lets the tree grow, by directories that the path of the target passes. So a write that fails
leaves every file as it was, and one that succeeds changes the target alone (`Output.write_cases`).

A new file is written only if nothing is found at its path. In a **closed** tree, in which whatever there is
stands in a directory, nothing is there then (`Files.Tree.Closed.entry_of_exists`).
-/

namespace TypeScribe.Files

/-! ## Paths by their names -/

namespace Path

variable {home : Place}

/-- The last name of a path leads one step further than the names before. -/
theorem resolve_parent {path : Path} (hne : path.parts ≠ []) :
    path.resolve home = descend (path.parent.resolve home) path.name := by
  have hparts : path.parts = path.parts.dropLast ++ [path.name] := by
    rw [name, List.getLast?_eq_some_getLast hne, Option.getD_some, List.dropLast_append_getLast hne]
  rw [resolve, hparts, List.foldl_append]
  rfl

/-- A path leads to its last name, in the place that its parent leads to. -/
theorem resolve_parent_append {path : Path} (hne : path.parts ≠ []) (hname : path.name ≠ "..") :
    path.resolve home = path.parent.resolve home ++ [path.name] := by
  rw [resolve_parent hne, descend, if_neg hname]

/-- **A path passes a place** if its first names lead there. -/
def Passes (home : Place) (path : Path) (place : Place) : Prop :=
  ∃ names, names <+: path.parts ∧ place = resolve home { path with parts := names }

theorem passes_resolve (home : Place) (path : Path) : path.Passes home (path.resolve home) :=
  ⟨path.parts, List.prefix_refl _, rfl⟩

/-- Names without dots lead straight down. -/
theorem foldl_descend {parts : List String} (hdots : ".." ∉ parts) : ∀ start : Place,
    parts.foldl descend start = start ++ parts := by
  induction parts with
  | nil => exact fun start => (List.append_nil start).symm
  | cons part rest ih =>
    intro start
    obtain ⟨hpart, hrest⟩ := not_or.mp (List.mem_cons.not.mp hdots)
    rw [List.foldl_cons, ih hrest, descend, if_neg (Ne.symm hpart), List.append_assoc]
    rfl

end Path

/-! ## Trees that grow -/

namespace Tree

/-- What is put somewhere changes nothing elsewhere. -/
theorem entry_put {tree : Tree} {place : Place} (hplace : place ≠ []) (entry : Entry) (other : Place) :
    Tree.entry? (tree.put place entry) other = if other = place then some entry else tree.entry? other := by
  by_cases hother : other = []
  · subst hother
    rw [if_neg (Ne.symm hplace)]
    rfl
  · rw [Tree.entry?, Tree.entry?, if_neg hother, if_neg hother]
    exact Table.get?_insert ..

/-- **A tree that has grown**: at some fresh places, where nothing was, there are directories now. All else
is as before. -/
structure Grown (fresh : Place → Prop) (tree tree' : Tree) : Prop where
  home : tree'.home = tree.home
  entry : ∀ place, tree'.entry? place = tree.entry? place ∨
    tree.entry? place = none ∧ tree'.entry? place = some .directory ∧ fresh place

namespace Grown

variable {fresh fresh' : Place → Prop} {tree tree' tree'' : Tree}

theorem refl (tree : Tree) : Grown fresh tree tree := ⟨rfl, fun _ => Or.inl rfl⟩

theorem trans (h : Grown fresh tree tree') (h' : Grown fresh tree' tree'') : Grown fresh tree tree'' := by
  refine ⟨h'.home.trans h.home, fun place => ?_⟩
  rcases h'.entry place with hsame' | ⟨hnone', hnew', hfresh'⟩
  · rw [hsame']
    exact h.entry place
  · rcases h.entry place with hsame | ⟨-, hnew, -⟩
    · exact Or.inr ⟨hsame ▸ hnone', hnew', hfresh'⟩
    · rw [hnone'] at hnew
      cases hnew

theorem mono (h : Grown fresh tree tree') (himp : ∀ place, fresh place → fresh' place) :
    Grown fresh' tree tree' := by
  refine ⟨h.home, fun place => (h.entry place).imp_right ?_⟩
  exact fun ⟨hnone, hnew, hfresh⟩ => ⟨hnone, hnew, himp place hfresh⟩

/-- A tree grows by a directory where nothing was. -/
theorem put {place : Place} (hnone : tree.entry? place = none) (hfresh : fresh place) :
    Grown fresh tree (tree.put place .directory) := by
  have hplace : place ≠ [] := by
    rintro rfl
    cases hnone
  refine ⟨rfl, fun other => ?_⟩
  rw [entry_put hplace]
  split
  · rename_i heq
    exact Or.inr ⟨heq ▸ hnone, rfl, heq ▸ hfresh⟩
  · exact Or.inl rfl

/-- A step after a step that lets the tree grow. -/
theorem bind {ε α β : Type} {m : EStateM ε Tree α} {k : α → EStateM ε Tree β}
    (hm : Grown fresh tree (leaves (m tree)))
    (hk : ∀ a tree', tree'.home = tree.home → Grown fresh tree' (leaves (k a tree'))) :
    Grown fresh tree (leaves ((m >>= k) tree)) := by
  rw [bind_apply]
  cases hrun : m tree with
  | error failure tree' =>
    rw [hrun] at hm
    exact hm
  | ok a tree' =>
    rw [hrun] at hm
    exact hm.trans (hk a tree' hm.home)

end Grown

/-! ## Closed trees -/

/-- **Closed trees**: whatever there is stands in a directory. -/
def Closed (tree : Tree) : Prop :=
  ∀ place name, (tree.entry? (place ++ [name])).isSome = true → tree.entry? place = some .directory

/-- Whatever there is in a closed tree stands in directories all the way down. -/
theorem Closed.above {tree : Tree} (h : tree.Closed) {place : Place} (more : List String)
    (hne : more ≠ []) (hsome : (tree.entry? (place ++ more)).isSome = true) :
    tree.entry? place = some .directory := by
  induction more using List.reverseRecOn with
  | nil => exact absurd rfl hne
  | append_singleton init last ih =>
    rw [← List.append_assoc] at hsome
    have hinit := h _ _ hsome
    by_cases hempty : init = []
    · rwa [hempty, List.append_nil] at hinit
    · exact ih hempty (by rw [hinit]; rfl)

/-- A tree is closed if its table says so. -/
theorem closed_of_entries {tree : Tree}
    (h : ∀ e ∈ tree.entries, tree.entry? e.1.dropLast = some .directory) : tree.Closed := by
  intro place name hsome
  obtain ⟨entry, hentry⟩ := Option.isSome_iff_exists.mp hsome
  rw [Tree.entry?, if_neg (by simp)] at hentry
  have habove := h _ (Table.mem_of_get? hentry)
  rwa [List.dropLast_concat] at habove

/-- What there is in a closed tree can be walked to, unless a name is too long. -/
theorem Closed.walkFrom {tree : Tree} (h : tree.Closed) (parts : List String) (hdots : ".." ∉ parts) :
    ∀ start : Place, (tree.entry? (start ++ parts)).isSome = true →
      tree.walkFrom start parts = .ok (start ++ parts) ∨
        tree.walkFrom start parts = .error .nameTooLong := by
  induction parts with
  | nil =>
    intro start _
    rw [List.append_nil]
    exact Or.inl rfl
  | cons part rest ih =>
    intro start hsome
    obtain ⟨hpart, hrest⟩ := not_or.mp (List.mem_cons.not.mp hdots)
    rw [Tree.walkFrom, h.above (part :: rest) (by simp) hsome]
    dsimp only
    split
    · exact Or.inr rfl
    · rw [Path.descend, if_neg (Ne.symm hpart)]
      have happend : start ++ part :: rest = start ++ [part] ++ rest := by simp
      rw [happend] at hsome ⊢
      exact ih hrest _ hsome

/-- **If nothing is found at a place of a closed tree**, nothing is there. -/
theorem Closed.entry_of_exists {tree : Tree} (h : tree.Closed) {path : Path}
    (habsolute : path.isAbsolute = true) (hdots : ".." ∉ path.parts) (hnull : path.hasNull = false)
    (hexists : tree.exists? path = .ok false) : tree.entry? path.parts = none := by
  by_contra hne
  obtain ⟨entry, hentry⟩ := Option.ne_none_iff_exists'.mp hne
  have hwalk := h.walkFrom path.parts hdots [] (by rw [List.nil_append, hentry]; rfl)
  rw [exists?, stat, walk, askable, hnull, habsolute] at hexists
  by_cases hlong : path.toText.utf8ByteSize > pathLimit
  · simp [hlong, bind, Except.bind] at hexists
  · rcases hwalk with hwalk | hwalk
    · simp [hlong, bind, Except.bind, hwalk, hentry] at hexists
    · simp [hlong, bind, Except.bind, hwalk] at hexists

end Tree

end TypeScribe.Files

namespace TypeScribe.Output

open Files (Tree Path Place)

/-! ## Making directories -/

theorem spot_ok {tree : Tree} {path : Path} {above : Place} {name : String}
    (h : spot tree path = .ok (above, name)) :
    above = path.parent.resolve tree.home ∧ name = path.name := by
  rw [spot] at h
  cases hask : Files.Tree.askable path with
  | error trouble =>
    rw [hask] at h
    cases h
  | ok u =>
    rw [hask] at h
    cases hwalk : tree.walk path.parent with
    | error trouble =>
      rw [hwalk] at h
      cases h
    | ok place =>
      rw [hwalk] at h
      simp only [bind, Except.bind] at h
      split at h
      · cases h
      · cases h
      · cases h
        exact ⟨Files.Tree.walk_ok hwalk, rfl⟩

/-- **A directory that is made** stands where its path leads, and nothing was there. -/
theorem makeDirectory_ok {tree tree' : Tree} {path : Path} (h : makeDirectory tree path = .ok tree') :
    tree.entry? (path.resolve tree.home) = none ∧
      tree' = tree.put (path.resolve tree.home) .directory := by
  rw [makeDirectory] at h
  split at h
  · cases h
  · rename_i hparts
    have hne : path.parts ≠ [] := fun hempty => hparts (by rw [hempty]; rfl)
    cases hspot : spot tree path with
    | error trouble =>
      rw [hspot] at h
      cases h
    | ok found =>
      obtain ⟨above, name⟩ := found
      obtain ⟨rfl, rfl⟩ := spot_ok hspot
      rw [hspot] at h
      simp only [bind, Except.bind] at h
      split at h
      · cases h
      · rename_i hname
        rw [← Files.Path.resolve_parent_append hne hname] at h
        split at h
        · cases h
        · split at h
          · cases h
          · rename_i hnone
            cases h
            exact ⟨Option.not_isSome_iff_eq_none.mp hnone, rfl⟩

section

variable {fresh : Place → Prop} {tree : Tree}

theorem ensureDirectory_apply (path : Path) (otherwise : OnTree Unit) (tree : Tree) :
    ensureDirectory path otherwise tree =
      match makeDirectory tree path with
      | .ok tree' => .ok () tree'
      | .error .missing => otherwise tree
      | .error trouble =>
        if tree.isDirectory path then .ok () tree else .error (.file trouble path.toText) tree := by
  change (match makeDirectory tree path with
    | .ok tree => set tree
    | .error .missing => otherwise
    | .error trouble =>
      if tree.isDirectory path then pure () else throw (.file trouble path.toText) : OnTree Unit) tree = _
  cases makeDirectory tree path with
  | ok tree' => rfl
  | error trouble => cases tree.isDirectory path <;> cases trouble <;> rfl

/-- Making sure of a directory lets the tree grow, if dealing with a missing one does. -/
theorem ensureDirectory_grown {path : Path} (hfresh : fresh (path.resolve tree.home))
    {otherwise : OnTree Unit} (hotherwise : Tree.Grown fresh tree (leaves (otherwise tree))) :
    Tree.Grown fresh tree (leaves (ensureDirectory path otherwise tree)) := by
  rw [ensureDirectory_apply]
  split
  · rename_i tree' hmake
    obtain ⟨hnone, rfl⟩ := makeDirectory_ok hmake
    exact .put hnone hfresh
  · exact hotherwise
  · split <;> exact .refl tree

/-- **Making directories** lets the tree grow by places that the path passes. -/
theorem ensureNames_grown (root : String) (home : Place) (names : List String) : ∀ tree : Tree,
    tree.home = home →
    Tree.Grown (Path.Passes home ⟨root, names.reverse⟩) tree (leaves (ensureNames root names tree)) := by
  induction names with
  | nil =>
    rintro tree rfl
    exact ensureDirectory_grown (Files.Path.passes_resolve _ _) (.refl tree)
  | cons name above ih =>
    rintro tree rfl
    refine ensureDirectory_grown (Files.Path.passes_resolve _ _) (.bind ?_ ?_)
    · refine (ih tree rfl).mono ?_
      rintro place ⟨names, hprefix, rfl⟩
      refine ⟨names, hprefix.trans ?_, rfl⟩
      rw [List.reverse_cons]
      exact List.prefix_append ..
    · intro _ tree' hhome
      refine ensureDirectory_grown ?_ (.refl tree')
      rw [hhome]
      exact Files.Path.passes_resolve _ _

/-- Whether it succeeds or not, ensuring directories only adds some that the path passes. -/
theorem ensureDirectories_grown (path : Path) (tree : Tree) :
    Tree.Grown (path.Passes tree.home) tree (leaves (ensureDirectories path tree)) := by
  have hgrown := ensureNames_grown path.root tree.home path.parts.reverse tree rfl
  rwa [List.reverse_reverse] at hgrown

end

/-! ## Writing -/

/-- **Room beside the target**: there is none for a path that holds the null character, or if the name or
the path of the new file is too long. -/
theorem prepare_cases (path : Path) (tree : Tree) :
    (∃ failure, prepare path tree = .error failure tree) ∨
      path.hasNull = false ∧ path.name.utf8ByteSize + besideOctets ≤ Files.Tree.nameLimit ∧
        prepare path tree = .ok () tree := by
  rw [prepare, bind_ok _ (show (get : OnTree Tree) tree = .ok tree tree from rfl)]
  cases hnull : path.hasNull with
  | true => exact Or.inl ⟨_, rfl⟩
  | false =>
    rw [if_neg (by decide)]
    by_cases hname : path.name.utf8ByteSize + besideOctets > Files.Tree.nameLimit
    · rw [if_pos hname]
      exact Or.inl ⟨_, rfl⟩
    · rw [if_neg hname]
      by_cases hpath : (besidePath tree path).toText.utf8ByteSize + besideOctets > Files.Tree.pathLimit
      · rw [if_pos hpath]
        exact Or.inl ⟨_, rfl⟩
      · rw [if_neg hpath]
        exact Or.inr ⟨rfl, Nat.not_lt.mp hname, rfl⟩

theorem replace_apply (path : Path) (octets : List UInt8) (tree : Tree) :
    replace path octets tree =
      match spot tree path with
      | .error trouble => .error (.file trouble path.toText) tree
      | .ok (above, name) =>
        if name = "" ∨ name = ".." then .error (.file .busy path.toText) tree
        else
          match tree.entry? (above ++ [name]) with
          | some .directory => .error (.file .isDirectory path.toText) tree
          | _ => .ok () (tree.put (above ++ [name]) (.file octets)) := by
  rw [replace, bind_ok _ (show (get : OnTree Tree) tree = .ok tree tree from rfl)]
  cases spot tree path with
  | error trouble => rfl
  | ok found =>
    obtain ⟨above, name⟩ := found
    dsimp only
    split
    · rfl
    · cases tree.entry? (above ++ [name]) with
      | none => rfl
      | some entry => cases entry <;> rfl

/-- **Replacing the target** leaves the tree alone if it fails, and puts the content where the path leads
otherwise. No directory is replaced. -/
theorem replace_cases (path : Path) (octets : List UInt8) (tree : Tree) :
    (∃ failure, replace path octets tree = .error failure tree) ∨
      path.resolve tree.home ≠ [] ∧ tree.entry? (path.resolve tree.home) ≠ some .directory ∧
        replace path octets tree = .ok () (tree.put (path.resolve tree.home) (.file octets)) := by
  rw [replace_apply]
  cases hspot : spot tree path with
  | error trouble => exact Or.inl ⟨_, rfl⟩
  | ok found =>
    obtain ⟨above, name⟩ := found
    obtain ⟨rfl, rfl⟩ := spot_ok hspot
    dsimp only
    split
    · exact Or.inl ⟨_, rfl⟩
    · rename_i hname
      obtain ⟨hempty, hdots⟩ := not_or.mp hname
      have hne : path.parts ≠ [] := by
        intro hparts
        rw [Files.Path.name, hparts] at hempty
        exact hempty rfl
      rw [← Files.Path.resolve_parent_append hne hdots]
      split
      · exact Or.inl ⟨_, rfl⟩
      · rename_i hentry
        refine Or.inr ⟨?_, hentry, rfl⟩
        rw [Files.Path.resolve_parent_append hne hdots]
        simp

/-- Once there is a directory for it, the content is checked, and then the target is replaced. -/
theorem write_prepared {path : Path} {tree grown : Tree}
    (hensure : ensureDirectories path.parent tree = .ok () grown)
    (hprepare : prepare path grown = .ok () grown) (content : String) (checked : Bool) :
    (∃ failure, write path content checked tree = .error failure grown) ∨
      write path content checked tree = replace path content.toUTF8.toList grown := by
  rw [write, bind_ok _ hensure, bind_ok _ hprepare]
  cases checked with
  | false => exact Or.inr rfl
  | true =>
    cases check content with
    | ok u => exact Or.inr rfl
    | error fault => exact Or.inl ⟨_, rfl⟩

/-- **What a write does**: it fails, and the tree has grown by directories at most; or the tree has grown and
then the content has been put where the path leads. -/
theorem write_cases (path : Path) (content : String) (checked : Bool) (tree : Tree) :
    (∃ failure grown, write path content checked tree = .error failure grown ∧
      Tree.Grown (path.parent.Passes tree.home) tree grown) ∨
    ∃ grown, Tree.Grown (path.parent.Passes tree.home) tree grown ∧ path.hasNull = false ∧
      path.resolve tree.home ≠ [] ∧ grown.entry? (path.resolve tree.home) ≠ some .directory ∧
      write path content checked tree =
        .ok () (grown.put (path.resolve tree.home) (.file content.toUTF8.toList)) := by
  have hgrown := ensureDirectories_grown path.parent tree
  cases hensure : ensureDirectories path.parent tree with
  | error failure grown =>
    rw [hensure] at hgrown
    exact Or.inl ⟨failure, grown, bind_error _ hensure, hgrown⟩
  | ok u grown =>
    rw [hensure] at hgrown
    have hgrown : Tree.Grown _ tree grown := hgrown
    rcases prepare_cases path grown with ⟨failure, hprepare⟩ | ⟨hnull, -, hprepare⟩
    · refine Or.inl ⟨failure, grown, ?_, hgrown⟩
      rw [write, bind_ok _ hensure, bind_error _ hprepare]
    · rcases write_prepared hensure hprepare content checked with ⟨failure, hrejected⟩ | hreplace
      · exact Or.inl ⟨failure, grown, hrejected, hgrown⟩
      · rw [hreplace]
        rcases replace_cases path content.toUTF8.toList grown with ⟨failure, hfailed⟩ | hreplaced
        · exact Or.inl ⟨failure, grown, hfailed, hgrown⟩
        · rw [hgrown.home] at hreplaced
          exact Or.inr ⟨grown, hgrown, hnull, hreplaced⟩

theorem writeNew_apply (path : Path) (content : String) (checked : Bool) (tree : Tree) :
    writeNew path content checked tree =
      match tree.exists? path with
      | .error trouble => .error (.file trouble path.toText) tree
      | .ok true => .error (.present path.toText) tree
      | .ok false => write path content checked tree := by
  rw [writeNew, bind_ok _ (show (get : OnTree Tree) tree = .ok tree tree from rfl)]
  cases tree.exists? path with
  | error trouble => rfl
  | ok found => cases found <;> rfl

/-- A new file is written as any other, if nothing is found at its path. -/
theorem writeNew_cases (path : Path) (content : String) (checked : Bool) (tree : Tree) :
    (∃ failure, writeNew path content checked tree = .error failure tree) ∨
      tree.exists? path = .ok false ∧
        writeNew path content checked tree = write path content checked tree := by
  rw [writeNew_apply]
  cases tree.exists? path with
  | error trouble => exact Or.inl ⟨_, rfl⟩
  | ok found =>
    cases found with
    | true => exact Or.inl ⟨_, rfl⟩
    | false => exact Or.inr ⟨rfl, rfl⟩

end TypeScribe.Output
