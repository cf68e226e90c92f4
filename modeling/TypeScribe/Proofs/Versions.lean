import TypeScribe.Proofs.Course
import TypeScribe.Proofs.Recall

/-!
# One version of every document

Files may change while a shelf is in use. What it has served once it serves again, whatever has become of the
file, and what it could not serve it tries again. So the replies of a shelf over time are **steady**
(`Shelf.Steady`).

A compilation does nothing to its source but ask it (`Registry.becomes_compileAll`). Held against a
**restless** shelf, whose files change between any two loads, it gets one version of every document, under
all locations that lead to it (`Shelf.steady`).
-/

namespace TypeScribe

/-! ## What a compilation does to its source -/

section

variable {σ : Type} [Source σ]

/-- **A construction only asks its source**, as a bond of the construction with itself. -/
def Source.bond (start : σ) : Bond σ σ where
  holds _ w v := w = v ∧ Becomes start w.source
  failed _ w v := w = v ∧ Becomes start w.source
  graph h := congrArg Workshop.graph h.1
  weaken _ h := h
  enter _ _ _ _ _ _ h := ⟨congrArg (Workshop.enter · _ _ _) h.1, h.2⟩
  adjust id f _ h := ⟨congrArg (Workshop.adjust · id f) h.1, h.2⟩
  fail _ h := h

theorem Source.bond_links (start : σ) (settings : Settings) (budget : Nat) :
    (bond start).Links (fun _ => True) (Build.resolve settings budget) (Build.resolve settings budget) := by
  refine Bond.resolve (fun _ h => h) ?_ ?_ settings budget
  · rintro w v ref key ⟨rfl, hw⟩
    exact ⟨rfl, rfl, hw.load key⟩
  · rintro w v key id ⟨rfl, hw⟩
    rw [Build.bindNew, Build.onGraph_apply]
    exact .ok ⟨rfl, hw⟩

/-- Building a root leaves a source that the old one becomes by being asked. -/
theorem Build.becomes_root (settings : Settings) (schema : Json) (name : Option String) (path : String)
    (keys : List String) (w : Workshop σ) :
    Source.Becomes w.source (leaves (root settings schema name path keys w)).source := by
  have hstart : (Source.bond w.source).holds keys w w := ⟨rfl, .refl _⟩
  have hbuild := Schema.build_together
    (Source.bond_links w.source settings (Source.budget w.source schema)) (Schema.ofJson schema)
    (Schema.ofJson_refers fun _ _ => trivial) name path hstart
  change Source.Becomes w.source (leaves ((Schema.ofJson schema).build _ name path keys w)).source
  generalize (Schema.ofJson schema).build _ name path keys w = built at hbuild ⊢
  cases hbuild with
  | ok states => exact states.2
  | error states => exact states.2

/-- A step on a registry **only asks** the source, and does nothing else to it. -/
def Session.OnlyAsks {α : Type} (m : Session σ α) : Prop :=
  ∀ r, Source.Becomes r.workshop.source (leaves (m r)).workshop.source

namespace Session.OnlyAsks

variable {α β : Type}

theorem bind {m : Session σ α} {k : α → Session σ β} (hm : OnlyAsks m) (hk : ∀ a, OnlyAsks (k a)) :
    OnlyAsks (m >>= k) := by
  intro r
  have hr := hm r
  rw [bind_apply]
  cases hrun : m r with
  | error failure r' =>
    rw [hrun] at hr
    exact hr
  | ok a r' =>
    rw [hrun] at hr
    exact hr.trans (hk a r')

theorem pure (a : α) : OnlyAsks (pure a : Session σ α) := fun _ => .refl _

theorem throw (failure : Failure) : OnlyAsks (throw failure : Session σ α) := fun _ => .refl _

theorem get : OnlyAsks (get : Session σ (Registry σ)) := fun _ => .refl _

/-- A change of the registry that leaves its source alone. -/
theorem modify {f : Registry σ → Registry σ} (hf : ∀ r, (f r).workshop.source = r.workshop.source) :
    OnlyAsks (modify f : Session σ Unit) := by
  intro r
  change Source.Becomes r.workshop.source (f r).workshop.source
  rw [hf]
  exact .refl _

end Session.OnlyAsks

namespace Registry

open Session (OnlyAsks)

theorem onlyAsks_addAll (roots : List Json) : OnlyAsks (addAll roots : Session σ Unit) := by
  induction roots with
  | nil => exact .pure ()
  | cons schema rest ih =>
    have hadd : OnlyAsks (add schema .null : Session σ Unit) := by
      rw [add]
      split
      · exact .throw _
      · exact .modify fun r => rfl
    exact hadd.bind fun _ => ih

theorem onlyAsks_buildRoots (roots : List Json) :
    OnlyAsks (buildRoots roots : Session σ (List NodeId)) := by
  induction roots with
  | nil => exact .pure []
  | cons schema rest ih =>
    intro r
    have hroot := Build.becomes_root r.settings schema none "#" [] r.workshop
    rw [buildRoots_apply]
    cases hbuild : Build.root r.settings schema none "#" [] r.workshop with
    | error failure w =>
      rw [hbuild] at hroot
      exact hroot
    | ok id w =>
      rw [hbuild] at hroot
      dsimp only
      split
      · exact hroot
      · split
        · exact hroot
        · have hrest : OnlyAsks (buildRoots rest >>= fun more => pure (id :: more) : Session σ _) :=
            ih.bind fun more => .pure (id :: more)
          exact hroot.trans (hrest { r with pending := rest, workshop := w })

theorem onlyAsks_convertAll (ids : List NodeId) : OnlyAsks (convertAll ids : Session σ Unit) := by
  induction ids with
  | nil => exact .pure ()
  | cons id rest ih =>
    have hconvert : OnlyAsks (convert id : Session σ Unit) := by
      refine .bind .get fun r₀ r => ?_
      rw [writing]
      split <;> exact .refl _
    exact hconvert.bind fun _ => ih

theorem onlyAsks_render : OnlyAsks (render : Session σ String) := by
  refine .bind (.modify fun r => rfl) fun _ => .bind .get fun r => ?_
  split
  · exact .pure _
  · exact .throw _

/-- **A compilation does nothing to its source but ask it.** -/
theorem becomes_compileAll (roots : List Json) (r : Registry σ) :
    Source.Becomes r.workshop.source (leaves (compileAll roots r)).workshop.source := by
  have hparse : OnlyAsks (parse : Session σ String) :=
    .bind .get fun r => .bind (onlyAsks_buildRoots r.pending) fun ids =>
      .bind (onlyAsks_convertAll ids) fun _ => onlyAsks_render
  exact ((onlyAsks_addAll roots).bind fun _ => hparse) r

end Registry

end

namespace Files

/-! ## Replies over time -/

namespace Shelf

/-- **Steady replies**, of a shelf that begins with nothing served.

* Once a location is served, so are all that meet it, with the same document.
* A load that fails may be left out. The other replies are as they were, and so is the shelf in the end.
* As long as no location that meets it was served, a location is read from the files as they are then.
* A location that was not served is served once it could be read: with the document that is there, unless one
  was served in between under a location that meets it. -/
structure Steady (tree : Tree) (steps : List Step) : Prop where
  stable : ∀ {i j : Nat} {location other : String} {fields : Entries Json}, i < j →
    steps[i]? = some (.load location) → steps[j]? = some (.load other) →
    tree.home.Meet location other → (tree.shelf.replies steps)[i]? = some (.document fields) →
    (tree.shelf.replies steps)[j]? = some (.document fields)
  traceless : ∀ {i : Nat} {location : String} {fault : LoadFault}, steps[i]? = some (.load location) →
    (tree.shelf.replies steps)[i]? = some (.unavailable fault) →
    tree.shelf.replies (steps.eraseIdx i) = (tree.shelf.replies steps).eraseIdx i ∧
      tree.shelf.after (steps.eraseIdx i) = tree.shelf.after steps
  afresh : ∀ {j : Nat} {location : String}, steps[j]? = some (.load location) →
    (∀ i < j, ∀ other fields, steps[i]? = some (.load other) → tree.home.Meet other location →
      (tree.shelf.replies steps)[i]? ≠ some (.document fields)) →
    (tree.shelf.replies steps)[j]? =
      some ((tree.shelf.after (steps.take j)).tree.shelf.reply (.load location))
  repaired : ∀ {i j : Nat} {location : String} {fault : LoadFault} {fields : Entries Json}, i < j →
    steps[i]? = some (.load location) → (tree.shelf.replies steps)[i]? = some (.unavailable fault) →
    steps[j]? = some (.load location) →
    (tree.shelf.after (steps.take j)).tree.shelf.reply (.load location) = .document fields →
    ∃ found, (tree.shelf.replies steps)[j]? = some (.document found) ∧
      (found = fields ∨ ∃ k other, i < k ∧ k < j ∧ steps[k]? = some (.load other) ∧
        tree.home.Meet other location ∧ (tree.shelf.replies steps)[k]? = some (.document found))

/-- A step that leaves the shelf alone may be left out. -/
theorem eraseIdx_of_still {steps : List Step} : ∀ {shelf : Shelf} {i : Nat} {step : Step},
    steps[i]? = some step → (shelf.after (steps.take i)).next step = shelf.after (steps.take i) →
    shelf.replies (steps.eraseIdx i) = (shelf.replies steps).eraseIdx i ∧
      shelf.after (steps.eraseIdx i) = shelf.after steps := by
  induction steps with
  | nil => exact fun h => nomatch h
  | cons first rest ih =>
    intro shelf i step hi hstill
    cases i with
    | zero =>
      obtain rfl := Option.some.inj hi
      have hstill : shelf.next first = shelf := hstill
      refine ⟨?_, ?_⟩
      · rw [replies, hstill]
        rfl
      · change shelf.after rest = (shelf.next first).after rest
        rw [hstill]
    | succ i =>
      have hstill : ((shelf.next first).after (rest.take i)).next step =
          (shelf.next first).after (rest.take i) := hstill
      obtain ⟨hreplies, hafter⟩ := ih hi hstill
      refine ⟨?_, hafter⟩
      rw [List.eraseIdx_cons_succ, replies, replies, List.eraseIdx_cons_succ, hreplies]

section

variable {tree : Tree} {steps : List Step} {i j : Nat} {location other : String} {fields : Entries Json}

/-- What is served at a step is remembered at all later ones. -/
theorem recalled_of_reply (hhome : tree.home.Plain) (hlt : i < j) (hi : steps[i]? = some (.load location))
    (hmeet : tree.home.Meet location other)
    (hreply : (tree.shelf.replies steps)[i]? = some (.document fields)) :
    (tree.shelf.after (steps.take j)).recalled? other = some fields := by
  have hhome' : (tree.shelf.after (steps.take i)).tree.home = tree.home := home_after _ _
  rw [getElem?_replies_load hi, Option.some_inj, Reply.ofLoad_eq_document] at hreply
  have hserved := recalled_of_served hreply (hhome' ▸ hmeet)
  have hsplit : steps.take j = steps.take i ++ [.load location] ++ (steps.take j).drop (i + 1) := by
    have hload : steps.take i ++ [.load location] = (steps.take j).take (i + 1) := by
      rw [List.take_take, Nat.min_eq_left hlt, List.take_add_one, hi]
      rfl
    rw [hload, List.take_append_drop]
  rw [hsplit, after_append, after_concat]
  refine recalled_after ?_ _ hserved
  rw [home_next, hhome']
  exact hhome

/-- What is remembered at a step was served at an earlier one. -/
theorem reply_of_recalled (hhome : tree.home.Plain)
    (h : (tree.shelf.after (steps.take j)).recalled? location = some fields) :
    ∃ i other, i < j ∧ steps[i]? = some (.load other) ∧ tree.home.Meet other location ∧
      (tree.shelf.replies steps)[i]? = some (.document fields) := by
  obtain ⟨i, other, hi, hmeet, hreply⟩ := recalled_origin hhome h
  have hlt : i < j :=
    Nat.lt_of_lt_of_le (List.getElem?_eq_some_iff.mp hi).1 (List.length_take_le ..)
  refine ⟨i, other, hlt, by rwa [List.getElem?_take_of_lt hlt] at hi, hmeet, ?_⟩
  rwa [getElem?_replies, List.getElem?_take_of_lt hlt, List.take_take, Nat.min_eq_left hlt.le,
    ← getElem?_replies] at hreply

/-- **Replies are steady**, whatever happens to the files. -/
theorem steady_of_plain (hhome : tree.home.Plain) (steps : List Step) : Steady tree steps where
  stable hlt hi hj hmeet hreply := by
    rw [getElem?_replies_load hj, load_recalled (recalled_of_reply hhome hlt hi hmeet hreply)]
    rfl
  traceless hi hreply := by
    rw [getElem?_replies_load hi, Option.some_inj, Reply.ofLoad_eq_unavailable] at hreply
    exact eraseIdx_of_still hi (source_of_failed hreply)
  afresh {j location} hj hnone := by
    rw [getElem?_replies_load hj]
    cases hrecall : (tree.shelf.after (steps.take j)).recalled? location with
    | none =>
      rw [load_unrecalled hrecall]
      rfl
    | some fields =>
      obtain ⟨i, other, hlt, hi, hmeet, hreply⟩ := reply_of_recalled hhome hrecall
      exact absurd hreply (hnone i hlt other fields hi hmeet)
  repaired {i j location fault fields} hlt hi hfailed hj hfresh := by
    rw [getElem?_replies_load hj]
    cases hrecall : (tree.shelf.after (steps.take j)).recalled? location with
    | none =>
      refine ⟨fields, ?_, Or.inl rfl⟩
      rw [load_unrecalled hrecall, ← hfresh]
      rfl
    | some found =>
      obtain ⟨k, other, hkj, hk, hmeet, hreply⟩ := reply_of_recalled hhome hrecall
      refine ⟨found, by rw [load_recalled hrecall]; rfl, Or.inr ⟨k, other, ?_, hkj, hk, hmeet, hreply⟩⟩
      rcases Nat.lt_trichotomy k i with hki | rfl | hik
      · have hrecalled := recalled_of_reply hhome hki hk hmeet hreply
        rw [getElem?_replies_load hi, load_recalled hrecalled] at hfailed
        cases hfailed
      · cases hreply.symm.trans hfailed
      · exact hik

end

end Shelf

/-! ## A compilation among changes -/

/-- Changes of files, made in turn as far as they are not refused. -/
def Edit.runAll (tree : Tree) (edits : List Edit) : Tree :=
  edits.foldl (fun tree edit => leaves (edit.run tree)) tree

theorem Edit.home_runAll (edits : List Edit) : ∀ tree : Tree, (runAll tree edits).home = tree.home := by
  induction edits with
  | nil => exact fun tree => rfl
  | cons edit rest ih => exact fun tree => (ih _).trans (edit.home_run tree)

/-- **A restless shelf**: its files change before every load. It notes what it is asked for, and what it
answers. -/
structure Restless where
  shelf : Shelf
  /-- The changes before the next load, before the one after that, and so on. -/
  changes : List (List Edit) := []
  noted : List (String × Except LoadFault (Entries Json)) := []

namespace Restless

/-- The shelf at the next load. -/
def current (r : Restless) : Shelf :=
  { r.shelf with tree := Edit.runAll r.shelf.tree (r.changes.headD []) }

/-- The trees at the loads to come. -/
def trees (tree : Tree) : List (List Edit) → List Tree
  | [] => [tree]
  | edits :: rest => Edit.runAll tree edits :: trees (Edit.runAll tree edits) rest

instance : Source Restless where
  load r location :=
    let loaded := r.current.load location
    { result := loaded.result
      source := ⟨loaded.source, r.changes.tail, r.noted ++ [(location, loaded.result)]⟩
      events := loaded.events }
  shelf r :=
    r.shelf.served.map (fun e => Json.obj e.2) ++
      (trees r.shelf.tree r.changes).flatMap fun tree => Source.shelf tree.shelf

theorem mem_trees (tree : Tree) (changes : List (List Edit)) :
    Edit.runAll tree (changes.headD []) ∈ trees tree changes := by
  cases changes with
  | nil => exact List.mem_singleton_self tree
  | cons edits rest => exact List.mem_cons_self ..

theorem trees_tail_subset (tree : Tree) (changes : List (List Edit)) :
    trees (Edit.runAll tree (changes.headD [])) changes.tail ⊆ trees tree changes := by
  cases changes with
  | nil => exact List.Subset.refl _
  | cons edits rest => exact List.subset_cons_self ..

/-- What the shelf may serve at the next load, the restless shelf may serve. -/
theorem shelf_current_subset (r : Restless) : Source.shelf r.current ⊆ Source.shelf r := by
  intro document hmem
  rcases List.mem_append.mp hmem with hserved | hfile
  · exact List.mem_append_left _ hserved
  · exact List.mem_append_right _ (List.mem_flatMap.mpr ⟨_, mem_trees _ _, List.mem_append_right _ hfile⟩)

instance : LawfulSource Restless where
  served {r _ _} h := shelf_current_subset r (LawfulSource.served (s := r.current) h)
  shelf r location := by
    intro document hmem
    rcases List.mem_append.mp hmem with hserved | hfile
    · exact shelf_current_subset r (LawfulSource.shelf r.current location (List.mem_append_left _ hserved))
    · obtain ⟨tree, htree, hfile⟩ := List.mem_flatMap.mp hfile
      change tree ∈ trees (r.current.load location).source.tree r.changes.tail at htree
      rw [Shelf.tree_load] at htree
      exact List.mem_append_right _ (List.mem_flatMap.mpr ⟨tree, trees_tail_subset _ _ htree, hfile⟩)

end Restless

/-- **One answer settles another**: if it is a document, and the locations meet, the other is that document,
too. -/
def Place.Settles (home : Place) (earlier later : String × Except LoadFault (Entries Json)) : Prop :=
  home.Meet earlier.1 later.1 → ∀ fields, earlier.2 = .ok fields → later.2 = .ok fields

namespace Restless

/-- **What is noted holds**: documents are remembered, and every answer settles all later ones. -/
structure Consistent (home : Place) (r : Restless) : Prop where
  anchored : r.shelf.tree.home = home
  recalled : ∀ location fields, (location, .ok fields) ∈ r.noted →
    r.shelf.recalled? location = some fields
  settled : r.noted.Pairwise home.Settles

variable {home : Place} {r r' : Restless}

theorem home_current (r : Restless) : r.current.tree.home = r.shelf.tree.home := Edit.home_runAll _ _

/-- A load keeps it so. -/
theorem Consistent.load (hhome : home.Plain) (h : r.Consistent home) (location : String) :
    (Source.load r location).source.Consistent home := by
  have hcurrent : r.current.tree.home = home := (home_current r).trans h.anchored
  have hrecalled : ∀ {asked fields}, (asked, Except.ok fields) ∈ r.noted →
      r.current.recalled? asked = some fields := by
    intro asked fields hmem
    rw [← h.recalled asked fields hmem, Shelf.recalled?, home_current]
    rfl
  refine ⟨?_, ?_, ?_⟩
  · exact (congrArg Tree.home (Shelf.tree_load r.current location)).trans hcurrent
  · intro asked fields hmem
    rcases List.mem_append.mp hmem with hold | hnew
    · exact Shelf.recalled_next (hcurrent ▸ hhome) (.load location) (hrecalled hold)
    · obtain ⟨rfl, hresult⟩ := Prod.mk.inj (List.mem_singleton.mp hnew)
      obtain ⟨place, htarget⟩ := Shelf.target_of_served hresult.symm
      exact Shelf.recalled_of_served hresult.symm ⟨place, htarget, htarget⟩
  · refine List.pairwise_append.mpr ⟨h.settled, List.pairwise_singleton _ _, ?_⟩
    rintro ⟨asked, answer⟩ hold _ hnew hmeet fields hanswer
    obtain rfl := List.mem_singleton.mp hnew
    have hanswer : answer = .ok fields := hanswer
    subst hanswer
    have hrecall := (Shelf.recalled_meet (hcurrent ▸ hmeet)).symm.trans (hrecalled hold)
    change (r.current.load location).result = .ok fields
    rw [Shelf.load_recalled hrecall]

/-- A source that stays consistent does so whatever it is asked. -/
theorem Consistent.becomes (hhome : home.Plain) (h : r.Consistent home) (hlater : Source.Becomes r r') :
    r'.Consistent home := by
  induction hlater with
  | refl => exact h
  | load _ location ih => exact ih.load hhome location

end Restless

/-- **One version of every document.** The replies of a shelf are steady, whatever steps are taken. And a
compilation, in which files change before every load, gets one document for each place: whatever it is answered
settles what it is answered later, under any location that meets, whether it succeeds or fails. -/
theorem Shelf.steady {tree : Tree} (hhome : tree.home.Plain) :
    (∀ steps, Steady tree steps) ∧
    ∀ (settings : Settings) (commandLine : String) (roots : List Json) (changes : List (List Edit)),
      (leaves (Registry.compileAll roots (Registry.new settings (⟨tree.shelf, changes, []⟩ : Restless)
        commandLine))).workshop.source.noted.Pairwise tree.home.Settles := by
  refine ⟨steady_of_plain hhome, fun settings commandLine roots changes => ?_⟩
  have hstart : Restless.Consistent tree.home ⟨tree.shelf, changes, []⟩ :=
    ⟨rfl, fun _ _ hmem => absurd hmem List.not_mem_nil, .nil⟩
  have hlater := Registry.becomes_compileAll roots
    (Registry.new settings (⟨tree.shelf, changes, []⟩ : Restless) commandLine)
  exact (hstart.becomes hhome hlater).settled

/-- An empty working directory. -/
def emptyDirectory : Tree := ⟨["w"], [(["w"], .directory)]⟩

/-- A document is asked for in vain until its file is mended. The file is then replaced, and removed. -/
def mendedFile : List Shelf.Step := [
  .load "a", .edit (.put "a" [91]), .load "a", .edit (.put "a" [123, 125]), .load "./a",
  .edit (.put "a" [91, 93]), .load "x/../a", .edit (.remove "a"), .load "a"]

/-- A document that is replaced by another one between two loads. -/
def replacedFile : List (List Edit) := [
  [.put "a" "\x7b\"title\":\"A\",\"type\":\"string\"\x7d".toUTF8.toList],
  [.put "a" "\x7b\"title\":\"B\",\"type\":\"number\"\x7d".toUTF8.toList]]

/-- What a compilation notes that refers to the document by two ways. -/
def notedLoads : List (String × Except LoadFault (Entries Json)) :=
  (leaves (Registry.compileAll [.obj [("title", .str "R"), ("properties", .obj [
      ("p", .obj [("$ref", .str "a")]), ("q", .obj [("$ref", .str "x/../a")])])]]
    (Registry.new {} (⟨emptyDirectory.shelf, replacedFile, []⟩ : Restless) ""))).workshop.source.noted

theorem Shelf.steady_mendedFile :
    emptyDirectory.home.Plain ∧
    (∃ fault, (emptyDirectory.shelf.replies mendedFile)[2]? = some (.unavailable fault)) ∧
    emptyDirectory.shelf.replies (mendedFile.eraseIdx 2) = (emptyDirectory.shelf.replies mendedFile).eraseIdx 2 ∧
    (∃ fields, (emptyDirectory.shelf.replies mendedFile)[4]? = some (.document fields) ∧
      (emptyDirectory.shelf.replies mendedFile)[6]? = some (.document fields) ∧
      (emptyDirectory.shelf.replies mendedFile)[8]? = some (.document fields)) ∧
    notedLoads.map (fun noted => (noted.1, noted.2.isOk)) = [("a", true), ("x/../a", true)] ∧
    notedLoads.Pairwise emptyDirectory.home.Settles := by
  have hhome : emptyDirectory.home.Plain := by unfold Place.Plain; decide
  have htarget : ∀ location ∈ ["a", "./a", "x/../a"],
      emptyDirectory.home.target? location = some ["w", "a"] := by decide +kernel
  have hmeet : ∀ other ∈ ["a", "./a", "x/../a"], emptyDirectory.home.Meet "./a" other :=
    fun other hother => ⟨["w", "a"], htarget "./a" (by simp), htarget other hother⟩
  have hsteady := (steady hhome).1 mendedFile
  have hfailed : ∃ fault, (emptyDirectory.shelf.replies mendedFile)[2]? = some (.unavailable fault) := by
    have hnone : ((emptyDirectory.shelf.after (mendedFile.take 2)).load "a").result.isOk = false := by
      decide +kernel
    rw [getElem?_replies_load rfl]
    cases hload : ((emptyDirectory.shelf.after (mendedFile.take 2)).load "a").result with
    | ok fields =>
      rw [hload] at hnone
      cases hnone
    | error fault => exact ⟨fault, rfl⟩
  obtain ⟨fields, hfields⟩ : ∃ fields,
      ((emptyDirectory.shelf.after (mendedFile.take 4)).load "./a").result = .ok fields :=
    exists_of_isOk (by decide +kernel)
  have hserved : (emptyDirectory.shelf.replies mendedFile)[4]? = some (.document fields) := by
    rw [getElem?_replies_load rfl, hfields]
    rfl
  have hsettled : notedLoads.Pairwise emptyDirectory.home.Settles := (steady hhome).2 {} "" _ replacedFile
  refine ⟨hhome, hfailed, ?_, ⟨fields, hserved, ?_, ?_⟩, by decide +kernel, hsettled⟩
  · obtain ⟨fault, hfailed⟩ := hfailed
    exact (hsteady.traceless rfl hfailed).1
  · exact hsteady.stable (by decide) rfl rfl (hmeet _ (by simp)) hserved
  · exact hsteady.stable (by decide) rfl rfl (hmeet _ (by simp)) hserved

end Files

end TypeScribe
