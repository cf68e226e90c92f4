import TypeScribe.CommandLine.Run
import TypeScribe.Proofs.Appending
import TypeScribe.Proofs.Steering
import TypeScribe.Proofs.Writing

/-!
# What a run does to files

A run has many ways to end, and only one of them touches a file. What it comes to is said here in terms of
the arguments and of the tree it finds (`CommandLine.run_effects`).

* **The arguments** name places of the tree. The absolute paths that a run works with lead to the same
  places (`Files.Tree.Proper.ofText_absolute`).
* **The text** of a run is what its input files compile to, in the order of the arguments, under the settings
  that are in effect (`Given.text?`). Up to there the tree is only read (`text_yields`).
* **The output** is printed, or written to a file (`outputStep_cases`). A write that fails leaves every file
  as it was. What is printed where there is no terminal is the text without its steering sequences
  (`printed_eq_self_iff`).
-/

namespace TypeScribe.Files

/-! ## Places that arguments name -/

/-- **Proper trees**: whatever there is stands in a directory, and the working directory has a name. -/
structure Tree.Proper (tree : Tree) : Prop where
  closed : tree.Closed
  home : tree.home.Plain
  dots : ".." ∉ tree.home

theorem Path.rootOf_slash {chars : List Char} (h : chars.head? ≠ some '/') : rootOf ('/' :: chars) = "/" := by
  unfold rootOf
  split
  · rfl
  · rename_i heq
    cases heq
    exact absurd rfl h
  · rfl
  · rename_i hnot
    exact absurd rfl (hnot chars)

/-- **The path of a place can be read back.** -/
theorem Place.ofText_path {place : Place} (h : place.Plain) : Path.ofText place.path.toText = place.path := by
  have hroot : (Path.ofText place.path.toText).root = "/" := by
    rw [toText_path, Path.ofText, String.toList_append]
    refine Path.rootOf_slash ?_
    cases place with
    | nil => simp
    | cons name rest =>
      obtain ⟨hempty, -, hslash⟩ := h name (List.mem_cons_self ..)
      obtain ⟨c, chars, hchars⟩ := List.exists_cons_of_ne_nil (String.toList_eq_nil_iff.not.mpr hempty)
      have hhead : ("/".intercalate (name :: rest)).toList.head? = some c := by
        cases rest with
        | nil => rw [String.intercalate_singleton, hchars]; rfl
        | cons next more =>
          rw [String.intercalate_cons_cons, String.toList_append, String.toList_append, hchars]
          rfl
      change ("/".intercalate (name :: rest)).toList.head? ≠ _
      rw [hhead]
      rintro ⟨rfl⟩
      exact hslash (by rw [hchars]; exact List.mem_cons_self ..)
  calc Path.ofText place.path.toText
      = ⟨(Path.ofText place.path.toText).root, (Path.ofText place.path.toText).parts⟩ := rfl
    _ = place.path := by rw [hroot, parts_path h]; rfl

/-- A place without dots is where its path leads. -/
theorem Place.resolve_path {place : Place} (hdots : ".." ∉ place) (root : String) (hroot : root ≠ "")
    (home : Place) : Path.resolve home ⟨root, place⟩ = place := by
  have habsolute : Path.isAbsolute ⟨root, place⟩ = true := by simpa [Path.isAbsolute] using hroot
  rw [Path.resolve, habsolute]
  exact Path.foldl_descend hdots []

namespace Tree

variable {tree : Tree}

/-- The place that a value of a parameter leads to. -/
def placeOf (tree : Tree) (value : String) : Place := (Path.ofText value).resolve tree.home

/-- The text of the absolute path of a value. -/
def absolute (tree : Tree) (value : String) : String := (tree.placeOf value).path.toText

/-- A value **leads to something** by its absolute path. -/
def Finds (tree : Tree) (value : String) : Prop :=
  ∃ entry, tree.stat (tree.placeOf value).path = .ok entry

/-- The document in the file at a place. -/
def json? (tree : Tree) (place : Place) : Option Json :=
  match tree.entry? place with
  | some (.file octets) => (parseOctets octets).toOption
  | _ => none

namespace Proper

variable (h : tree.Proper)
include h

theorem ofText_absolute (value : String) : Path.ofText (tree.absolute value) = (tree.placeOf value).path :=
  Place.ofText_path (Path.plain_resolve h.home (Path.plain_ofText value))

theorem dots_placeOf (value : String) : ".." ∉ tree.placeOf value := by
  intro hmem
  rcases Path.mem_resolve hmem with hmem | ⟨-, hne⟩
  · exact h.dots hmem
  · exact hne rfl

/-- The place that a path stands for resolves to itself. -/
theorem resolve_placeOf (value : String) :
    (tree.placeOf value).path.resolve tree.home = tree.placeOf value :=
  Place.resolve_path (h.dots_placeOf value) "/" (by decide) _

/-- **Reading a file by its absolute path**, once that leads to something. -/
theorem readJson_absolute {value : String} (hfinds : tree.Finds value) :
    (tree.readJson (Path.ofText (tree.absolute value))).toOption = tree.json? (tree.placeOf value) := by
  obtain ⟨entry, hstat⟩ := hfinds
  have hentry := stat_ok hstat
  rw [h.resolve_placeOf] at hentry
  rw [h.ofText_absolute, readJson, readFile, hstat, json?, hentry]
  cases entry <;> rfl

end Proper

end Tree

end TypeScribe.Files

namespace TypeScribe.CommandLine

open Files (Tree Place)

/-! ## Requests -/

/-- The request of what was given, all values absolute. -/
def Given.request (given : Given) (tree : Tree) : Request where
  output := (given.value? .output).map tree.absolute
  rootDir := (given.value? .rootDir).map tree.absolute
  config := (given.value? .config).map tree.absolute
  force := given.isOn .force
  verbose := given.isOn .verbose
  paths := given.paths.map tree.absolute

/-- **There are files to read**: the settings file and the input files lead to something. -/
structure Given.Found (given : Given) (tree : Tree) : Prop where
  config : ∀ file, given.value? .config = some file → tree.Finds file
  paths : ∀ file ∈ given.paths, tree.Finds file

/-- A value that meets a demand becomes an absolute path, which leads to something if it has to. -/
theorem Demand.meet_ok {demand : Demand} {tree : Tree} {parameter value path : String}
    (h : demand.meet tree parameter value = .ok path) :
    path = tree.absolute value ∧ (demand.mustExist = true → tree.Finds value) := by
  have hresolved : tree.resolved (Files.Path.ofText value) = (tree.placeOf value).path := rfl
  rw [meet] at h
  simp only [hresolved] at h
  split at h
  · cases h
  · split at h
    · split at h
      · cases h
      · rename_i hmust
        cases h
        exact ⟨rfl, fun hexist => absurd hexist hmust⟩
    · split at h
      · rename_i hstat _
        cases h
        exact ⟨rfl, fun _ => ⟨_, hstat⟩⟩
      · cases h
    · split at h
      · rename_i hstat _
        cases h
        exact ⟨rfl, fun _ => ⟨_, hstat⟩⟩
      · cases h

/-- The value of an option in a request. -/
def Request.get (request : Request) : Setting → Option String
  | .output => request.output
  | .rootDir => request.rootDir
  | .config => request.config

/-- Entering a value changes what is given for its own setting only. -/
theorem Request.get_set (request : Request) (setting other : Setting) (value : String) :
    (request.set setting value).get other = if other = setting then some value else request.get other := by
  cases setting <;> cases other <;> rfl

/-- **Options are entered** into a request: those of a list have the values that were given, if any, and lead to
something if they have to. All else is as before. -/
structure Request.Entered (tree : Tree) (given : Given) (settings : List Setting)
    (request request' : Request) : Prop where
  get : ∀ setting, request'.get setting =
    if setting ∈ settings then ((given.value? setting).map tree.absolute).or (request.get setting)
    else request.get setting
  finds : ∀ setting ∈ settings, ∀ value, given.value? setting = some value →
    setting.demand.mustExist = true → tree.Finds value
  force : request'.force = request.force
  verbose : request'.verbose = request.verbose

theorem Request.Entered.cons {tree : Tree} {given : Given} {first : Setting} {rest : List Setting}
    {request next request' : Request} (h : Entered tree given [first] request next)
    (h' : Entered tree given rest next request') : Entered tree given (first :: rest) request request' where
  get setting := by
    rw [h'.get, h.get]
    by_cases heq : setting = first
    · subst heq
      cases given.value? setting <;> simp
    · simp [heq]
  finds setting hmem := by
    rcases List.mem_cons.mp hmem with rfl | hmem
    · exact h.finds setting (List.mem_singleton_self setting)
    · exact h'.finds setting hmem
  force := h'.force.trans h.force
  verbose := h'.verbose.trans h.verbose

/-- Checking one option enters it. -/
theorem checkSettings_cons {tree : Tree} {given : Given} {first : Setting} {rest : List Setting}
    {request request' : Request} (h : checkSettings tree given request (first :: rest) = .ok request') :
    ∃ next, Request.Entered tree given [first] request next ∧
      checkSettings tree given next rest = .ok request' := by
  rw [checkSettings] at h
  cases hvalue : given.value? first with
  | none =>
    rw [hvalue] at h
    refine ⟨request, ⟨?_, ?_, rfl, rfl⟩, h⟩
    · intro setting
      by_cases heq : setting = first
      · simp [heq, hvalue]
      · simp [heq]
    · intro setting hmem value hsome
      rw [List.mem_singleton.mp hmem, hvalue] at hsome
      cases hsome
  | some value =>
    rw [hvalue] at h
    dsimp only at h
    split at h
    · cases h
    · rename_i path hmeet
      obtain ⟨rfl, hfinds⟩ := Demand.meet_ok hmeet
      refine ⟨request.set first (tree.absolute value), ⟨?_, ?_, ?_, ?_⟩, h⟩
      · intro setting
        rw [Request.get_set]
        by_cases heq : setting = first
        · simp [heq, hvalue]
        · simp [heq]
      · intro setting hmem other hsome hmust
        obtain rfl := List.mem_singleton.mp hmem
        obtain rfl := Option.some.inj (hvalue.symm.trans hsome)
        exact hfinds hmust
      · cases first <;> rfl
      · cases first <;> rfl

/-- **Checking options** enters them. -/
theorem checkSettings_ok {tree : Tree} {given : Given} (settings : List Setting) :
    ∀ {request request' : Request}, checkSettings tree given request settings = .ok request' →
      Request.Entered tree given settings request request' := by
  induction settings with
  | nil =>
    intro request request' h
    cases h
    exact ⟨fun _ => rfl, by simp, rfl, rfl⟩
  | cons first rest ih =>
    intro request request' h
    obtain ⟨next, hfirst, hrest⟩ := checkSettings_cons h
    exact hfirst.cons (ih hrest)

theorem Given.mem_settingsInOrder {given : Given} {setting : Setting} {value : String}
    (h : given.value? setting = some value) : setting ∈ given.settingsInOrder := by
  rw [settingsInOrder, List.mem_eraseDups]
  obtain ⟨entry, hfind, -⟩ := Option.map_eq_some_iff.mp h
  have hmem := List.mem_reverse.mp (List.mem_of_find?_eq_some hfind)
  have hsetting := List.find?_some hfind
  rw [decide_eq_true_iff] at hsetting
  exact List.mem_map.mpr ⟨entry, hmem, hsetting⟩

/-- Paths that meet a demand become absolute, and exist if they must. -/
theorem meet_paths {tree : Tree} {parameter : String} {demand : Demand} (files : List String) :
    ∀ {paths : List String}, files.mapM (demand.meet tree parameter) = .ok paths →
      paths = files.map tree.absolute ∧ (demand.mustExist = true → ∀ file ∈ files, tree.Finds file) := by
  induction files with
  | nil =>
    intro paths h
    cases h
    exact ⟨rfl, by simp⟩
  | cons file rest ih =>
    intro paths h
    rw [List.mapM_cons] at h
    cases hmeet : demand.meet tree parameter file with
    | error fault =>
      rw [hmeet] at h
      cases h
    | ok path =>
      rw [hmeet] at h
      cases hrest : rest.mapM (demand.meet tree parameter) with
      | error fault =>
        rw [hrest] at h
        cases h
      | ok others =>
        rw [hrest] at h
        cases h
        obtain ⟨rfl, hfinds⟩ := Demand.meet_ok hmeet
        obtain ⟨rfl, hothers⟩ := ih hrest
        exact ⟨rfl, fun hmust => List.forall_mem_cons.mpr ⟨hfinds hmust, hothers hmust⟩⟩

/-- Checking all options that were given makes the request. -/
theorem checkSettings_given {tree : Tree} {given : Given} {checked : Request}
    (h : checkSettings tree given { force := given.isOn .force, verbose := given.isOn .verbose }
      given.settingsInOrder = .ok checked) :
    { checked with paths := given.paths.map tree.absolute } = given.request tree ∧
      ∀ file, given.value? .config = some file → tree.Finds file := by
  have hentered := checkSettings_ok _ h
  have hvalues : ∀ setting, checked.get setting = (given.value? setting).map tree.absolute := by
    intro setting
    have hnone : ({ force := given.isOn .force, verbose := given.isOn .verbose } : Request).get setting =
        none := by cases setting <;> rfl
    rw [hentered.get, hnone]
    cases hvalue : given.value? setting with
    | none => simp
    | some value =>
      rw [if_pos (Given.mem_settingsInOrder hvalue)]
      rfl
  have houtput : checked.output = _ := hvalues .output
  have hrootDir : checked.rootDir = _ := hvalues .rootDir
  have hconfig : checked.config = _ := hvalues .config
  constructor
  · rw [Given.request, houtput, hrootDir, hconfig, hentered.force, hentered.verbose]
  · exact fun file hfile => hentered.finds .config (Given.mem_settingsInOrder hfile) file hfile rfl

/-- **The request that arguments make** is that of what was given, and there are files to read. -/
theorem Request.ofArguments_ok {tree : Tree} {args : List String} {request : Request}
    (h : ofArguments tree args = .ok request) :
    ∃ given, readArguments {} args = .ok given ∧ request = given.request tree ∧ given.Found tree := by
  rw [ofArguments] at h
  cases hread : readArguments {} args with
  | error fault =>
    rw [hread] at h
    cases h
  | ok given =>
    rw [hread] at h
    simp only [bind, Except.bind] at h
    split at h
    · cases h
    · rename_i checked hcheck
      split at h
      · cases h
      · split at h
        · cases h
        · rename_i paths hpaths
          cases h
          obtain ⟨rfl, hfound⟩ := meet_paths _ hpaths
          obtain ⟨hrequest, hconfig⟩ := checkSettings_given hcheck
          exact ⟨given, rfl, hrequest, hconfig, hfound rfl⟩

/-! ## Compiling the input files -/

/-- **The settings in effect**: those of the settings file, if there is one, under the root directory that is
given. -/
def Given.effective? (given : Given) (tree : Tree) : Option Settings :=
  let own : Option Settings :=
    match given.value? .config with
    | none => some {}
    | some file => (tree.json? (tree.placeOf file)).bind fun v => (Settings.ofJson v).toOption
  own.map (·.under ((given.value? .rootDir).map tree.absolute))

/-- **The text of a run**: what its input files compile to, in order. -/
def Given.text? (given : Given) (tree : Tree) : Option String := do
  let settings ← given.effective? tree
  let commandLine ← (reconstruct tree (given.request tree).params).toOption
  let roots ← given.paths.mapM fun file => tree.json? (tree.placeOf file)
  (compile settings (Files.Shelf.mk tree []) commandLine roots).toOption

/-- A step that only reads the tree **yields** a value if it succeeds with it, and fails if there is none. -/
def Yields {α : Type} (tree : Tree) (value : Option α) (result : EStateM.Result Abort Scene α) : Prop :=
  match value with
  | some a => ∃ log, result = .ok a ⟨tree, log⟩
  | none => ∃ abort log, result = .error abort ⟨tree, log⟩

/-- Acts one after the other yield what both come to, and leave the tree as it is. -/
theorem Yields.bind {α β : Type} {tree : Tree} {value : Option α} {f : α → Option β} {m : Act α}
    {k : α → Act β} {scene : Scene} (h : Yields tree value (m scene))
    (hk : ∀ a log, Yields tree (f a) (k a ⟨tree, log⟩)) : Yields tree (value.bind f) ((m >>= k) scene) := by
  cases value with
  | none =>
    obtain ⟨abort, log, hrun⟩ := h
    exact ⟨abort, log, bind_error _ hrun⟩
  | some a =>
    obtain ⟨log, hrun⟩ := h
    rw [bind_ok _ hrun]
    exact hk a log

theorem get_apply (scene : Scene) : (get : Act Scene) scene = .ok scene scene := rfl

theorem onRegistry_apply {α : Type} (registry : Registry Files.Shelf) (step : Session Files.Shelf α)
    (tree : Tree) (log : Array Event) :
    onRegistry registry step ⟨tree, log⟩ =
      match step registry with
      | .ok a registry' => .ok (a, registry') ⟨tree, registry'.workshop.log⟩
      | .error failure registry' => .error (.ofFailure failure) ⟨tree, registry'.workshop.log⟩ := by
  rw [onRegistry, bind_ok _ (get_apply _)]
  cases step registry <;> rfl

section

variable {tree : Tree} {given : Given}

/-- The settings of a run are those of the file, overridden by what stands on the command line. -/
theorem readSettings_yields (h : tree.Proper) (hfound : given.Found tree) (log : Array Event) :
    Yields tree (given.effective? tree) (readSettings (given.request tree) ⟨tree, log⟩) := by
  have hrequest : (given.request tree).config = (given.value? .config).map tree.absolute := rfl
  rw [readSettings, Given.effective?, hrequest]
  cases hconfig : given.value? .config with
  | none => exact ⟨log, rfl⟩
  | some file =>
    have hread := h.readJson_absolute (hfound.config file hconfig)
    dsimp only [Option.map_some]
    rw [← hread, bind_ok _ (get_apply _)]
    dsimp only
    cases tree.readJson (Files.Path.ofText (tree.absolute file)) with
    | error fault => exact ⟨_, log, rfl⟩
    | ok v =>
      dsimp only [Except.toOption, Option.bind_some]
      cases Settings.ofJson v with
      | error failure => exact ⟨_, log, rfl⟩
      | ok settings => exact ⟨log, rfl⟩

/-- **Queueing the input files**: each of them is read and queued in turn. -/
theorem queueInputs_cases (h : tree.Proper) (files : List String)
    (hfound : ∀ file ∈ files, tree.Finds file) :
    ∀ (registry : Registry Files.Shelf) (log : Array Event),
      match files.mapM fun file => tree.json? (tree.placeOf file) with
      | some roots => ∃ registry' log', Registry.addAll roots registry = .ok () registry' ∧
          queueInputs registry (files.map tree.absolute) ⟨tree, log⟩ = .ok registry' ⟨tree, log'⟩
      | none => ∃ abort log',
          queueInputs registry (files.map tree.absolute) ⟨tree, log⟩ = .error abort ⟨tree, log'⟩ := by
  induction files with
  | nil => exact fun registry log => ⟨registry, log, rfl, rfl⟩
  | cons file rest ih =>
    intro registry log
    obtain ⟨hfirst, hrest⟩ := List.forall_mem_cons.mp hfound
    have hread := h.readJson_absolute hfirst
    rw [List.mapM_cons, ← hread, List.map_cons, queueInputs, bind_ok _ (get_apply _)]
    dsimp only
    cases tree.readJson (Files.Path.ofText (tree.absolute file)) with
    | error fault => exact ⟨_, log, rfl⟩
    | ok schema =>
      obtain ⟨queued, hadd⟩ : ∃ queued, Registry.add schema .null registry = .ok () queued := ⟨_, rfl⟩
      have hone : onRegistry registry (Registry.add schema .null) ⟨tree, log⟩ =
          .ok ((), queued) ⟨tree, queued.workshop.log⟩ := by
        rw [onRegistry_apply, hadd]
      have ih := ih hrest queued queued.workshop.log
      dsimp only [Except.toOption]
      rw [bind_ok _ hone]
      cases hroots : rest.mapM fun file => tree.json? (tree.placeOf file) with
      | none =>
        rw [hroots] at ih
        exact ih
      | some roots =>
        rw [hroots] at ih
        obtain ⟨registry', log', hall, hqueue⟩ := ih
        exact ⟨registry', log', (bind_ok _ hadd).trans hall, hqueue⟩

/-- **The input files compile** to their text, and fail to do so if there is none. -/
theorem compileInputs_yields (h : tree.Proper) (hfound : given.Found tree) (settings : Settings)
    (log : Array Event) :
    Yields tree (do
        let commandLine ← (reconstruct tree (given.request tree).params).toOption
        let roots ← given.paths.mapM fun file => tree.json? (tree.placeOf file)
        (compile settings (Files.Shelf.mk tree []) commandLine roots).toOption)
      (compileInputs (given.request tree) settings ⟨tree, log⟩) := by
  rw [compileInputs, bind_ok _ (get_apply _)]
  dsimp only
  cases reconstruct tree (given.request tree).params with
  | error trouble => exact ⟨_, log, rfl⟩
  | ok commandLine =>
    have hqueue := queueInputs_cases h given.paths hfound.paths
      (Registry.new settings (Files.Shelf.mk tree []) commandLine) log
    have hpaths : (given.request tree).paths = given.paths.map tree.absolute := rfl
    dsimp only [Except.toOption, Option.bind_eq_bind, Option.bind_some]
    rw [hpaths]
    cases hroots : given.paths.mapM fun file => tree.json? (tree.placeOf file) with
    | none =>
      rw [hroots] at hqueue
      obtain ⟨abort, log', hqueue⟩ := hqueue
      exact ⟨abort, log', bind_error _ hqueue⟩
    | some roots =>
      rw [hroots] at hqueue
      obtain ⟨registry, log', hall, hqueue⟩ := hqueue
      rw [bind_ok _ hqueue]
      have hcompile : Registry.compileAll roots (.new settings (Files.Shelf.mk tree []) commandLine) =
          Registry.parse registry := bind_ok _ hall
      dsimp only [Option.bind_some]
      rw [compile, hcompile]
      cases hparse : Registry.parse registry with
      | ok text registry' =>
        have hlast : onRegistry registry Registry.parse ⟨tree, log'⟩ =
            .ok (text, registry') ⟨tree, registry'.workshop.log⟩ := by
          rw [onRegistry_apply, hparse]
        exact ⟨registry'.workshop.log, bind_ok _ hlast⟩
      | error failure registry' =>
        refine ⟨.ofFailure failure, registry'.workshop.log, ?_⟩
        exact bind_error _ (by rw [onRegistry_apply, hparse])

/-- **Up to the text of a run** the tree is only read. -/
theorem text_yields (h : tree.Proper) (hfound : given.Found tree) :
    Yields tree (given.text? tree)
      ((readSettings (given.request tree) >>= compileInputs (given.request tree)) { tree }) :=
  Yields.bind (readSettings_yields h hfound #[]) (compileInputs_yields h hfound)

/-! ## Writing the output -/

/-- The directories above a place that a value names. -/
theorem passes_parent (h : tree.Proper) {value : String} {place : Place}
    (hpasses : (tree.placeOf value).path.parent.Passes tree.home place) :
    place <+: (tree.placeOf value).dropLast := by
  obtain ⟨names, hnames, rfl⟩ := hpasses
  have hdots : ".." ∉ names := fun hmem =>
    h.dots_placeOf value (List.dropLast_subset _ (hnames.subset hmem))
  change Files.Path.resolve tree.home ⟨"/", names⟩ <+: _
  rw [Files.Place.resolve_path hdots "/" (by decide)]
  exact hnames

/-- The write of a run: with force over what may be there, and without it to a new file. -/
def outputStep (force : Bool) (path : Files.Path) (content : String) : Output.OnTree Unit :=
  if force then Output.write path content true else Output.writeNew path content true

theorem writeOutput_apply (h : tree.Proper) (request : Request) (value content : String)
    (log : Array Event) :
    writeOutput request (tree.absolute value) content ⟨tree, log⟩ =
      match outputStep request.force (tree.placeOf value).path content tree with
      | .ok _ tree' => .ok () ⟨tree', log ++ #[Event.replaced (tree.placeOf value).path.toText,
          .wrote request.paths.length (tree.absolute value)]⟩
      | .error failure tree' => .error (.ofWriteFailure failure) ⟨tree', log⟩ := by
  rw [writeOutput, bind_ok _ (get_apply _), h.ofText_absolute]
  change (match outputStep request.force (tree.placeOf value).path content tree with
    | .ok _ tree' => _
    | .error failure tree' => _ : Act Unit) _ = _
  cases outputStep request.force (tree.placeOf value).path content tree <;> rfl

/-- **Writing the output**: it fails, and the tree has grown by directories above the file at most; or the
tree has grown and then the file has been put in its place. Without force it was not there before. -/
theorem outputStep_cases (h : tree.Proper) (force : Bool) (value content : String) :
    (∃ failure grown, tree.Grown (· <+: (tree.placeOf value).dropLast) grown ∧
      outputStep force (tree.placeOf value).path content tree = .error failure grown) ∨
    ∃ grown, tree.Grown (· <+: (tree.placeOf value).dropLast) grown ∧ tree.placeOf value ≠ [] ∧
      (force = false → tree.entry? (tree.placeOf value) = none) ∧
      outputStep force (tree.placeOf value).path content tree =
        .ok () (grown.put (tree.placeOf value) (.file content.toUTF8.toList)) := by
  have hwrite := Output.write_cases (tree.placeOf value).path content true tree
  rw [h.resolve_placeOf] at hwrite
  cases force with
  | true =>
    rcases hwrite with ⟨failure, grown, hfail, hgrown⟩ | ⟨grown, hgrown, -, hne, -, hok⟩
    · exact Or.inl ⟨failure, grown, hgrown.mono fun _ => passes_parent h, hfail⟩
    · exact Or.inr ⟨grown, hgrown.mono fun _ => passes_parent h, hne, by simp, hok⟩
  | false =>
    rcases Output.writeNew_cases (tree.placeOf value).path content true tree with
      ⟨failure, hfail⟩ | ⟨hexists, hsame⟩
    · exact Or.inl ⟨failure, tree, .refl tree, hfail⟩
    · rcases hwrite with ⟨failure, grown, hfail, hgrown⟩ | ⟨grown, hgrown, hnull, hne, -, hok⟩
      · exact Or.inl ⟨failure, grown, hgrown.mono fun _ => passes_parent h, hsame.trans hfail⟩
      · -- the tree that was asked is the one before any directory was made
        have hnone := h.closed.entry_of_exists rfl (h.dots_placeOf value) hnull hexists
        exact Or.inr ⟨grown, hgrown.mono fun _ => passes_parent h, hne, fun _ => hnone, hsame.trans hok⟩

end

/-! ## Runs -/

/-- **A text is printed whole** on a terminal, and elsewhere if it would not steer one. -/
theorem printed_eq_self_iff (terminal : Bool) (text : String) :
    printed terminal (text ++ "\n") = text ++ "\n" ↔ terminal = true ∨ ¬ Text.Steers text.toList := by
  cases terminal with
  | true => simp [printed]
  | false =>
    have hline : (text ++ "\n").toList = text.toList ++ ['\n'] := String.toList_append ..
    simp only [printed, Bool.false_eq_true, if_false, false_or]
    rw [Text.plain_eq_self_iff, hline, Text.steers_append_newline]

section

variable {console : Console} {tree : Tree} {args : List String} {request : Request} {scene : Scene}

/-- Arguments that are refused leave the tree as it was. -/
theorem run_refused {fault : UsageFault} (h : Request.ofArguments tree args = .error fault) :
    (run console tree args).exitCode ≠ 0 ∧ (run console tree args).tree = tree := by
  rw [run, h]
  cases fault <;> simp

theorem run_failed {abort : Abort} (h : Request.ofArguments tree args = .ok request)
    (hperform : perform request { tree } = .error abort scene) :
    (run console tree args).exitCode ≠ 0 ∧ (run console tree args).tree = scene.tree := by
  rw [run, h]
  cases abort <;> simp [hperform]

/-- A run that is done prints its text, as far as the console lets it through. -/
theorem run_done {text : String} (h : Request.ofArguments tree args = .ok request)
    (hperform : perform request { tree } = .ok text scene) :
    (run console tree args).exitCode = 0 ∧ (run console tree args).stdout = printed console.stdout text ∧
      (run console tree args).tree = scene.tree := by
  rw [run, h]
  simp [hperform]

/-- What a run does with its text. -/
def deliver (request : Request) (text : String) : Act String :=
  match request.output with
  | none => return text ++ "\n"
  | some file => do
    writeOutput request file (text ++ "\n")
    return ""

theorem perform_eq (request : Request) :
    perform request = (readSettings request >>= compileInputs request) >>= deliver request :=
  (bind_assoc ..).symm

variable {given : Given}

/-- A run that has a text goes on to deliver it. -/
theorem perform_text (h : tree.Proper) (hfound : given.Found tree) {text : String}
    (htext : given.text? tree = some text) : ∃ log, perform (given.request tree) { tree } =
      deliver (given.request tree) text ⟨tree, log⟩ := by
  have hyields := text_yields h hfound
  rw [htext] at hyields
  obtain ⟨log, hrun⟩ := hyields
  exact ⟨log, by rw [perform_eq, bind_ok _ hrun]⟩

variable (hargs : Request.ofArguments tree args = .ok (given.request tree))
include hargs

/-- A run that has no text fails and changes nothing. -/
theorem run_textless (h : tree.Proper) (hfound : given.Found tree) (htext : given.text? tree = none) :
    (run console tree args).exitCode ≠ 0 ∧ (run console tree args).tree = tree := by
  have hyields := text_yields h hfound
  rw [htext] at hyields
  obtain ⟨abort, log, hrun⟩ := hyields
  have hperform : perform (given.request tree) { tree } = .error abort ⟨tree, log⟩ := by
    rw [perform_eq]
    exact bind_error _ hrun
  exact run_failed hargs hperform

/-- Without an output file a run prints its text. -/
theorem run_prints (h : tree.Proper) (hfound : given.Found tree) {text : String}
    (htext : given.text? tree = some text) (houtput : given.value? .output = none) :
    (run console tree args).exitCode = 0 ∧
      (run console tree args).stdout = printed console.stdout (text ++ "\n") ∧
      (run console tree args).tree = tree := by
  obtain ⟨log, hperform⟩ := perform_text h hfound htext
  have hrequest : (given.request tree).output = none := by rw [Given.request, houtput]; rfl
  rw [deliver, hrequest] at hperform
  exact run_done hargs hperform

/-- With an output file a run writes its text there, or fails to do so. -/
theorem run_writes (h : tree.Proper) (hfound : given.Found tree) {text file : String}
    (htext : given.text? tree = some text) (houtput : given.value? .output = some file) :
    ((run console tree args).exitCode ≠ 0 ∧
      tree.Grown (· <+: (tree.placeOf file).dropLast) (run console tree args).tree) ∨
    (run console tree args).exitCode = 0 ∧ (run console tree args).stdout = "" ∧
      ∃ grown, tree.Grown (· <+: (tree.placeOf file).dropLast) grown ∧ tree.placeOf file ≠ [] ∧
        (given.isOn .force = false → tree.entry? (tree.placeOf file) = none) ∧
        (run console tree args).tree = grown.put (tree.placeOf file) (.file (text ++ "\n").toUTF8.toList) := by
  obtain ⟨log, hperform⟩ := perform_text h hfound htext
  have hrequest : (given.request tree).output = some (tree.absolute file) := by
    rw [Given.request, houtput]
    rfl
  rw [deliver, hrequest] at hperform
  have happly := writeOutput_apply h (given.request tree) file (text ++ "\n") log
  rcases outputStep_cases h (given.request tree).force file (text ++ "\n") with
    ⟨failure, grown, hgrown, hstep⟩ | ⟨grown, hgrown, hne, hnew, hstep⟩
  · rw [hstep] at happly
    obtain ⟨hexit, htree⟩ := run_failed hargs (hperform.trans (bind_error _ happly))
    exact Or.inl ⟨hexit, by rw [htree]; exact hgrown⟩
  · rw [hstep] at happly
    obtain ⟨hexit, hstdout, htree⟩ := run_done hargs (hperform.trans (bind_ok _ happly))
    have hnothing : printed console.stdout "" = "" := by cases console.stdout <;> rfl
    exact Or.inr ⟨hexit, hstdout.trans hnothing, grown, hgrown, hne, hnew, htree⟩

end

/-- The directories that a run may make: those above its output file. -/
def MakesWay (tree : Tree) (args : List String) (place : Place) : Prop :=
  ∃ given file, readArguments {} args = .ok given ∧ given.value? .output = some file ∧
    place <+: (tree.placeOf file).dropLast

/-- **What a run does to files.** If it fails, every file is as it was, and at most directories above the
output file have been made. If it succeeds, its text is what the input files compile to. Without an output
file, nothing changes and the text is printed, in plain if there is no terminal: so it is printed whole just
on a terminal, or if it would not steer one. With an output file, the text is the content of that file, which
was not there before unless force is used, and all else is as it was but for directories above the file. -/
theorem run_effects (console : Console) {tree : Tree} (h : tree.Proper) (args : List String) :
    ((run console tree args).exitCode ≠ 0 →
      tree.Grown (MakesWay tree args) (run console tree args).tree) ∧
    ((run console tree args).exitCode = 0 → ∃ given text, readArguments {} args = .ok given ∧
      given.text? tree = some text ∧
      match given.value? .output with
      | none => (run console tree args).tree = tree ∧
          (run console tree args).stdout = printed console.stdout (text ++ "\n") ∧
          ((run console tree args).stdout = text ++ "\n" ↔
            console.stdout = true ∨ ¬ Text.Steers text.toList)
      | some file => (run console tree args).stdout = "" ∧
          Tree.entry? (run console tree args).tree (tree.placeOf file) =
            some (.file (text ++ "\n").toUTF8.toList) ∧
          (given.isOn .force = false → tree.entry? (tree.placeOf file) = none) ∧
          ∀ place, place ≠ tree.placeOf file →
            Tree.entry? (run console tree args).tree place = tree.entry? place ∨
              tree.entry? place = none ∧ Tree.entry? (run console tree args).tree place = some .directory ∧
                place <+: (tree.placeOf file).dropLast) := by
  cases hargs : Request.ofArguments tree args with
  | error fault =>
    obtain ⟨hexit, htree⟩ := run_refused hargs
    refine ⟨fun _ => ?_, fun hzero => absurd hzero hexit⟩
    rw [htree]
    exact .refl tree
  | ok request =>
    obtain ⟨given, hgiven, rfl, hfound⟩ := Request.ofArguments_ok hargs
    cases htext : given.text? tree with
    | none =>
      obtain ⟨hexit, htree⟩ := run_textless hargs h hfound htext
      refine ⟨fun _ => ?_, fun hzero => absurd hzero hexit⟩
      rw [htree]
      exact .refl tree
    | some text =>
      cases houtput : given.value? .output with
      | none =>
        obtain ⟨hexit, hstdout, htree⟩ := run_prints hargs h hfound htext houtput
        refine ⟨fun hne => absurd hexit hne, fun _ => ⟨given, text, hgiven, htext, ?_⟩⟩
        rw [houtput]
        exact ⟨htree, hstdout, hstdout ▸ printed_eq_self_iff console.stdout text⟩
      | some file =>
        rcases run_writes hargs h hfound htext houtput with
          ⟨hexit, hgrown⟩ | ⟨hexit, hstdout, grown, hgrown, hne, hnew, htree⟩
        · refine ⟨fun _ => ?_, fun hzero => absurd hzero hexit⟩
          exact hgrown.mono fun place hplace => ⟨given, file, hgiven, houtput, hplace⟩
        · refine ⟨fun hfail => absurd hexit hfail, fun _ => ⟨given, text, hgiven, htext, ?_⟩⟩
          rw [houtput, htree]
          refine ⟨hstdout, ?_, hnew, fun place hplace => ?_⟩
          · rw [Files.Tree.entry_put hne, if_pos rfl]
          · rw [Files.Tree.entry_put hne, if_neg hplace]
            exact hgrown.entry place

/-- A working directory with an input file, settings that indent by a steering sequence, and an old output
file. -/
def steeringIndent : Tree where
  home := ["home", "work"]
  entries := [(["home"], .directory), (["home", "work"], .directory),
    (["home", "work", "a.json"],
      .file "\x7b\"title\":\"A\",\"properties\":\x7b\"b\":\x7b\"type\":\"string\"\x7d\x7d\x7d".toUTF8.toList),
    (["home", "work", "c.json"], .file "\x7b\"indent\":\"\\u001b[0m\"\x7d".toUTF8.toList),
    (["home", "work", "old.ts"], .file [])]

theorem steeringIndent_proper : steeringIndent.Proper where
  closed := Files.Tree.closed_of_entries (by decide)
  home := by unfold Files.Place.Plain; decide
  dots := by decide

/-- An old file is not overwritten. A new one is written whole, in a directory that is made for it. Without an
output file, the steering sequence is printed on a terminal, and left out elsewhere. -/
theorem run_effects_steeringIndent : steeringIndent.Proper ∧
    (run {} steeringIndent ["a.json", "-o", "old.ts"]).exitCode ≠ 0 ∧
    steeringIndent.Grown (MakesWay steeringIndent ["a.json", "-o", "old.ts"])
      (run {} steeringIndent ["a.json", "-o", "old.ts"]).tree ∧
    (run {} steeringIndent ["a.json", "-c", "c.json", "-o", "out/d.ts"]).exitCode = 0 ∧
    Tree.entry? (run {} steeringIndent ["a.json", "-c", "c.json", "-o", "out/d.ts"]).tree
      ["home", "work", "out", "d.ts"] =
        some (.file "interface A \x7b\n\x1b[0mb?: string;\n\x7d\n".toUTF8.toList) ∧
    (run {} steeringIndent ["a.json", "-c", "c.json"]).stdout = "interface A \x7b\nb?: string;\n\x7d\n" ∧
    (run ⟨true, true⟩ steeringIndent ["a.json", "-c", "c.json"]).stdout =
      "interface A \x7b\n\x1b[0mb?: string;\n\x7d\n" := by
  have hrefused : (run {} steeringIndent ["a.json", "-o", "old.ts"]).exitCode ≠ 0 := by decide +kernel
  have hdone : (run {} steeringIndent ["a.json", "-c", "c.json", "-o", "out/d.ts"]).exitCode = 0 := by
    decide +kernel
  refine ⟨steeringIndent_proper, hrefused, (run_effects {} steeringIndent_proper _).1 hrefused, hdone, ?_,
    by decide +kernel, by decide +kernel⟩
  obtain ⟨given, text, hgiven, htext, hcase⟩ := (run_effects {} steeringIndent_proper _).2 hdone
  obtain rfl : given = ⟨[(.config, "c.json"), (.output, "out/d.ts")], [], ["a.json"]⟩ := by
    have hread : readArguments {} ["a.json", "-c", "c.json", "-o", "out/d.ts"] =
        .ok ⟨[(.config, "c.json"), (.output, "out/d.ts")], [], ["a.json"]⟩ := by cbv
    exact Except.ok.inj (hgiven.symm.trans hread)
  obtain rfl : text = "interface A \x7b\n\x1b[0mb?: string;\n\x7d" := by
    have hsome : Given.text? ⟨[(.config, "c.json"), (.output, "out/d.ts")], [], ["a.json"]⟩ steeringIndent =
        some "interface A \x7b\n\x1b[0mb?: string;\n\x7d" := by decide +kernel
    exact Option.some.inj (htext.symm.trans hsome)
  exact hcase.2.1

end TypeScribe.CommandLine
