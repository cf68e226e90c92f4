import TypeScribe.Proofs.Headings
import TypeScribe.Proofs.Runs

/-!
# Switching the comment on

Two runs whose settings differ by the comment alone do the same up to the last step. They build the same graph
and write the same pages, and the text of the one is that of the other with the comment in front
(`compile_commented`).

Whether a run can write its output then depends on the check alone, since all else that may go wrong has nothing
to do with the content (`run_output_iff`). So a run that succeeds goes on to succeed with the comment just if the
check accepts both together, and this is the case whatever it writes just if the command line is harmless
(`headerComment_accepted_iff`).
-/

namespace TypeScribe

/-! ## Compiling with the comment -/

/-- **The comment is switched on**, and nothing else that a compilation asks for is changed. -/
structure Settings.SwitchedOn (settings settings' : Settings) : Prop where
  rootDir : settings'.rootDir = settings.rootDir
  indent : settings'.indent = settings.indent
  off : settings.comment.isVacant = true
  on : settings'.comment.isVacant = false

/-- Whether settings are the usual ones, but with the comment. -/
def Settings.isCommented (settings : Settings) : Bool :=
  match settings.rootDir, settings.indent with
  | .str dir, .str margin => dir == "" && margin == "  " && !settings.comment.isVacant
  | _, _ => false

/-- The usual settings with a comment are the default ones, with the comment switched on. -/
theorem Settings.switchedOn_of_isCommented {settings : Settings} (h : settings.isCommented = true) :
    Settings.SwitchedOn {} settings := by
  rw [isCommented] at h
  split at h
  · rename_i dir margin hdir hmargin
    simp only [Bool.and_eq_true, beq_iff_eq, Bool.not_eq_true'] at h
    obtain ⟨⟨rfl, rfl⟩, hon⟩ := h
    exact ⟨hdir, hmargin, rfl, hon⟩
  · cases h

/-- Without the comment there is only what follows it. -/
theorem Draft.render_commented {d : Draft} {g : Graph} {settings settings' : Settings} {text : String}
    (hswitch : settings.SwitchedOn settings') (line line' : String) (htext : text ≠ "")
    (h : d.render g settings line = .ok text) :
    d.render g settings' line' = .ok (Output.heading line' ++ text) := by
  have hrender : ∀ (s : Settings) (l : String), d.render g s l = (d.blocks (d.kept g)).bind fun blocks =>
      .ok ("\n\n".intercalate ((if s.comment.isVacant then [] else [Layout.headerComment l]) ++ blocks)) :=
    fun _ _ => rfl
  rw [hrender, hswitch.off] at h
  rw [hrender, hswitch.on]
  cases hblocks : d.blocks (d.kept g) with
  | error failure =>
    rw [hblocks] at h
    cases h
  | ok blocks =>
    rw [hblocks] at h
    cases h
    cases blocks with
    | nil => exact absurd rfl htext
    | cons block more => exact congrArg Except.ok (String.intercalate_cons_cons ..)

section

variable {σ : Type} [Source σ]

/-- Resolving reads one setting only, the root directory. -/
theorem Build.resolve_congr {settings settings' : Settings} (h : settings'.rootDir = settings.rootDir)
    (budget : Nat) :
    (Build.resolve settings' budget : String → Build σ Link) = Build.resolve settings budget := by
  have hkey : (Build.keyOf settings' : String → Build σ String) = Build.keyOf settings := by
    funext ref
    rw [Build.keyOf, Build.keyOf, Settings.locate, Settings.locate, h]
  induction budget with
  | zero =>
    funext ref
    rw [Build.resolve, Build.resolve, hkey]
  | succ budget ih =>
    funext ref
    rw [Build.resolve, Build.resolve, hkey, ih]

/-- **Building asks for the root directory** and for no other setting. -/
theorem Build.root_congr {settings settings' : Settings} (h : settings'.rootDir = settings.rootDir) :
    (Build.root settings' : Json → _ → _ → _ → Build σ NodeId) = Build.root settings := by
  funext schema name path keys
  simp only [Build.root, Build.resolve_congr h]

namespace Registry

/-- A registry with other settings and another command line. -/
def restyled (settings : Settings) (commandLine : String) (r : Registry σ) : Registry σ :=
  { r with settings, commandLine }

omit [Source σ] in
/-- Queueing does not look at the settings or at the command line. -/
theorem addAll_restyled (settings : Settings) (line : String) (roots : List Json) : ∀ r : Registry σ,
    addAll roots (r.restyled settings line) = mapState (restyled settings line) (addAll roots r) := by
  induction roots with
  | nil => exact fun _ => rfl
  | cons schema rest ih =>
    intro r
    exact ih ({ r with pending := r.pending ++ [schema] }.report [.queued (r.pending ++ [schema]).length])

/-- **Building roots** goes the same way as long as the root directory is the same. -/
theorem buildRoots_restyled (settings : Settings) (line : String) (roots : List Json) :
    ∀ r : Registry σ, settings.rootDir = r.settings.rootDir →
      buildRoots roots (r.restyled settings line) = mapState (restyled settings line) (buildRoots roots r) := by
  induction roots with
  | nil => exact fun _ _ => rfl
  | cons schema rest ih =>
    intro r hroot
    have hsettings : (r.restyled settings line).settings.rootDir = r.settings.rootDir := hroot
    have hsame : Build.root (r.restyled settings line).settings schema none "#" []
        (r.restyled settings line).workshop = Build.root r.settings schema none "#" [] r.workshop := by
      rw [Build.root_congr hsettings]
      rfl
    rw [buildRoots_apply, buildRoots_apply, hsame]
    cases Build.root r.settings schema none "#" [] r.workshop with
    | error failure w => rfl
    | ok id w =>
      dsimp only
      cases w.graph.node? id with
      | none => rfl
      | some node =>
        dsimp only
        split
        · rfl
        · have hrest : buildRoots rest { r.restyled settings line with pending := rest, workshop := w } = _ :=
            ih { r with pending := rest, workshop := w } hroot
          rw [bind_apply, bind_apply, hrest]
          cases buildRoots rest { r with pending := rest, workshop := w } <;> rfl

/-- **Compiling the queue with the comment**: what has been built serves both, and so do the pages. -/
theorem parse_commented {r r' : Registry σ} {settings' : Settings} {text : String} (hf : r.Fresh)
    (hswitch : r.settings.SwitchedOn settings') (line' : String) (htext : text ≠ "")
    (h : parse r = .ok text r') :
    ∃ q', parse (r.restyled settings' line') = .ok (Output.heading line' ++ text) q' := by
  obtain ⟨ids, r₁, hbuild, hbuilt, hrun, hrender, -⟩ := parse_steps hf h
  have hbuild' := buildRoots_restyled settings' line' r.pending r hswitch.rootDir
  rw [hbuild] at hbuild'
  rw [hbuilt.settings] at hrun hrender
  rw [← hswitch.indent] at hrun
  exact parse_of (r := r.restyled settings' line') ⟨hf.graph, hf.draft⟩ hbuild' hrun
    (Draft.render_commented hswitch _ line' htext hrender)

end Registry

/-- **Compiling with the comment**: the text is the same as without it, behind the comment. -/
theorem compile_commented {settings settings' : Settings} {source : σ} {line text : String} {roots : List Json}
    (hswitch : settings.SwitchedOn settings') (line' : String) (htext : text ≠ "")
    (h : compile settings source line roots = .ok text) :
    compile settings' source line' roots = .ok (Output.heading line' ++ text) := by
  obtain ⟨r', hall⟩ := compile_ok_iff.mp h
  obtain ⟨r, hadd, hf, hsettings⟩ : ∃ r, Registry.addAll roots (.new settings source line) = .ok () r ∧
      r.Fresh ∧ r.settings = settings := by
    obtain ⟨log, hadd⟩ := Registry.addAll_apply roots (.new settings source line)
    exact ⟨_, hadd, ⟨rfl, rfl⟩, rfl⟩
  have hadd' := Registry.addAll_restyled settings' line' roots (.new settings source line)
  rw [hadd] at hadd'
  rw [Registry.compileAll, bind_ok _ hadd] at hall
  obtain ⟨q', hparse⟩ := Registry.parse_commented hf (hsettings ▸ hswitch) line' htext hall
  exact compile_ok_iff.mpr ⟨q', (bind_ok _ hadd').trans hparse⟩

end

namespace Output

open Files (Tree Path)

variable {path : Path} {tree : Tree}

/-! ## What a write depends on -/

/-- **A path can be written to**, as far as the tree is concerned. -/
def Writable (path : Path) (tree : Tree) : Prop :=
  ∃ grown, ensureDirectories path.parent tree = .ok () grown ∧ prepare path grown = .ok () grown ∧
    ∃ tree', replace path [] grown = .ok () tree'

/-- A target is replaced by any content, or by none. -/
theorem replace_any (octets octets' : List UInt8) (h : ∃ tree', replace path octets tree = .ok () tree') :
    ∃ tree', replace path octets' tree = .ok () tree' := by
  obtain ⟨tree', h⟩ := h
  rw [replace_apply] at h ⊢
  split at h
  · cases h
  · split at h
    · cases h
    · rename_i hname
      rw [if_neg hname]
      split at h
      · cases h
      · exact ⟨_, rfl⟩

/-- **A write that is checked** succeeds if the check does and the path can be written to. -/
theorem write_ok_iff (content : String) : (∃ tree', write path content true tree = .ok () tree') ↔
    check content = .ok () ∧ Writable path tree := by
  constructor
  · rintro ⟨tree', h⟩
    obtain ⟨_, grown, hensure, hrest⟩ := ok_of_bind h
    rcases prepare_cases path grown with ⟨failure, hprepare⟩ | ⟨-, -, hprepare⟩
    · rw [bind_error _ hprepare] at hrest
      cases hrest
    · rw [bind_ok _ hprepare] at hrest
      cases hcheck : check content with
      | error fault =>
        simp only [hcheck] at hrest
        cases hrest
      | ok u =>
        simp only [hcheck] at hrest
        exact ⟨rfl, grown, hensure, hprepare, replace_any _ [] ⟨tree', hrest⟩⟩
  · rintro ⟨hcheck, grown, hensure, hprepare, hreplace⟩
    obtain ⟨tree', h⟩ := replace_any [] content.toUTF8.toList hreplace
    refine ⟨tree', ?_⟩
    rw [write, bind_ok _ hensure, bind_ok _ hprepare, hcheck]
    exact h

end Output

namespace CommandLine

open Files (Tree Path)

variable {tree : Tree} {given given' : Given}

/-! ## Command lines -/

theorem exists_mapM_iff {ε α β : Type} {f : α → Except ε β} {as : List α} :
    (∃ bs, as.mapM f = .ok bs) ↔ ∀ a ∈ as, ∃ b, f a = .ok b := by
  induction as with
  | nil => exact ⟨fun _ a ha => absurd ha List.not_mem_nil, fun _ => ⟨[], rfl⟩⟩
  | cons a as ih =>
    rw [List.forall_mem_cons, ← ih, List.mapM_cons]
    cases f a with
    | error e => simp [bind, Except.bind]
    | ok b => cases as.mapM f <;> simp [bind, Except.bind, pure, Except.pure]

/-- There is a command line if every parameter can be shown. -/
theorem exists_reconstruct_iff {params : Entries Json} : (∃ line, reconstruct tree params = .ok line) ↔
    ∀ parameter ∈ parameters, ∃ texts, parameterTexts tree params parameter = .ok texts := by
  rw [← exists_mapM_iff, reconstruct]
  cases parameters.mapM (parameterTexts tree params) <;> simp [bind, Except.bind, pure, Except.pure]

/-- What leads to something can be shown. -/
theorem exists_formatValue (h : tree.Proper) {file : String} (hfinds : tree.Finds file) :
    ∃ text, formatValue tree (.str (tree.absolute file)) = .ok text := by
  obtain ⟨entry, hstat⟩ := hfinds
  have hexists : tree.exists? (Path.ofText (tree.absolute file)) = .ok true := by
    rw [h.ofText_absolute, Tree.exists?, hstat]
  exact ⟨(Path.ofText (tree.absolute file)).name, by rw [formatValue, hexists]; rfl⟩

/-- **There is a command line with another settings file**, if that leads to something. -/
theorem exists_reconstruct (h : tree.Proper) (hfound : given'.Found tree)
    (houtput : given'.value? .output = given.value? .output)
    (hrootDir : given'.value? .rootDir = given.value? .rootDir) (hpaths : given'.paths = given.paths)
    (hline : ∃ line, reconstruct tree (given.request tree).params = .ok line) :
    ∃ line, reconstruct tree (given'.request tree).params = .ok line := by
  rw [exists_reconstruct_iff] at hline ⊢
  have hsame : ∀ parameter ∈ parameters,
      (given'.request tree).params.get? parameter.1 = (given.request tree).params.get? parameter.1 →
        ∃ texts, parameterTexts tree (given'.request tree).params parameter = .ok texts := by
    intro parameter hmem hget
    rw [parameterTexts, hget]
    exact hline parameter hmem
  have hswitch : ∀ name flag on, (given'.request tree).params.get? name = some (.bool on) →
      ∃ texts, parameterTexts tree (given'.request tree).params (name, .switch flag) = .ok texts := by
    intro name flag on hget
    rw [parameterTexts, hget]
    cases on <;> exact ⟨_, rfl⟩
  intro parameter hmem
  have hcase := hmem
  simp only [parameters, List.mem_cons, List.not_mem_nil, or_false] at hcase
  rcases hcase with rfl | rfl | rfl | rfl | rfl | rfl
  · exact hsame _ hmem (congrArg some (by rw [Given.request, houtput, Given.request]))
  · exact hsame _ hmem (congrArg some (by rw [Given.request, hrootDir, Given.request]))
  · have hget : (given'.request tree).params.get? "config" =
        some ((((given'.value? .config).map tree.absolute).map Json.str).getD .null) := rfl
    rw [parameterTexts, hget]
    cases hconfig : given'.value? .config with
    | none => exact ⟨_, rfl⟩
    | some file =>
      obtain ⟨text, htext⟩ := exists_formatValue h (hfound.config file hconfig)
      dsimp only [Option.map_some, Option.getD_some]
      split
      · exact ⟨_, rfl⟩
      · exact ⟨([], ["--config", text]), by rw [htext]; rfl⟩
  · exact hswitch _ _ (given'.isOn .force) rfl
  · exact hswitch _ _ (given'.isOn .verbose) rfl
  · exact hsame _ hmem (congrArg some (by rw [Given.request, hpaths, Given.request]))

/-! ## Runs with an output file -/

/-- **An output file can be written**, as far as the tree is concerned: without force nothing may be there. -/
def Accepts (tree : Tree) (force : Bool) (path : Path) : Prop :=
  Output.Writable path tree ∧ (force = false → tree.exists? path = .ok false)

/-- The output step succeeds on a text that passes the check, if the file system accepts the file.
-/
theorem outputStep_ok_iff (force : Bool) (path : Path) (content : String) :
    (∃ tree', outputStep force path content tree = .ok () tree') ↔
      Output.check content = .ok () ∧ Accepts tree force path := by
  rw [Accepts, ← and_assoc, ← Output.write_ok_iff]
  cases force with
  | true => simp [outputStep]
  | false =>
    rw [outputStep, if_neg (by decide), Output.writeNew_apply]
    cases tree.exists? path with
    | error trouble => exact iff_of_false (by rintro ⟨_, h⟩; cases h) (by simp)
    | ok found =>
      cases found with
      | true => exact iff_of_false (by rintro ⟨_, h⟩; cases h) (by simp)
      | false => exact (and_iff_left fun _ => rfl).symm

/-- **A run with an output file** succeeds if the check accepts its text and the file can be written. -/
theorem run_output_iff (console : Console) {args : List String} (h : tree.Proper) (hfound : given.Found tree)
    (hargs : Request.ofArguments tree args = .ok (given.request tree)) {text file : String}
    (htext : given.text? tree = some text) (houtput : given.value? .output = some file) :
    (run console tree args).exitCode = 0 ↔
      Output.check (text ++ "\n") = .ok () ∧ Accepts tree (given.isOn .force) (tree.placeOf file).path := by
  obtain ⟨log, hperform⟩ := perform_text h hfound htext
  have hrequest : (given.request tree).output = some (tree.absolute file) := by
    rw [Given.request, houtput]
    rfl
  rw [deliver, hrequest] at hperform
  have happly := writeOutput_apply h (given.request tree) file (text ++ "\n") log
  have hforce : (given.request tree).force = given.isOn .force := rfl
  rw [← outputStep_ok_iff]
  cases hstep : outputStep (given.isOn .force) (tree.placeOf file).path (text ++ "\n") tree with
  | ok u tree' =>
    rw [hforce, hstep] at happly
    obtain ⟨hexit, -, -⟩ := run_done hargs (hperform.trans (bind_ok _ happly))
    exact iff_of_true hexit ⟨tree', rfl⟩
  | error failure tree' =>
    rw [hforce, hstep] at happly
    obtain ⟨hexit, -⟩ := run_failed hargs (hperform.trans (bind_error _ happly))
    refine iff_of_false hexit ?_
    rintro ⟨tree'', hsame⟩
    cases hsame

/-- **The comment is switched on** from one run to another: the arguments of the other one are accepted as well,
and differ by the settings file at most, and by how much is told. -/
structure SwitchedOn (tree : Tree) (args args' : List String) (given given' : Given) (file : String) :
    Prop where
  read : readArguments {} args = .ok given
  read' : readArguments {} args' = .ok given'
  accepted : (Request.ofArguments tree args').isOk = true
  output : given.value? .output = some file
  output' : given'.value? .output = some file
  rootDir : given'.value? .rootDir = given.value? .rootDir
  force : given'.isOn .force = given.isOn .force
  paths : given'.paths = given.paths
  settings : ∃ off on, given.effective? tree = some off ∧ given'.effective? tree = some on ∧ off.SwitchedOn on

/-- Switching the comment on keeps the text of a run, and puts the comment in front of it. -/
theorem SwitchedOn.text {args args' : List String} {file text : String} (h : tree.Proper)
    (hfound' : given'.Found tree) (hswitch : SwitchedOn tree args args' given given' file)
    (htext : given.text? tree = some text) (hempty : text ≠ "") :
    ∃ line, reconstruct tree (given'.request tree).params = .ok line ∧
      given'.text? tree = some (Output.heading line ++ text) := by
  obtain ⟨off, on, hoff, hon, hsettings⟩ := hswitch.settings
  rw [Given.text?, hoff] at htext
  cases hline : reconstruct tree (given.request tree).params with
  | error trouble =>
    rw [hline] at htext
    cases htext
  | ok line =>
    obtain ⟨line', hline'⟩ := exists_reconstruct h hfound' (hswitch.output'.trans hswitch.output.symm)
      hswitch.rootDir hswitch.paths ⟨line, hline⟩
    refine ⟨line', hline', ?_⟩
    rw [hline] at htext
    rw [Given.text?, hon, hline', hswitch.paths]
    dsimp only [Except.toOption, Option.bind_eq_bind, Option.bind_some] at htext ⊢
    cases hroots : given.paths.mapM fun file => tree.json? (tree.placeOf file) with
    | none =>
      rw [hroots] at htext
      cases htext
    | some roots =>
      rw [hroots] at htext
      dsimp only [Option.bind_some] at htext ⊢
      cases hcompile : compile off (Files.Shelf.mk tree []) line roots with
      | error failure =>
        rw [hcompile] at htext
        cases htext
      | ok found =>
        rw [hcompile] at htext
        cases htext
        rw [compile_commented hsettings line' hempty hcompile]

/-- **Switching the comment on** after a run that succeeds: the next one succeeds if the check accepts the text
with the comment in front. -/
theorem SwitchedOn.run_iff {console : Console} (console' : Console) {args args' : List String}
    {file : String} (h : tree.Proper) (hswitch : SwitchedOn tree args args' given given' file)
    (hdone : (run console tree args).exitCode = 0) :
    ∃ line text, reconstruct tree (given'.request tree).params = .ok line ∧ given.text? tree = some text ∧
      Output.check (text ++ "\n") = .ok () ∧
      ((run console' tree args').exitCode = 0 ↔
        Output.check (Output.heading line ++ (text ++ "\n")) = .ok ()) := by
  cases hargs : Request.ofArguments tree args with
  | error fault => exact absurd hdone (run_refused hargs).1
  | ok request =>
    obtain ⟨found, hread, rfl, hfound⟩ := Request.ofArguments_ok hargs
    obtain rfl := Except.ok.inj (hread.symm.trans hswitch.read)
    obtain ⟨request', hargs'⟩ : ∃ request', Request.ofArguments tree args' = .ok request' := by
      have haccepted := hswitch.accepted
      cases hargs' : Request.ofArguments tree args' with
      | error fault =>
        rw [hargs'] at haccepted
        cases haccepted
      | ok request' => exact ⟨request', rfl⟩
    obtain ⟨found', hread', rfl, hfound'⟩ := Request.ofArguments_ok hargs'
    obtain rfl := Except.ok.inj (hread'.symm.trans hswitch.read')
    cases htext : found.text? tree with
    | none => exact absurd hdone (run_textless hargs h hfound htext).1
    | some text =>
      obtain ⟨hcheck, haccepts⟩ := (run_output_iff console h hfound hargs htext hswitch.output).mp hdone
      have hempty : text ≠ "" := by
        rintro rfl
        exact absurd hcheck (by decide +kernel)
      obtain ⟨line, hline, htext'⟩ := hswitch.text h hfound' htext hempty
      have hrun := run_output_iff console' h hfound' hargs' htext' hswitch.output'
      rw [hswitch.force, String.append_assoc, and_iff_left haccepts] at hrun
      exact ⟨line, text, hline, rfl, hcheck, hrun⟩

/-- **When the comment is only a comment.** Its lines begin with two slashes just if those of the command line do,
from the second on. It stands in front of every accepted text, and is accepted with it, just if the command line is
harmless: it leaves no literal open, and its braces are even. A command line without quotes and braces is.

So the comment may be switched on after a run that succeeds, and the next run succeeds, if its command line is
harmless. In any case this one succeeds just if the check accepts the text with the comment in front. -/
theorem headerComment_accepted_iff (commandLine : String) :
    ((∀ line ∈ Text.piecesAt '\n' (Layout.headerComment commandLine).toList, ['/', '/'] <+: line) ↔
      ∀ line ∈ (Text.piecesAt '\n' commandLine.toList).tail, ['/', '/'] <+: line) ∧
    ((∀ content, Output.check content = .ok () →
        Output.check (Layout.headerComment commandLine ++ "\n\n" ++ content) = .ok ()) ↔
      Output.isHarmless commandLine = true) ∧
    ((∀ c ∈ commandLine.toList, c ≠ '"' ∧ c ≠ '\x7b' ∧ c ≠ '\x7d') →
      Output.isHarmless commandLine = true) ∧
    ∀ (console console' : Console) (tree : Tree) (args args' : List String) (given given' : Given)
      (file : String), tree.Proper → SwitchedOn tree args args' given given' file →
        (run console tree args).exitCode = 0 →
        ∃ line text, reconstruct tree (given'.request tree).params = .ok line ∧
          given.text? tree = some text ∧
          ((run console' tree args').exitCode = 0 ↔
            Output.check (Layout.headerComment line ++ "\n\n" ++ (text ++ "\n")) = .ok ()) ∧
          (Output.isHarmless line = true → (run console' tree args').exitCode = 0) := by
  refine ⟨Output.headerComment_lines_iff commandLine, Output.check_heading_iff commandLine, ?_, ?_⟩
  · intro hchars
    exact Output.isHarmless_of_not_mem (fun hmem => (hchars _ hmem).1 rfl) (fun hmem => (hchars _ hmem).2.1 rfl)
      (fun hmem => (hchars _ hmem).2.2 rfl)
  · intro console console' tree args args' given given' file h hswitch hdone
    obtain ⟨line, text, hline, htext, hcheck, hrun⟩ := hswitch.run_iff console' h hdone
    refine ⟨line, text, hline, htext, hrun, fun hharmless => hrun.mpr ?_⟩
    exact (Output.check_heading_iff line).mpr hharmless _ hcheck

/-- A working directory with a brace in the name of its input file, and settings with the comment. -/
def bracedName : Tree where
  home := ["home", "work"]
  entries := [(["home"], .directory), (["home", "work"], .directory),
    (["home", "work", "a\x7b.json"], .file "\x7b\"title\":\"A\",\"type\":\"string\"\x7d".toUTF8.toList),
    (["home", "work", "on.json"], .file "\x7b\"add_generation_comment\":true\x7d".toUTF8.toList)]

theorem bracedName_proper : bracedName.Proper where
  closed := Files.Tree.closed_of_entries (by decide)
  home := by unfold Files.Place.Plain; decide
  dots := by decide

theorem bracedName_switchedOn : SwitchedOn bracedName ["a\x7b.json", "-o", "b.ts"]
    ["a\x7b.json", "-o", "b.ts", "-c", "on.json"] ⟨[(.output, "b.ts")], [], ["a\x7b.json"]⟩
    ⟨[(.output, "b.ts"), (.config, "on.json")], [], ["a\x7b.json"]⟩ "b.ts" where
  read := by cbv
  read' := by cbv
  accepted := by decide +kernel
  output := rfl
  output' := rfl
  rootDir := rfl
  force := rfl
  paths := rfl
  settings := by
    have hon : (Given.effective? ⟨[(.output, "b.ts"), (.config, "on.json")], [], ["a\x7b.json"]⟩ bracedName).any
        Settings.isCommented = true := by decide +kernel
    obtain ⟨on, hsome, hcommented⟩ := (Option.any_eq_true _ _).mp hon
    exact ⟨{}, on, rfl, hsome, Settings.switchedOn_of_isCommented hcommented⟩

/-- **One brace in the name of an input file** is enough: the run fails with the comment, and only with it. -/
theorem headerComment_accepted_iff_bracedName : bracedName.Proper ∧
    (run {} bracedName ["a\x7b.json", "-o", "b.ts"]).exitCode = 0 ∧
    (run {} bracedName ["a\x7b.json", "-o", "b.ts", "-c", "on.json"]).exitCode ≠ 0 ∧
    ∃ line text, Output.isHarmless line = false ∧ Output.check (text ++ "\n") = .ok () ∧
      Output.check (Layout.headerComment line ++ "\n\n" ++ (text ++ "\n")) ≠ .ok () := by
  have hdone : (run {} bracedName ["a\x7b.json", "-o", "b.ts"]).exitCode = 0 := by decide +kernel
  have hfailed : (run {} bracedName ["a\x7b.json", "-o", "b.ts", "-c", "on.json"]).exitCode ≠ 0 := by decide +kernel
  obtain ⟨line, text, -, htext, hrun, hharmless⟩ :=
    (headerComment_accepted_iff "").2.2.2 {} {} _ _ _ _ _ _ bracedName_proper bracedName_switchedOn hdone
  obtain rfl : text = "type A = string;" := by
    have hsome : Given.text? ⟨[(.output, "b.ts")], [], ["a\x7b.json"]⟩ bracedName = some "type A = string;" := by
      decide +kernel
    exact Option.some.inj (htext.symm.trans hsome)
  refine ⟨bracedName_proper, hdone, hfailed, line, "type A = string;", ?_, by decide +kernel,
    fun hcheck => hfailed (hrun.mpr hcheck)⟩
  exact Bool.eq_false_iff.mpr fun h => hfailed (hharmless h)

end CommandLine

end TypeScribe
