/-
**What `gen` leaves on the disk.**

`gen` writes the files of its report and changes nothing else but folders on the way to them.  When it ends
well, every package with a selected injector has a file in the report, and the path of that file leads to
what has been written there last.  This is the package's own file if the output file has a plain name.  One
that is absolute, or that leads up, may put the files of several packages in one place, and then only one of
them is left.

Main definitions:

* `Wiring.Path.Plain` — an output file below the directory of its package;
* `Wiring.Command.genInput` — the run that `gen` does;
* `Wiring.Command.GenLeaves` — what `gen` leaves.

Main results:

* `Wiring.Manifest.path_eq_of_locate` — paths below two packages lead to different places;
* `Wiring.RunInput.exists_origin` — a file belongs into the directory of its package;
* `Wiring.Command.gen_leaves` — **what every call of `gen` leaves on the disk**.
-/

import Wiring.Command.Run
import Wiring.Proofs.Disk.Paths
import Wiring.Proofs.Disk.Writes
import Wiring.Proofs.Loading.Spellings
import Wiring.Proofs.Run.Accounts
import Wiring.Proofs.Run.Lone

set_option autoImplicit false

namespace Wiring

/-! ### The places of packages -/

/-- A path that is taken from a directory and does not lead up from it. -/
structure Path.Plain (q : Path) : Prop where
  relative : q.isAbsolute = false
  down : ".." ∉ q.segments

namespace Manifest

variable {disk : Disk} {request : LoadRequest} {cancelled : Nat → Bool} {p p' : Package}

/-- Paths below two packages that lead to one place are of one package. -/
theorem path_eq_of_locate (hdisk : disk.Tidy) (hmode : request.mode = .roots)
    (hp : p ∈ (load disk request cancelled).packages) (hp' : p' ∈ (load disk request cancelled).packages)
    {q : Path} (hq : q.Plain) {after : Disk} {place : Location}
    (hplace : after.locate (p.dir.join q) = .ok place)
    (hplace' : after.locate (p'.dir.join q) = .ok place) : p.path = p'.path := by
  obtain ⟨m, loc, hm, hnames, hdir, hpath⟩ := exists_place hdisk hmode hp
  obtain ⟨m', loc', hm', hnames', hdir', hpath'⟩ := exists_place hdisk hmode hp'
  obtain rfl : m = m' := Except.ok.inj (hm.symm.trans hm')
  rw [hdir] at hplace
  rw [hdir'] at hplace'
  have hsame : loc = loc' := by
    have heq := Disk.eq_of_locate_join hnames hq.relative hq.down hplace
    rw [Disk.eq_of_locate_join hnames' hq.relative hq.down hplace'] at heq
    exact List.append_cancel_right heq.symm
  rw [hdir, hsame, ← hdir', hpath', Option.some.injEq] at hpath
  exact hpath.symm

end Manifest

/-! ### The files of a run -/

namespace RunInput

variable {input : RunInput} {world : World} {roots : LoadOutcome} {output : PackageOutput}

/-- A file belongs into the directory of its package. -/
theorem exists_origin (hlive : world.cancelled = false)
    (houtput : output ∈ (generate input world).2.outputs) :
    ∃ p ∈ (world.call input.loader input.rootRequest).2.packages, output.pkg = p.path ∧
      output.path = p.dir.join ⟨input.options.outputFile⟩ := by
  rw [generate, if_neg (by simp [hlive])] at houtput
  dsimp only [generateUnits] at houtput
  rw [mem_outputs_reportOn rfl rfl] at houtput
  obtain ⟨first, rest, content, hcons, -, -, hmade⟩ := Report.mem_filesAt.1 houtput
  have hfirst : first ∈ Report.tasksAt (discover input.options
      (world.call input.loader input.rootRequest).2.packages) output.pkg := by
    rw [hcons]
    exact List.mem_cons_self
  exact ⟨first.pkg, (of_mem_discover (Report.mem_tasksAt.1 hfirst).1).2.1,
    congrArg PackageOutput.pkg hmade, congrArg PackageOutput.path hmade⟩

/-- The files of a report are of different packages. -/
theorem eq_of_pkg_eq (hlive : world.cancelled = false) {output' : PackageOutput}
    (houtput : output ∈ (generate input world).2.outputs)
    (houtput' : output' ∈ (generate input world).2.outputs) (hpkg : output.pkg = output'.pkg) :
    output = output' := by
  have hascending : (generate input world).2.outputs.Pairwise fun a b => a.pkg < b.pkg := by
    rw [generate, if_neg (by simp [hlive])]
    dsimp only [generateUnits]
    rw [outputs_reportOn rfl rfl]
    exact Report.pairwise_files _ _ _ _
  have hnodup : ((generate input world).2.outputs.map PackageOutput.pkg).Nodup := by
    refine List.pairwise_map.2 (hascending.imp ?_)
    intro a b hlt hsame
    rw [hsame] at hlt
    exact String.lt_irrefl _ hlt
  exact List.inj_on_of_nodup_map hnodup houtput houtput' hpkg

end RunInput

/-! ### Runs that end well -/

namespace RunInput

variable {input : RunInput} {world : World} {p : Package}

/-- When a run ends without errors, every package with a selected injector has a file, and it is what comes
of making one. -/
theorem exists_output (hreturns : input.Returns world) (hlive : world.cancelled = false)
    (hpackages : ((world.call input.loader input.rootRequest).2.packages.map Package.path).Nodup)
    (herrors : (generate input world).2.errors = []) (hwhole : (generate input world).2.cancelled = false)
    (hp : p ∈ (world.call input.loader input.rootRequest).2.packages)
    (hselected : selected input.options p ≠ []) :
    ∃ output ∈ (generate input world).2.outputs, output.pkg = p.path ∧
      output.path = p.dir.join ⟨input.options.outputFile⟩ ∧
        input.makeFile p (Report.functionsOf output.injectors) input.options.header
          input.options.banner = .ok output.content := by
  obtain ⟨course, results, -, hmakes⟩ := hreturns.makes hlive
  have hroots : (world.call input.loader input.rootRequest).2.errors = [] := by
    rw [List.eq_nil_iff_forall_not_mem]
    intro e he
    have hreported : (⟨e.pkg, none, e.toFailure⟩ : RunError) ∈ (generate input world).2.errors := by
      rw [hmakes.mem_errors, priorErrors]
      refine .inl (List.mem_append_left _ (List.mem_append_left _ ?_))
      exact List.mem_map.2 ⟨e, he, rfl⟩
    rw [herrors] at hreported
    cases hreported
  have hdistinct : (world.call input.loader input.rootRequest).2.Distinct := by
    refine ⟨hpackages, ?_⟩
    rw [hroots]
    exact fun _ _ e he => absurd he List.not_mem_nil
  have hexists : ∃ output ∈ (generate input world).2.outputs, output.pkg = p.path := by
    by_contra hnone
    have hmissing : ∀ output ∈ (generate input world).2.outputs, output.pkg ≠ p.path :=
      fun output houtput hpkg => hnone ⟨output, houtput, hpkg⟩
    obtain ⟨e, he, -⟩ := hmakes.reported hwhole hdistinct hp hselected hmissing
    rw [herrors] at he
    cases he
  obtain ⟨output, houtput, hpkg⟩ := hexists
  obtain ⟨-, -, content, hmake, rfl⟩ := (hmakes.mem_outputs_at hdistinct hp).1 ⟨houtput, hpkg⟩
  exact ⟨_, houtput, rfl, rfl, hmake⟩

end RunInput

namespace Command

/-- The run that `gen` does. -/
def genInput (s : Session) (run : RunArgs) (naive : Bool) (options : Options) : RunInput where
  loader := Manifest.loader s.machine.disk
  disk := s.machine.disk
  workingDir := s.workingDir
  env := s.machine.env
  patterns := run.patterns
  options
  strategy := if naive then .sequential else s.strategy run

/-- The packages that the patterns of a run name, and the reasons why others are missing. -/
def rootsOf (disk : Disk) (input : RunInput) : LoadOutcome :=
  Manifest.load disk input.rootRequest fun _ => false

/-- What `gen` leaves on the disk after a run.

The places that the files of its report lead to are all that it changes, and folders on the way to them.  With
a plain output file a package without a file in the report keeps what it had.  If the run comes to its end and
`gen` ends well, every package with a selected injector has a file in the report, which belongs into its
directory and holds the code of its injectors; and the path of that file leads to what one of the files with
this place holds, with a plain output file to its own. -/
structure GenLeaves (before after : Disk) (input : RunInput) (exitCode : Nat) : Prop where
  writes : Disk.Writes before after (filesOf (generate input {}).2)
  keeps : (⟨input.options.outputFile⟩ : Path).Plain → ∀ p ∈ (rootsOf before input).packages,
    (∀ output ∈ (generate input {}).2.outputs, output.pkg ≠ p.path) →
      ∀ bytes, before.read (p.dir.join ⟨input.options.outputFile⟩) = .ok bytes →
        after.read (p.dir.join ⟨input.options.outputFile⟩) = .ok bytes
  covers : exitCode = 0 → input.Returns {} → ∀ p ∈ (rootsOf before input).packages,
    selected input.options p ≠ [] → ∃ output ∈ (generate input {}).2.outputs, output.pkg = p.path ∧
      output.path = p.dir.join ⟨input.options.outputFile⟩ ∧
        input.makeFile p (Report.functionsOf output.injectors) input.options.header
          input.options.banner = .ok output.content
  holds : exitCode = 0 → ∀ output ∈ (generate input {}).2.outputs,
    after.Holds (filesOf (generate input {}).2) output.path ∧
      ((⟨input.options.outputFile⟩ : Path).Plain →
        after.read output.path = .ok (Text.encode output.content))

section Gen

variable {s : Session} {r : Report} {screen : Screen}

theorem disk_writeFiles (s : Session) (r : Report) (screen : Screen) :
    (writeFiles s r screen).1.disk = (screen.disk.writeAll (filesOf r)).1 := by
  unfold writeFiles
  split
  next hfailed => rw [hfailed]
  next hdone => rw [hdone]; rfl

/-- Files that are written without a problem are all written, and the run had no errors. -/
theorem writeFiles_ok (h : (writeFiles s r screen).2 = .ok ()) :
    (∃ statuses, (screen.disk.writeAll (filesOf r)).2 = .ok statuses) ∧ r.errors = [] ∧
      r.cancelled = false := by
  unfold writeFiles at h
  split at h
  · cases h
  next disk statuses hdone =>
    refine ⟨⟨statuses, by rw [hdone]⟩, ?_⟩
    change reportResult r = .ok () at h
    unfold reportResult at h
    split at h
    · cases h
    next hlive =>
      split at h
      next hnone => exact ⟨hnone, by simpa using hlive⟩
      · cases h

end Gen

section Leaves

variable {s : Session} {run : RunArgs} {naive : Bool} {options : Options} {p : Package}
  {output : PackageOutput} {after : Disk}

theorem call_genInput (s : Session) (run : RunArgs) (naive : Bool) (options : Options) :
    (({} : World).call (genInput s run naive options).loader
      (genInput s run naive options).rootRequest).2 =
        rootsOf s.machine.disk (genInput s run naive options) :=
  rfl

/-- With a plain output file, a package and a file of the report that lead to one place belong together. -/
theorem pkg_eq_of_locate (hdisk : s.machine.disk.Tidy)
    (hplain : (⟨options.outputFile⟩ : Path).Plain)
    (hp : p ∈ (rootsOf s.machine.disk (genInput s run naive options)).packages)
    (houtput : output ∈ (generate (genInput s run naive options) {}).2.outputs) {place : Location}
    (hplace : after.locate (p.dir.join ⟨options.outputFile⟩) = .ok place)
    (hthere : after.locate output.path = .ok place) : output.pkg = p.path := by
  obtain ⟨p', hp', hpkg, hpath⟩ := RunInput.exists_origin rfl houtput
  rw [call_genInput] at hp'
  rw [hpath] at hthere
  rw [hpkg, Manifest.path_eq_of_locate hdisk rfl hp hp' hplain hplace hthere]

/-- What writing the files of a run leaves. -/
theorem genLeaves_writeFiles (hdisk : s.machine.disk.Tidy) {exitCode : Nat}
    (hcode : exitCode = 0 →
      (writeFiles s (generate (genInput s run naive options) {}).2 { disk := s.machine.disk }).2 = .ok ()) :
    GenLeaves s.machine.disk
      (writeFiles s (generate (genInput s run naive options) {}).2 { disk := s.machine.disk }).1.disk
      (genInput s run naive options) exitCode := by
  rw [disk_writeFiles]
  have hwrites := Disk.writes_writeAll s.machine.disk
    (filesOf (generate (genInput s run naive options) {}).2)
  refine ⟨hwrites, ?_, ?_, ?_⟩
  · intro hplain p hp hnone bytes hread
    obtain ⟨place, modified, hplace, hnode⟩ := Disk.read_eq_ok.1 hread
    have hstays := hwrites.grows.locate hplace
    cases hwrites.changes place with
    | kept hkept => exact Disk.read_eq_ok.2 ⟨place, modified, hstays, hkept.trans hnode⟩
    | made hnew => cases hnew.symm.trans hnode
    | written hfile hthere =>
        obtain ⟨output, houtput, hsame⟩ := List.mem_map.1 hfile
        rw [← (Prod.mk.inj hsame).1] at hthere
        exact absurd (pkg_eq_of_locate hdisk hplain hp houtput hstays hthere) (hnone output houtput)
  · intro hzero hreturns p hp hselected
    obtain ⟨-, herrors, hwhole⟩ := writeFiles_ok (hcode hzero)
    obtain ⟨verdicts, haccounts⟩ := Manifest.exists_accounts s.machine.disk
      (genInput s run naive options).rootRequest fun _ => false
    have hpackages := (List.nodup_append.1 haccounts.single).1
    exact RunInput.exists_output hreturns rfl hpackages herrors hwhole hp hselected
  · intro hzero output houtput
    obtain ⟨⟨statuses, hdone⟩, -, -⟩ := writeFiles_ok (hcode hzero)
    have hheld := Disk.holds_writeAll hdone _ (List.mem_map.2 ⟨output, houtput, rfl⟩)
    refine ⟨hheld, fun hplain => ?_⟩
    obtain ⟨q, bytes, hfile, hread, place, hplace, hsame⟩ := hheld
    obtain ⟨output', houtput', heq⟩ := List.mem_map.1 hfile
    obtain ⟨rfl, rfl⟩ := Prod.mk.inj heq
    obtain ⟨p, hp, hpkg, hpath⟩ := RunInput.exists_origin rfl houtput
    dsimp only at hplace hread
    rw [hpath] at hplace
    have hpkg' := pkg_eq_of_locate hdisk hplain hp houtput' hplace hsame
    rw [RunInput.eq_of_pkg_eq rfl houtput houtput' (hpkg.trans hpkg'.symm)] at hread ⊢
    exact hread

/-- Without options there is no run, and a dry run writes nothing. -/
theorem runGen_leaves (hdisk : s.machine.disk.Tidy) (run : RunArgs) (naive dryRun : Bool)
    (headerFile : Option Path) {exitCode : Nat}
    (hcode : exitCode = 0 → (runGen s run naive dryRun headerFile).2 = .ok ()) :
    ((runGen s run naive dryRun headerFile).1.disk = s.machine.disk ∧
        (dryRun = true ∨ exitCode ≠ 0)) ∨
      ∃ options, dryRun = false ∧ genOptions s run naive headerFile = .ok options ∧
        GenLeaves s.machine.disk (runGen s run naive dryRun headerFile).1.disk
          (genInput s run naive options) exitCode := by
  cases hoptions : genOptions s run naive headerFile with
  | error problem =>
      have hnone : runGen s run naive dryRun headerFile = ({ disk := s.machine.disk }, .error problem) := by
        rw [runGen, hoptions]
      rw [hnone] at hcode ⊢
      exact .inl ⟨rfl, .inr fun hzero => by cases hcode hzero⟩
  | ok options =>
      cases dryRun with
      | true =>
          refine .inl ⟨?_, .inl rfl⟩
          rw [runGen, hoptions]
          rfl
      | false =>
          have hwritten : runGen s run naive false headerFile =
              writeFiles s (generate (genInput s run naive options) {}).2 { disk := s.machine.disk } := by
            rw [runGen, hoptions]
            rfl
          rw [hwritten] at hcode ⊢
          exact .inr ⟨options, rfl, rfl, genLeaves_writeFiles hdisk hcode⟩

end Leaves

theorem disk_conclude (color : Bool) (ending : Ending) :
    (conclude color ending).screen.disk = ending.1.disk := by
  obtain ⟨screen, _ | _⟩ := ending <;> rfl

theorem exitCode_conclude {color : Bool} {ending : Ending} (h : (conclude color ending).exitCode = 0) :
    ending.2 = .ok () := by
  obtain ⟨screen, _ | _⟩ := ending
  · cases h
  · rfl

/-- **What every call of `gen` leaves on the disk.**  Without a run, and in a dry run, the disk stays as it
is; otherwise the run leaves no more than the files of its report, and all of them if it ends well. -/
theorem gen_leaves (m : Machine) (hdisk : m.disk.Tidy) (args : List String) (invocation : Invocation)
    (result : Result) (hexecute : execute m args = .ok (invocation, result)) (run : RunArgs)
    (naive dryRun : Bool) (headerFile : Option Path)
    (hgen : invocation.action = .gen run naive dryRun headerFile) :
    (result.screen.disk = m.disk ∧ (dryRun = true ∨ result.exitCode ≠ 0)) ∨
      ∃ config options, dryRun = false ∧
        Config.load m.disk (Path.ofNames m.disk.here) invocation.config m.var? = .ok config ∧
        genOptions ⟨m, config, invocation.quiet⟩ run naive headerFile = .ok options ∧
        GenLeaves m.disk result.screen.disk (genInput ⟨m, config, invocation.quiet⟩ run naive options)
          result.exitCode := by
  obtain rfl : result = conclude m.color (perform m invocation) := by
    unfold execute at hexecute
    cases hparse : parse args with
    | error e => rw [hparse] at hexecute; cases hexecute
    | ok parsed => rw [hparse] at hexecute; cases hexecute; rfl
  have hcode := fun hzero => @exitCode_conclude m.color (perform m invocation) hzero
  rw [disk_conclude]
  generalize (conclude m.color (perform m invocation)).exitCode = exitCode at hcode ⊢
  cases hconfig : Config.load m.disk (Path.ofNames m.disk.here) invocation.config m.var? with
  | error problem =>
      have hnone : perform m invocation = ({ disk := m.disk }, .error problem) := by
        rw [perform, hconfig]
      rw [hnone] at hcode ⊢
      exact .inl ⟨rfl, .inr fun hzero => by cases hcode hzero⟩
  | ok config =>
      have hrun : perform m invocation =
          runGen ⟨m, config, invocation.quiet⟩ run naive dryRun headerFile := by
        rw [perform, hconfig]
        dsimp only
        rw [hgen]
      rw [hrun] at hcode ⊢
      rcases @runGen_leaves ⟨m, config, invocation.quiet⟩ hdisk run naive dryRun headerFile exitCode hcode with
        hstays | ⟨options, hdry, hoptions, hleaves⟩
      · exact .inl hstays
      · exact .inr ⟨config, options, hdry, rfl, hoptions, hleaves⟩

/-! ### One place for two packages -/

/-- A machine with two packages whose file lies in the directory of the module.  An injector of the second
one fails. -/
def rowMachine : Machine where
  disk :=
    { nodes :=
        ⟨[(["wire.mod"], .file (Text.encode "module = \"m\"\n") 0),
          (["wiregen.toml"], .file (Text.encode "[generate]\noutput_file = \"../gen.rs\"\n") 0),
          (["gen.rs"], .file (Text.encode "// b\n") 0),
          (["a"], .folder),
          (["a", "wire.toml"], .file (Text.encode "[[injector]]\nname = \"Init\"\n") 0),
          (["b"], .folder),
          (["b", "wire.toml"],
            .file (Text.encode "[[injector]]\nname = \"Init\"\nproviders = [\"Nope\"]\n") 0)]⟩ }

/-- A run over both packages. -/
def rowRun : RunArgs where
  patterns := ["./a", "./b"]

def rowInvocation : Invocation where
  action := .gen rowRun false false none

def rowConfig : Config where
  options := { outputFile := "../gen.rs" }

def rowInput : RunInput :=
  genInput ⟨rowMachine, rowConfig, false⟩ rowRun false rowConfig.options

/-- What comes of the injector of the first package. -/
def rowPart : InjectorOutput where
  name := "Init"
  plan := {}
  code := (Emit.functionOf {} { name := "Init" } {}).print

/-- The file of the first package. -/
def rowText : String :=
  Emit.fileText "m/a" [rowPart.code] {}

/-- The tasks of this run. -/
theorem launch_row : ∃ a b : Package,
    (rowInput.launch {}).upcoming =
      [{ index := 0, pkg := a, decl := { name := "Init" } },
        { index := 1, pkg := b, decl := { name := "Init", providers := ["Nope"] } }] ∧
      a.path = "m/a" ∧ a.dir = ⟨"/a"⟩ ∧ a.providers = [] ∧ b.path = "m/b" ∧ b.providers = [] := by
  have hlaunch : (rowInput.launch {}).upcoming.map
      (fun t => (t.index, t.decl, t.pkg.path, t.pkg.dir, t.pkg.providers)) =
        [(0, { name := "Init" }, "m/a", ⟨"/a"⟩, []), (1, { name := "Init", providers := ["Nope"] }, "m/b", ⟨"/b"⟩, [])] := by
    decide +kernel
  exact exists_pair_of_discover hlaunch

theorem sets_row : ∀ t ∈ (rowInput.launch {}).upcoming, t.decl.sets = [] := by
  obtain ⟨a, b, htasks, -⟩ := launch_row
  rw [htasks]
  simp

/-- The first package gets a file. -/
theorem outputs_row :
    (generate rowInput {}).2.outputs = [⟨"m/a", ⟨"/a/../gen.rs"⟩, rowText, [rowPart]⟩] := by
  obtain ⟨a, b, htasks, hpath, hdir, hproviders, hpath', hproviders'⟩ := launch_row
  have hmade : Task.alone rowInput.setting { index := 0, pkg := a, decl := { name := "Init" } } =
      .ok rowPart :=
    Task.alone_of_bare rfl rfl (by simp [Emit.collision?, hproviders])
  have hfailed : Task.alone rowInput.setting
      { index := 1, pkg := b, decl := { name := "Init", providers := ["Nope"] } } =
        .error [.unknownProvider "Nope" "m/b"] := by
    simp [Task.alone, Package.request, Package.items, Package.named, Package.provider?, hproviders',
      hpath']
  have hresults : (rowInput.launch {}).upcoming.map (Task.reportAlone rowInput.setting) =
      [⟨0, .ok rowPart⟩, ⟨1, .error [.unknownProvider "Nope" "m/b"]⟩] := by
    simp only [htasks, List.map_cons, List.map_nil, Task.reportAlone, hmade, hfailed]
    rfl
  have hpaths : Report.taskPaths (rowInput.launch {}).upcoming = ["m/a", "m/b"] := by
    rw [htasks, Report.taskPaths]
    simp only [List.map_cons, List.map_nil, hpath, hpath']
    exact List.mergeSort_of_pairwise (by decide)
  rw [RunInput.outputs_of_lone rfl rfl (fun _ => rfl) sets_row, hresults, hpaths, htasks]
  have hfile : rowInput.makeFile a [(rowPart.name, rowPart.code)] rowInput.options.header
      rowInput.options.banner = .ok rowText := by
    rw [rowText, ← hpath]
    rfl
  have hplace : a.dir.join ⟨rowInput.options.outputFile⟩ = ⟨"/a/../gen.rs"⟩ := by
    rw [hdir]
    decide
  simp [Report.filesAt, Report.tasksAt, Report.attempt, Task.made, resultAt, Report.outputOf,
    Report.functionsOf, hpath, hpath', hfile, hplace]

theorem config_row :
    Config.load rowMachine.disk (Path.ofNames rowMachine.disk.here) rowInvocation.config rowMachine.var? =
      .ok rowConfig := by
  decide +kernel

theorem read_row : rowMachine.disk.read ⟨"/b/../gen.rs"⟩ = .ok (Text.encode "// b\n") := by
  decide

/-- Afterwards the path of the second package leads to the file of the first. -/
theorem gen_row :
    ∃ result, execute rowMachine ["gen", "./a", "./b"] = .ok (rowInvocation, result) ∧
      result.screen.disk.read ⟨"/b/../gen.rs"⟩ ≠ .ok (Text.encode "// b\n") := by
  have hparse : parse ["gen", "./a", "./b"] = .ok rowInvocation := by decide
  refine ⟨conclude rowMachine.color (perform rowMachine rowInvocation), ?_, ?_⟩
  · rw [execute, hparse]
    rfl
  · have hrun : perform rowMachine rowInvocation =
        writeFiles ⟨rowMachine, rowConfig, false⟩ (generate rowInput {}).2 { disk := rowMachine.disk } := by
      rw [perform, config_row]
      rfl
    rw [disk_conclude, hrun, disk_writeFiles, filesOf, outputs_row]
    decide +kernel

/-- The run comes to its end, and this is what it leaves. -/
theorem gen_leaves_row :
    rowMachine.disk.Tidy ∧ rowInput.Returns {} ∧
      ∃ result, execute rowMachine ["gen", "./a", "./b"] = .ok (rowInvocation, result) ∧
        GenLeaves rowMachine.disk result.screen.disk rowInput result.exitCode := by
  have hdisk : rowMachine.disk.Tidy := ⟨nofun, by decide⟩
  obtain ⟨last, hends, -⟩ := RunInput.generate_of_lone rfl rfl (fun _ => rfl) sets_row
  obtain ⟨result, hexecute, hread⟩ := gen_row
  refine ⟨hdisk, fun _ => ⟨last, hends⟩, result, hexecute, ?_⟩
  rcases gen_leaves rowMachine hdisk _ rowInvocation result hexecute rowRun false false none rfl with
    ⟨hsame, -⟩ | ⟨config, options, -, hconfig, hoptions, hleaves⟩
  · rw [hsame] at hread
    exact absurd read_row hread
  · obtain rfl : rowConfig = config := Except.ok.inj (config_row.symm.trans hconfig)
    obtain rfl : rowConfig.options = options := Except.ok.inj hoptions
    exact hleaves

/-- A package of which an injector fails does not keep its file, when another one has its own in the same
place. -/
theorem failed_file_lost :
    ∃ result, execute rowMachine ["gen", "./a", "./b"] = .ok (rowInvocation, result) ∧
      (∃ p ∈ (rootsOf rowMachine.disk rowInput).packages, p.path = "m/b" ∧
        selected rowInput.options p ≠ [] ∧
        p.dir.join ⟨rowInput.options.outputFile⟩ = ⟨"/b/../gen.rs"⟩) ∧
      (∀ output ∈ (generate rowInput {}).2.outputs, output.pkg ≠ "m/b") ∧
      rowMachine.disk.read ⟨"/b/../gen.rs"⟩ = .ok (Text.encode "// b\n") ∧
      result.screen.disk.read ⟨"/b/../gen.rs"⟩ ≠ .ok (Text.encode "// b\n") := by
  obtain ⟨result, hexecute, hread⟩ := gen_row
  refine ⟨result, hexecute, by decide +kernel, ?_, read_row, hread⟩
  rw [outputs_row]
  decide

end Command

end Wiring
