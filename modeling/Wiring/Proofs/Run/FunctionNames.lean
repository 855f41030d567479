/-
**The names of generated functions.**

No name is declared twice in a valid package, and a function is refused if it would be called like a provider.
The name of a function is that of its injector in snake case, though, and this may be the same for two
injectors.  Nothing compares the functions of a file with each other, so they have different names exactly when
the injectors that are generated differ in snake case.

Main definitions:

* `Wiring.Manifest.runOver` — a run over the declaration files on a disk;
* `Wiring.Manifest.NamesFunctions` — what is known of the names of the functions in a file.

Main results:

* `Wiring.Manifest.nodup_declaredNames` — the declared names of a valid package are different;
* `Wiring.Manifest.names_functions` — **which functions of a file have the same name**;
* `Wiring.Manifest.two_functions_named_alike` — a file with two functions of one name.
-/

import Wiring.Proofs.Emit.Statements
import Wiring.Proofs.Loading.Contents
import Wiring.Proofs.Loading.Verdicts
import Wiring.Proofs.Run.Lone
import Wiring.Proofs.Run.Writing

set_option autoImplicit false

namespace Wiring.Manifest

/-! ### Declared names -/

/-- The declared names of a valid package are different. -/
theorem nodup_declaredNames {disk : Disk} {tags : List String} {path : String} {dir : Path} {pkg : Package}
    (h : loadPackage disk tags path dir = .ok pkg) (hvalid : pkg.isValid) : (declaredNames pkg).Nodup := by
  rcases loadPackage_cases disk tags path dir with ⟨message, herror⟩ | ⟨d, -, hok⟩
  · cases h.symm.trans herror
  · cases h.symm.trans hok
    have herrors : d.complete.errors = [] := of_decide_eq_true hvalid
    have hfaults : (repeats [] (declaredNames d.pkg)).map (fun name => name ++ " redeclared in this package") =
        [] := (List.append_eq_nil_iff.1 herrors).2
    exact (repeats_eq_nil_iff.1 (List.map_eq_nil_iff.1 hfaults)).1

/-! ### Runs over declaration files -/

/-- A run over the declaration files on a disk. -/
def runOver (disk : Disk) (workingDir : Path) (env : List (String × String)) (patterns : List String)
    (options : Options) (strategy : Strategy) : RunInput where
  loader := loader disk
  disk
  workingDir
  env
  patterns
  options
  strategy

section Runs

variable {disk : Disk} {workingDir : Path} {env : List (String × String)} {patterns : List String}
  {options : Options} {strategy : Strategy} {course : Course} {world : World} {roots : LoadOutcome}
  {results : List TaskReport} {r : Report} {p : Package}

/-- Every root package of a run has been loaded from its files. -/
theorem exists_loadPackage
    (h : (runOver disk workingDir env patterns options strategy).Makes course world roots results r)
    (hp : p ∈ roots.packages) : ∃ tags, loadPackage disk tags p.path p.dir = .ok p := by
  have hload : ∀ request cancelled, p ∈ (load disk request cancelled).packages →
      ∃ tags, loadPackage disk tags p.path p.dir = .ok p := by
    intro request cancelled hmem
    obtain ⟨verdicts, haccounts⟩ := exists_accounts disk request cancelled
    exact ⟨_, haccounts.packages p hmem⟩
  cases h with
  | refused => cases hp
  | done h =>
      cases h with
      | halts _ hroots =>
          rw [← (Prod.mk.inj hroots).2] at hp
          exact hload _ _ hp
      | goes _ hroots =>
          rw [← (Prod.mk.inj hroots).2] at hp
          exact hload _ _ hp

/-- What is known of the names of the functions in the file of a package. -/
structure NamesFunctions (options : Options) (p : Package) (content : String)
    (functions : List Emit.Function) : Prop where
  /-- The file holds these functions and no others. -/
  content : content = Emit.fileText p.path (functions.map Emit.Function.print)
    { header := options.header, banner := options.banner }
  /-- There is one for each selected injector, in order. -/
  injectors : functions.map Emit.Function.injector = (selected options p).map InjectorDecl.name
  names : functions.map Emit.Function.name = (selected options p).map fun decl => Text.snakeCase decl.name
  declared : (declaredNames p).Nodup
  /-- No function is called like a provider of the package. -/
  apart : ∀ f ∈ functions, ∀ d ∈ p.providers, f.name ≠ Text.snakeCase d.name
  /-- The functions have different names exactly when the injectors differ in snake case. -/
  distinct : (functions.map Emit.Function.name).Nodup ↔
    ∀ a ∈ selected options p, ∀ b ∈ selected options p,
      Text.snakeCase a.name = Text.snakeCase b.name → a = b

/-- Rendered functions bear the names of their injectors, and none that of a provider. -/
theorem names_of_rendered {decls : List InjectorDecl} {functions : List Emit.Function}
    (h : List.Forall₂ (fun decl f => ∃ plan, Emit.function? p decl plan = .ok f) decls functions) :
    functions.map Emit.Function.injector = decls.map InjectorDecl.name ∧
      functions.map Emit.Function.name = decls.map (fun decl => Text.snakeCase decl.name) ∧
      ∀ f ∈ functions, ∀ d ∈ p.providers, f.name ≠ Text.snakeCase d.name := by
  induction h with
  | nil => exact ⟨rfl, rfl, fun _ hf => absurd hf List.not_mem_nil⟩
  | @cons decl f _ _ hfunction _ ih =>
      obtain ⟨plan, hf⟩ := hfunction
      obtain ⟨hfree, -, rfl⟩ := Emit.function?_eq_ok_iff.1 hf
      obtain ⟨hinjectors, hnames, hapart⟩ := ih
      refine ⟨congrArg (decl.name :: ·) hinjectors, congrArg (Text.snakeCase decl.name :: ·) hnames, ?_⟩
      rw [List.forall_mem_cons]
      exact ⟨fun d hd heq => hfree d hd heq.symm, hapart⟩

/-- Injectors of different names are different. -/
theorem nodup_selected (hdeclared : (declaredNames p).Nodup) : (selected options p).Nodup := by
  have hinjectors : (p.injectors.map InjectorDecl.name).Nodup := (List.nodup_append.1 hdeclared).2.1
  exact (List.Nodup.of_map _ hinjectors).filter _

/-- In each file of a run the functions have the names of their injectors. -/
theorem exists_namesFunctions
    (h : (runOver disk workingDir env patterns options strategy).Makes course world roots results r)
    {output : PackageOutput} (houtput : output ∈ r.outputs) :
    ∃ p ∈ roots.packages, p.isValid ∧ output.pkg = p.path ∧
      ∃ functions, NamesFunctions options p output.content functions := by
  obtain ⟨p, hp, hvalid, hpath, functions, hfunctions, hmake⟩ := h.exists_functions houtput
  obtain ⟨tags, hload⟩ := exists_loadPackage h hp
  have hdeclared := nodup_declaredNames hload hvalid
  obtain ⟨hinjectors, hnames, hapart⟩ := names_of_rendered hfunctions
  refine ⟨p, hp, hvalid, hpath, functions, ?_, hinjectors, hnames, hdeclared, hapart, ?_⟩
  · have hcodes : (functions.map fun f => (f.injector, f.print)).map Prod.snd =
        functions.map Emit.Function.print := by
      rw [List.map_map]
      rfl
    rw [← hcodes]
    exact (Except.ok.inj hmake).symm
  · rw [hnames]
    exact List.nodup_map_iff_inj_on (nodup_selected hdeclared)

end Runs

/-- **Which functions of a file have the same name.**  Every file that a run over declaration files makes
belongs to a valid package, in which no name is declared twice.  It holds a function for each selected injector,
called like the injector in snake case and not like any provider, so that two functions have the same name
exactly if their injectors do in snake case.  The report of `generate` is one of those that a run may make. -/
theorem names_functions (disk : Disk) (workingDir : Path) (env : List (String × String))
    (patterns : List String) (options : Options) (strategy : Strategy) (world : World) :
    (∀ course roots results r,
      (runOver disk workingDir env patterns options strategy).Makes course world roots results r →
        ∀ output ∈ r.outputs, ∃ p ∈ roots.packages, p.isValid ∧ output.pkg = p.path ∧
          ∃ functions, NamesFunctions options p output.content functions) ∧
    ((runOver disk workingDir env patterns options strategy).Returns world → world.cancelled = false →
      ∃ course results, (runOver disk workingDir env patterns options strategy).Makes course world
        (world.call (loader disk) { workingDir, env, patterns }).2 results
        (generate (runOver disk workingDir env patterns options strategy) world).2) := by
  refine ⟨fun course roots results r h output houtput => exists_namesFunctions h houtput, ?_⟩
  intro hreturns hlive
  obtain ⟨course, results, -, hmakes⟩ := hreturns.makes hlive
  exact ⟨course, results, hmakes⟩

/-! ### Two injectors that differ in a capital -/

/-- A module whose package declares two injectors. -/
def twinsDisk : Disk where
  nodes :=
    ⟨[(["wire.mod"], .file (Text.encode "module = \"m\"\n") 0),
      (["a"], .folder),
      (["a", "wire.toml"],
        .file (Text.encode "[[injector]]\nname = \"Init\"\n\n[[injector]]\nname = \"init\"\n") 0)]⟩

def twinsRun : RunInput :=
  runOver twinsDisk ⟨"/"⟩ [] ["./a"] {} .sequential

/-- The function of either injector. -/
def twinFunction (name : String) : Emit.Function :=
  Emit.functionOf {} { name } {}

/-- What comes of either injector. -/
def twinPart (name : String) : InjectorOutput where
  name
  plan := {}
  code := (twinFunction name).print

/-- The file of the package. -/
def twinsFile : PackageOutput where
  pkg := "m/a"
  path := ⟨"/a/wire_gen.rs"⟩
  content := Emit.fileText "m/a" [(twinFunction "Init").print, (twinFunction "init").print] {}
  injectors := [twinPart "Init", twinPart "init"]

/-- The tasks of this run. -/
theorem launch_twins : ∃ a b : Package,
    (twinsRun.launch {}).upcoming =
      [{ index := 0, pkg := a, decl := { name := "Init" } },
        { index := 1, pkg := b, decl := { name := "init" } }] ∧
      a.path = "m/a" ∧ a.dir = ⟨"/a"⟩ ∧ a.providers = [] ∧ b.path = "m/a" ∧ b.providers = [] := by
  have hlaunch : (twinsRun.launch {}).upcoming.map
      (fun t => (t.index, t.decl, t.pkg.path, t.pkg.dir, t.pkg.providers)) =
        [(0, { name := "Init" }, "m/a", ⟨"/a"⟩, []), (1, { name := "init" }, "m/a", ⟨"/a"⟩, [])] := by
    decide +kernel
  exact exists_pair_of_discover hlaunch

theorem sets_twins : ∀ t ∈ (twinsRun.launch {}).upcoming, t.decl.sets = [] := by
  obtain ⟨a, b, htasks, -⟩ := launch_twins
  rw [htasks]
  simp

/-- The package gets its file. -/
theorem outputs_twins : (generate twinsRun {}).2.outputs = [twinsFile] := by
  obtain ⟨a, b, htasks, hpath, hdir, hproviders, hpath', hproviders'⟩ := launch_twins
  have hmade : Task.alone twinsRun.setting { index := 0, pkg := a, decl := { name := "Init" } } =
      .ok (twinPart "Init") :=
    Task.alone_of_bare rfl rfl (by simp [Emit.collision?, hproviders])
  have hmade' : Task.alone twinsRun.setting { index := 1, pkg := b, decl := { name := "init" } } =
      .ok (twinPart "init") :=
    Task.alone_of_bare rfl rfl (by simp [Emit.collision?, hproviders'])
  have hresults : (twinsRun.launch {}).upcoming.map (Task.reportAlone twinsRun.setting) =
      [⟨0, .ok (twinPart "Init")⟩, ⟨1, .ok (twinPart "init")⟩] := by
    simp only [htasks, List.map_cons, List.map_nil, Task.reportAlone, hmade, hmade']
    rfl
  have hpaths : Report.taskPaths (twinsRun.launch {}).upcoming = ["m/a"] := by
    rw [htasks, Report.taskPaths]
    simp only [List.map_cons, List.map_nil, hpath, hpath']
    exact List.mergeSort_singleton _
  rw [RunInput.outputs_of_lone rfl rfl (fun _ => rfl) sets_twins, hresults, hpaths, htasks]
  have hfile : twinsRun.makeFile a
      [((twinPart "Init").name, (twinPart "Init").code), ((twinPart "init").name, (twinPart "init").code)]
      twinsRun.options.header twinsRun.options.banner = .ok twinsFile.content := by
    rw [twinsFile, ← hpath]
    rfl
  have hplace : a.dir.join ⟨twinsRun.options.outputFile⟩ = ⟨"/a/wire_gen.rs"⟩ := by
    rw [hdir]
    decide
  simp [Report.filesAt, Report.tasksAt, Report.attempt, Task.made, resultAt, Report.outputOf,
    Report.functionsOf, hpath, hpath', hfile, hplace]
  rfl

/-- The file is made as the theorem says. -/
theorem names_functions_twins :
    twinsRun.Returns {} ∧ ∃ p : Package, p.path = "m/a" ∧
      ∃ functions, NamesFunctions {} p twinsFile.content functions := by
  obtain ⟨last, hends, -⟩ := RunInput.generate_of_lone rfl rfl (fun _ => rfl) sets_twins
  have hreturns : twinsRun.Returns {} := fun _ => ⟨last, hends⟩
  obtain ⟨hmade, hmakes⟩ := names_functions twinsDisk ⟨"/"⟩ [] ["./a"] {} .sequential {}
  obtain ⟨course, results, hrun⟩ := hmakes hreturns rfl
  have hfile : twinsFile ∈ (generate twinsRun {}).2.outputs := by
    rw [outputs_twins]
    exact List.mem_cons_self
  obtain ⟨p, -, -, hpath, hnames⟩ := hmade _ _ _ _ hrun twinsFile hfile
  exact ⟨hreturns, p, hpath.symm, hnames⟩

/-- A valid package gets a file with two functions of one name. -/
theorem two_functions_named_alike :
    (∃ p ∈ (load twinsDisk twinsRun.rootRequest fun _ => false).packages, p.path = "m/a" ∧ p.isValid) ∧
      (generate twinsRun {}).2.outputs = [twinsFile] ∧
      twinsFile.content = Emit.fileText "m/a"
        ([twinFunction "Init", twinFunction "init"].map Emit.Function.print) {} ∧
      (twinFunction "Init").name = "init" ∧ (twinFunction "init").name = "init" := by
  refine ⟨?_, outputs_twins, rfl, ?_, ?_⟩ <;> decide +kernel

end Wiring.Manifest
