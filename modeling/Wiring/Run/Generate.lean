/-
**A run.**

A run loads the packages that its patterns name, works on every selected injector of the valid ones,
and puts the code of each package into one file.  A package with a failing injector gets no file.

An eager run loads everything that the packages import before it starts; a lazy one loads further
packages when an injector needs them.

Main definitions:

* `Wiring.RunInput` — what a run is given;
* `Wiring.discover` — the tasks of a run, and the errors of packages that cannot have any;
* `Wiring.reportOn` — the report on what the tasks came to;
* `Wiring.generate` — the run;
* `Wiring.Preset` — runs by the names of their strategies.
-/

import Wiring.Run.Report

set_option autoImplicit false

namespace Wiring

/-- What a run is given. -/
structure RunInput where
  loader : Loader
  /-- Where the fingerprints of packages without one are taken from. -/
  disk : Disk := {}
  workingDir : Path := ⟨""⟩
  env : List (String × String) := []
  patterns : List String := []
  options : Options := {}
  strategy : Strategy := .sequential
  /-- Makes the files. -/
  makeFile : FileMaker := fun pkg functions header banner =>
    .ok (Emit.fileText pkg.path (functions.map Prod.snd) { header, banner })

namespace RunInput

/-- Where the loader is called from. -/
def site (input : RunInput) : LoadSite :=
  { loader := input.loader, workingDir := input.workingDir, env := input.env }

/-- The request for the packages that the patterns name. -/
def rootRequest (input : RunInput) : LoadRequest :=
  { workingDir := input.workingDir, env := input.env, patterns := input.patterns }

/-- Whether extracted sets are kept.  Only a sequential run may do without. -/
def keepSets (input : RunInput) : Bool :=
  input.options.optimized || input.strategy ≠ .sequential

/-- What all tasks of the run are given. -/
def setting (input : RunInput) : Setting :=
  { site := input.site, disk := input.disk, policy := input.options.policy
    keepSets := input.keepSets }

end RunInput

/-- The packages that some others import and that are not among them, in ascending order. -/
def missingImports (packages : List Package) : List String :=
  let loaded := packages.map Package.path
  ((packages.flatMap Package.imports).filter fun path => !loaded.contains path).eraseDups.mergeSort
    fun a b => !decide (b < a)

/-- Loads everything that the root packages import, directly or not. -/
def loadImports (input : RunInput) (world : World) (roots : List Package) :
    World × LoadOutcome :=
  match missingImports roots with
  | [] => (world, {})
  | imports =>
    let request := { input.rootRequest with patterns := imports, mode := .withDeps }
    let (world, outcome) := world.call input.loader request
    let loaded := roots.map Package.path
    (world, { outcome with packages := outcome.packages.filter fun p => !loaded.contains p.path })

/-- The cache of packages that the tasks of a run start with. -/
def fillPackages (input : RunInput) (world : World) (roots : LoadOutcome) : World :=
  if input.strategy.isLazy then
    world.withPackages (PackageCache.seed { isLazy := true } roots)
  else
    let (world, deps) := loadImports input world roots.packages
    world.withPackages ((PackageCache.seed {} roots).seed deps)

/-- What holds of an empty cache, and lasts when slots are filled, holds of the cache that a run starts with. -/
theorem fillPackages_induction {P : PackageCache → Prop} (hempty : ∀ isLazy, P { isLazy })
    (hseed : ∀ cache outcome, P cache → P (cache.seed outcome)) (input : RunInput) (world : World)
    (roots : LoadOutcome) : P (fillPackages input world roots).packages := by
  unfold fillPackages
  split
  · exact hseed _ roots (hempty true)
  · exact hseed _ _ (hseed _ roots (hempty false))

/-- The packages of a list, of several with the same path only the first. -/
def firstOfEach (met : List String) : List Package → List Package
  | [] => []
  | pkg :: rest =>
    if pkg.path ∈ met then firstOfEach met rest else pkg :: firstOfEach (pkg.path :: met) rest

/-- The injectors of a package that are to be generated. -/
def selected (options : Options) (pkg : Package) : List InjectorDecl :=
  pkg.injectors.filter options.selects

/-- The errors of an invalid package: one for each selected injector, or one for the package. -/
def invalidErrors (options : Options) (pkg : Package) : List RunError :=
  let failure := Failure.loadFailure pkg.path pkg.faultText
  match selected options pkg with
  | [] => [{ pkg := pkg.path, failure }]
  | injectors => injectors.map fun i => { pkg := pkg.path, injector := some i.name, failure }

/-- The injectors to be worked on, with their packages. -/
def wanted (options : Options) (roots : List Package) : List (Package × InjectorDecl) :=
  ((firstOfEach [] roots).filter Package.isValid).flatMap fun pkg =>
    (selected options pkg).map fun decl => (pkg, decl)

/-- The tasks of a run. -/
def discover (options : Options) (roots : List Package) : List Task :=
  (wanted options roots).mapIdx fun index (pkg, decl) => { index, pkg, decl }

/-- The errors of the root packages that are invalid. -/
def discoverErrors (options : Options) (roots : List Package) : List RunError :=
  ((firstOfEach [] roots).filter fun pkg => !pkg.isValid).flatMap (invalidErrors options)

/-- The errors of the root packages that did not load. -/
def rootErrors (roots : LoadOutcome) : List RunError :=
  roots.errors.map fun e => { pkg := e.pkg, failure := e.toFailure }

/-- The report of a run, when its tasks have been done as far as they were. -/
def reportOn (input : RunInput) (roots : LoadOutcome) (cancelled : Bool)
    (finished : List TaskReport) (world : World) : Report :=
  let tasks := discover input.options roots.packages
  let report := Report.withErrors {}
    (rootErrors roots ++ discoverErrors input.options roots.packages)
  let report := if cancelled then report.cut else report
  let report :=
    report.assemble input.makeFile input.options tasks (Schedule.complete cancelled finished tasks.length)
  { report with loaded := world.packages.loadedPaths }.sorted

/-- Does all tasks and reports on them. -/
def generateUnits (input : RunInput) (world : World) (roots : LoadOutcome) : World × Report :=
  let tasks := discover input.options roots.packages
  let last := Schedule.run input.setting (fillPackages input world roots) input.strategy.workers tasks
  (last.world, reportOn input roots last.cancelled last.finished last.world)

/-- One run, in a world whose cache of sets may hold sets of earlier runs. -/
def generate (input : RunInput) (world : World) : World × Report :=
  if world.cancelled then (world, Report.cut {})
  else
    let (world, roots) := world.call input.loader input.rootRequest
    generateUnits input world roots

/-- Runs by the names of their strategies. -/
inductive Preset where
  /-- One by one, extracting every set anew. -/
  | naive
  /-- One by one, keeping extracted sets. -/
  | optimized
  | parallel (maxWorkers : Nat)
  | lazy
  | parallelLazy (maxWorkers : Nat)
deriving DecidableEq, Inhabited

/-- A run under a preset. -/
def Preset.apply (input : RunInput) : Preset → RunInput
  | naive =>
    { input with options := { input.options with optimized := false }, strategy := .sequential }
  | optimized =>
    { input with options := { input.options with optimized := true }, strategy := .sequential }
  | parallel n => { input with strategy := .parallel n }
  | lazy => { input with strategy := .lazy }
  | parallelLazy n => { input with strategy := .parallelLazy n }

end Wiring
