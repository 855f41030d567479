/-
**The report of a run.**

A report lists the generated files and everything that went wrong, each failure with the package
and, where there is one, the injector that it belongs to.

Main definitions:

* `Wiring.PackageOutput`, `Wiring.RunError`, `Wiring.Report` — the parts of a report;
* `Wiring.Report.sorted` — the report in its final order;
* `Wiring.Report.assemble` — from the results of tasks to files and errors.
-/

import Wiring.Emit.File
import Wiring.Run.Schedule

set_option autoImplicit false

namespace Wiring

/-- Makes the file of a package from the names and the code of its injectors, with a header and with or
without the banner, or says why it cannot. -/
abbrev FileMaker := Package → List (String × String) → Option String → Bool → Except String String

/-- The generated file of a package. -/
structure PackageOutput where
  pkg : String
  /-- Where the file belongs. -/
  path : Path
  content : String
  /-- The injectors in the file, in the order of their declaration. -/
  injectors : List InjectorOutput
deriving DecidableEq, Inhabited

/-- A failure and what it belongs to.  One that belongs to the whole run has no package. -/
structure RunError where
  pkg : String
  injector : Option String := none
  failure : Failure
deriving DecidableEq, Inhabited

namespace RunError

/-- The failure with what it belongs to in front. -/
def text (e : RunError) : String :=
  match e.injector with
  | some injector => e.pkg ++ "." ++ injector ++ ": " ++ e.failure.message
  | none =>
    if e.pkg = "" then e.failure.message else e.pkg ++ ": " ++ e.failure.message

/-- Injectors come in ascending order, and a failure of the whole package before them. -/
def injectorLe : Option String → Option String → Bool
  | none, _ => true
  | some _, none => false
  | some a, some b => !decide (b < a)

/-- Errors are ordered by package and then by injector. -/
def le (a b : RunError) : Bool :=
  a.pkg < b.pkg || (a.pkg = b.pkg && injectorLe a.injector b.injector)

end RunError

/-- Everything that a run produced. -/
structure Report where
  outputs : List PackageOutput := []
  errors : List RunError := []
  /-- The run was cut short. -/
  cancelled : Bool := false
  /-- The packages that were loaded, in ascending order. -/
  loaded : List String := []
deriving DecidableEq, Inhabited

namespace Report

/-- Whether nothing went wrong. -/
def isSuccess (r : Report) : Bool :=
  r.errors = [] && !r.cancelled

/-- Outputs are ordered by package. -/
def outputLe (a b : PackageOutput) : Bool :=
  !decide (b.pkg < a.pkg)

/-- The report in its final order.  What the order does not tell apart stays as it came. -/
def sorted (r : Report) : Report :=
  { r with outputs := r.outputs.mergeSort outputLe, errors := r.errors.mergeSort RunError.le }

/-- Adds errors. -/
def withErrors (r : Report) (errors : List RunError) : Report :=
  { r with errors := r.errors ++ errors }

/-- Marks the report as cut short. -/
def cut (r : Report) : Report :=
  { r with cancelled := true }.withErrors [{ pkg := "", failure := .cancelled }]

/-- The results of one package in the order of its tasks. -/
def resultsOf (tasks : List Task) (results : List TaskReport) : List (Task × TaskResult) :=
  tasks.filterMap fun t =>
    (results.find? fun r => r.index = t.index).map fun r => (t, r.result)

/-- The errors of the failed tasks of a package. -/
def taskErrors (pkg : String) (results : List (Task × TaskResult)) : List RunError :=
  results.flatMap fun (t, result) =>
    match result with
    | .error failures => failures.map fun f => ⟨pkg, some t.decl.name, f⟩
    | .ok _ => []

/-- What the successful tasks of a package made. -/
def taskOutputs (results : List (Task × TaskResult)) : List InjectorOutput :=
  results.filterMap fun (_, result) =>
    match result with
    | .ok output => some output
    | .error _ => none

/-- The file of a package. -/
def outputOf (options : Options) (pkg : Package) (injectors : List InjectorOutput)
    (content : String) : PackageOutput where
  pkg := pkg.path
  path := pkg.dir.join ⟨options.outputFile⟩
  content := content
  injectors := injectors

/-- What the file of a package is made of: the names of its injectors and their code. -/
def functionsOf (injectors : List InjectorOutput) : List (String × String) :=
  injectors.map fun i => (i.name, i.code)

/-- Adds what has become of the tasks of one package.  There is a file only if every one of them
finished and none failed, and if the file can be made. -/
def addPackage (make : FileMaker) (options : Options) (results : List TaskReport) (r : Report)
    (tasks : List Task) : Report :=
  match tasks with
  | [] => r
  | first :: _ =>
    let done := resultsOf tasks results
    let made := taskOutputs done
    let r := r.withErrors (taskErrors first.pkg.path done)
    if made.length = tasks.length then
      match make first.pkg (functionsOf made) options.header options.banner with
      | .ok content => { r with outputs := r.outputs ++ [outputOf options first.pkg made content] }
      | .error reason => r.withErrors [{ pkg := first.pkg.path, failure := .render reason }]
    else r

/-- The paths of the packages that have tasks, in ascending order. -/
def taskPaths (tasks : List Task) : List String :=
  ((tasks.map fun t => t.pkg.path).eraseDups).mergeSort fun a b => !decide (b < a)

/-- Adds what has become of all tasks, package by package. -/
def assemble (make : FileMaker) (options : Options) (r : Report) (tasks : List Task)
    (results : List TaskReport) : Report :=
  (taskPaths tasks).foldl
    (fun r path => addPackage make options results r (tasks.filter fun t => t.pkg.path = path)) r

end Report

end Wiring
