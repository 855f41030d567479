/-
**The commands.**

A command loads the configuration, does a run, and says what came of it.  `gen` writes the files,
`check` only counts steps, and `show` prints plans.  Problems go to the error stream and make the
command fail.

Main definitions:

* `Wiring.Command.Machine`, `Wiring.Command.Screen` — what a command works on, and what it leaves;
* `Wiring.Command.runGen`, `Wiring.Command.runCheck`, `Wiring.Command.runShow` — the commands;
* `Wiring.Command.execute` — a command line from the arguments to the exit code.
-/

import Wiring.Command.Args
import Wiring.Command.Style
import Wiring.Config
import Wiring.Disk.AtomicWrite
import Wiring.Loading.Manifest
import Wiring.PlanJson
import Wiring.Run.Generate

set_option autoImplicit false

namespace Wiring.Command

/-- What a command is started on. -/
structure Machine where
  disk : Disk := {}
  env : List (String × String) := []
  /-- Whether words are coloured. -/
  color : Bool := false
  /-- How many injectors the machine works on at once when nobody says. -/
  workers : Nat := 1

/-- What a command has written so far. -/
structure Screen where
  disk : Disk
  stdout : String := ""
  stderr : String := ""

namespace Screen

/-- Prints lines. -/
def print (s : Screen) (lines : List String) : Screen :=
  { s with stdout := s.stdout ++ Text.join "" (lines.map (· ++ "\n")) }

/-- Prints lines on the error stream. -/
def complain (s : Screen) (lines : List String) : Screen :=
  { s with stderr := s.stderr ++ Text.join "" (lines.map (· ++ "\n")) }

end Screen

/-- What a command leaves, and the problem that it failed with. -/
abbrev Ending := Screen × Except Problem Unit

/-- What a command is given beside its own options. -/
structure Session where
  machine : Machine
  config : Config
  quiet : Bool

namespace Session

/-- The working directory. -/
def workingDir (s : Session) : Path :=
  Path.ofNames s.machine.disk.here

/-- The options of a run: tags of the command line take the place of those of the configuration. -/
def options (s : Session) (run : RunArgs) : Options :=
  if run.tags = [] then s.config.options else { s.config.options with tags := run.tags }

/-- The strategy of a run. -/
def strategy (s : Session) (run : RunArgs) : Strategy :=
  .ofSettings (run.maxParallel.getD (s.config.workers s.machine.workers))
    (run.isLazy || s.config.isLazy)

/-- Does a run. -/
def generate (s : Session) (run : RunArgs) (options : Options) (strategy : Strategy) : Report :=
  (Wiring.generate
    { loader := Manifest.loader s.machine.disk, disk := s.machine.disk
      workingDir := s.workingDir, env := s.machine.env, patterns := run.patterns
      options, strategy } {}).2

/-- Colours a word. -/
def paint (s : Session) (style : Style) (text : String) : String :=
  style.paint s.machine.color text

end Session

/-! ### Errors -/

/-- The line for an error of a run.  That the run as a whole was cancelled is said elsewhere. -/
def errorLine (s : Session) (e : RunError) : Option String :=
  match e.injector, e.failure with
  | none, .cancelled => none
  | some injector, .cancelled =>
    some (s.paint .yellow "-" ++ " " ++ e.pkg ++ "." ++ injector ++ " (cancelled)")
  | _, _ => some (s.paint .red "✗" ++ " " ++ e.text)

/-- What a command whose run had errors fails with. -/
def reportResult (r : Report) : Except Problem Unit :=
  if r.cancelled then .error { cause := .failure .cancelled }
  else if r.errors = [] then .ok ()
  else
    let count := r.errors.length
    .error { cause := .plain (toString count ++ " error" ++ (if count = 1 then "" else "s") ++
      " while processing injectors") }

/-- Ends a command with the errors of its run. -/
def close (s : Session) (r : Report) (screen : Screen) : Ending :=
  (screen.complain (r.errors.filterMap (errorLine s)), reportResult r)

/-! ### Generating -/

/-- The lines for the files that would be written. -/
def dryRunLines (s : Session) (r : Report) : List String :=
  r.outputs.flatMap fun o =>
    (s.paint .cyan "would write" ++ " " ++ o.path.text) :: if s.quiet then [] else [o.content]

/-- The line for a file that was to be written. -/
def writtenLine (s : Session) (path : Path) : WriteStatus → String
  | .written => s.paint .green "wrote" ++ " " ++ path.text
  | .unchanged => s.paint .dimmed "unchanged" ++ " " ++ path.text

/-- The files of a report. -/
def filesOf (r : Report) : List (Path × List UInt8) :=
  r.outputs.map fun o => (o.path, Text.encode o.content)

/-- Writes the files of a report. -/
def writeFiles (s : Session) (r : Report) (screen : Screen) : Ending :=
  match screen.disk.writeAll (filesOf r) with
  | (disk, .error problem) => ({ screen with disk }, .error problem)
  | (disk, .ok statuses) =>
    let lines := (r.outputs.zip statuses).map fun (o, status) => writtenLine s o.path status
    close s r ({ screen with disk }.print (if s.quiet then [] else lines))

/-- The header of a file that is named. -/
def readHeader (disk : Disk) (file : Path) : Except Problem String :=
  match disk.readText file with
  | .ok text => .ok text
  | .error fault =>
    .error { cause := .ofFault fault, contexts := ["Failed to read header file: " ++ file.text] }

/-- The options of `gen`, with the header of a file that is named. -/
def genOptions (s : Session) (run : RunArgs) (naive : Bool) (headerFile : Option Path) :
    Except Problem Options := do
  let options := s.options run
  let options := if naive then { options with optimized := false } else options
  match headerFile with
  | none => return options
  | some file => return { options with header := some (← readHeader s.machine.disk file) }

/-- Generates code and writes it, or says what would be written. -/
def runGen (s : Session) (run : RunArgs) (naive dryRun : Bool) (headerFile : Option Path) :
    Ending :=
  let screen : Screen := { disk := s.machine.disk }
  match genOptions s run naive headerFile with
  | .error problem => (screen, .error problem)
  | .ok options =>
    let strategy := if naive then .sequential else s.strategy run
    let report := s.generate run options strategy
    if dryRun then close s report (screen.print (dryRunLines s report))
    else writeFiles s report screen

/-! ### Checking and showing -/

/-- The lines for the injectors of a package that are in order. -/
def checkLines (s : Session) (o : PackageOutput) : List String :=
  o.injectors.map fun i =>
    s.paint .green "✓" ++ " " ++ o.pkg ++ "." ++ i.name ++
      " (" ++ toString i.plan.steps.length ++ " steps)"

/-- Reports problems and writes nothing. -/
def runCheck (s : Session) (run : RunArgs) : Ending :=
  let report := s.generate run (s.options run) (s.strategy run)
  let lines := if s.quiet then [] else report.outputs.flatMap (checkLines s)
  close s report (({ disk := s.machine.disk } : Screen).print lines)

/-- The line for an argument of a plan. -/
def inputLine (b : Binding) : Option String :=
  match b.source with
  | .input index => some ("  arg " ++ toString index ++ ": " ++ b.type)
  | .provider _ => none

/-- The line for a step of a plan. -/
def stepLine (number : Nat) (b : Binding) : Option String :=
  b.provider?.map fun p =>
    "  " ++ toString number ++ ". " ++ b.type ++ " <- " ++ p.qualifiedName ++
      "(" ++ Text.join ", " p.inputs ++ ")"

/-- The lines for a plan. -/
def planLines (pkg injector : String) (plan : Plan) : List String :=
  (pkg ++ "." ++ injector) :: plan.inputs.filterMap inputLine ++
    (plan.steps.zipIdx.filterMap fun (b, i) => stepLine (i + 1) b) ++
    ["  returns " ++ Text.join ", " plan.outputs]

/-- The plan of an injector as JSON. -/
def planJson (pkg : String) (i : InjectorOutput) : Json :=
  .obj [("package", .str pkg), ("injector", .str i.name), ("plan", i.plan.toJson)]

/-- The lines for all plans of a report. -/
def showLines (format : Format) (r : Report) : List String :=
  match format with
  | .text => r.outputs.flatMap fun o => o.injectors.flatMap fun i => planLines o.pkg i.name i.plan
  | .json =>
    [(Json.arr (r.outputs.flatMap fun o => o.injectors.map (planJson o.pkg))).pretty]

/-- Prints plans. -/
def runShow (s : Session) (run : RunArgs) (format : Format) : Ending :=
  let report := s.generate run (s.options run) (s.strategy run)
  close s report (({ disk := s.machine.disk } : Screen).print (showLines format report))

/-! ### Command lines -/

/-- The last value of a variable. -/
def Machine.var? (m : Machine) (name : String) : Option String :=
  (m.env.reverse.find? fun e => e.1 = name).map Prod.snd

/-- Does what a command line asks for. -/
def perform (m : Machine) (invocation : Invocation) : Ending :=
  match Config.load m.disk (Path.ofNames m.disk.here) invocation.config m.var? with
  | .error problem => ({ disk := m.disk }, .error problem)
  | .ok config =>
    let s : Session := { machine := m, config, quiet := invocation.quiet }
    match invocation.action with
    | .gen run naive dryRun headerFile => runGen s run naive dryRun headerFile
    | .check run => runCheck s run
    | .show run format => runShow s run format

/-- The lines that explain a problem. -/
def explanationLines (color : Bool) (e : Explanation) : List String :=
  (Style.redBold.paint color "error" ++ ": " ++ e.failure.message) ::
    (e.details.toList.map fun d => Style.yellow.paint color "details" ++ ": " ++ d) ++
    e.suggestion.toList.map fun s => Style.green.paint color "suggestion" ++ ": " ++ s

/-- What a command leaves behind. -/
structure Result where
  exitCode : Nat
  screen : Screen

/-- Ends a command: a problem is explained on the error stream and makes the exit code one. -/
def conclude (color : Bool) : Ending → Result
  | (screen, .ok ()) => ⟨0, screen⟩
  | (screen, .error problem) =>
    ⟨1, screen.complain (explanationLines color problem.explain)⟩

/-- The messages that are logged while a command runs. -/
def Invocation.logFilter (i : Invocation) : String :=
  if i.verbose then "wiregen=debug" else if i.quiet then "error" else "wiregen=warn"

/-- A command line from the arguments to what it leaves. -/
def execute (m : Machine) (args : List String) : Except UsageError (Invocation × Result) := do
  let invocation ← parse args
  return (invocation, conclude m.color (perform m invocation))

end Wiring.Command
