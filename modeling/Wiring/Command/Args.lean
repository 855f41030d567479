/-
**The command line.**

A command line has options of its own, then a subcommand with further options and patterns.  An
option with a value takes it from behind an equals sign or from the next argument; short options may
be written together.  An option is only complete when the next one comes, so that of two mistakes
the one that is met first by this rule is reported.

Main definitions:

* `Wiring.Command.Invocation` — what a command line asks for;
* `Wiring.Command.UsageError` — why there is none;
* `Wiring.Command.parse` — reading the arguments.
-/

import Wiring.Disk.Path

set_option autoImplicit false

namespace Wiring.Command

/-- Why a command line asks for nothing that can be done. -/
inductive UsageError where
  /-- Help was asked for. -/
  | displayHelp
  /-- The version was asked for. -/
  | displayVersion
  /-- There are no arguments at all. -/
  | helpOnMissing
  | missingSubcommand
  | invalidSubcommand
  | unknownArgument
  /-- Two options exclude each other, or one is given twice. -/
  | argumentConflict
  /-- A value is not a number in range. -/
  | valueValidation
  /-- A value is missing, empty, or not one of the words that are allowed. -/
  | invalidValue
  /-- An option that takes no value has one. -/
  | tooManyValues
deriving DecidableEq, Inhabited

/-- The exit code after a usage error.  Asking for help or the version is no mistake. -/
def UsageError.exitCode : UsageError → Nat
  | displayHelp | displayVersion => 0
  | _ => 2

/-- What a command line can set. -/
inductive Key where
  | verbose
  | quiet
  | config
  | help
  | version
  | patterns
  | maxParallel
  | lazy
  | tags
  | naive
  | dryRun
  | headerFile
  | format
deriving DecidableEq, Inhabited

/-- What an option takes. -/
inductive Kind where
  /-- No value. -/
  | flag
  /-- No value; nothing after it is read. -/
  | final (error : UsageError)
  /-- A path that is not empty. -/
  | path
  /-- A number from one to the largest of 16 bits. -/
  | count
  /-- One of some words. -/
  | word (words : List String)
  /-- Texts separated by commas; the option may be given several times. -/
  | texts
  /-- Texts, each an argument of its own. -/
  | operands
deriving Inhabited

/-- What each key takes. -/
def Key.kind : Key → Kind
  | verbose | quiet | lazy | naive | dryRun => .flag
  | help => .final .displayHelp
  | version => .final .displayVersion
  | config | headerFile => .path
  | maxParallel => .count
  | format => .word ["text", "json"]
  | tags => .texts
  | patterns => .operands

/-- An option of a command: its key, its long name and perhaps a letter. -/
structure Spec where
  key : Key
  long : String
  short : Option Char := none

/-- A command or subcommand. -/
inductive Verb where
  /-- The command itself, without a subcommand. -/
  | top
  | gen
  | check
  | «show»
deriving DecidableEq, Inhabited

/-- The subcommand with a given name. -/
def Verb.ofText? : String → Option Verb
  | "gen" => some gen
  | "check" => some check
  | "show" => some «show»
  | _ => none

/-- The options that every command has. -/
def sharedSpecs : List Spec :=
  [⟨.verbose, "verbose", some 'v'⟩, ⟨.quiet, "quiet", some 'q'⟩, ⟨.config, "config", some 'c'⟩,
    ⟨.help, "help", some 'h'⟩]

/-- The options that every subcommand has. -/
def runSpecs : List Spec :=
  [{ key := .maxParallel, long := "max-parallel" }, { key := .lazy, long := "lazy" },
    { key := .tags, long := "tags" }]

/-- The options of a command. -/
def Verb.specs : Verb → List Spec
  | top => sharedSpecs ++ [⟨.version, "version", some 'V'⟩]
  | gen => sharedSpecs ++ runSpecs ++
    [{ key := .naive, long := "naive" }, { key := .dryRun, long := "dry-run" },
      { key := .headerFile, long := "header-file" }]
  | check => sharedSpecs ++ runSpecs
  | «show» => sharedSpecs ++ runSpecs ++ [{ key := .format, long := "format" }]

/-- The options of one command that have been read. -/
structure Reading where
  /-- The options that are complete, with their values. -/
  given : List (Key × List String) := []
  /-- The option that may still get a value, with what it has. -/
  pending : Option (Key × List String) := none
deriving Inhabited

namespace Reading

/-- Whether an option is complete. -/
def has (r : Reading) (key : Key) : Bool :=
  r.given.any fun e => e.1 = key

/-- The values of an option. -/
def values (r : Reading) (key : Key) : List String :=
  (r.given.filter fun e => e.1 = key).flatMap Prod.snd

/-- A whole number with an optional sign, if a text is one. -/
def integer? (text : String) : Option Int :=
  let (negative, digits) :=
    match text.toList with
    | '+' :: rest => (false, rest)
    | '-' :: rest => (true, rest)
    | cs => (false, cs)
  if digits ≠ [] && digits.all Char.isDigit then
    let n : Int := digits.foldl (fun n c => 10 * n + (c.toNat - 48)) (0 : Nat)
    some (if negative then -n else n)
  else none

/-- Whether a text is a number from one to the largest of 16 bits. -/
def isCount (text : String) : Bool :=
  (integer? text).any fun n => 1 ≤ n && n ≤ 65535

/-- Checks the value of an option. -/
def checkValue (kind : Kind) (value : String) : Except UsageError Unit :=
  match kind with
  | .path => if value = "" then .error .invalidValue else .ok ()
  | .count => if isCount value then .ok () else .error .valueValidation
  | .word words => if words.contains value then .ok () else .error .invalidValue
  | _ => .ok ()

/-- The values that an argument holds. -/
def splitValue (kind : Kind) (value : String) : List String :=
  match kind with
  | .texts => Text.fields ',' value
  | _ => [value]

/-- Whether an option may be given several times. -/
def mayRepeat : Kind → Bool
  | .texts | .operands => true
  | _ => false

/-- Completes an option with what it has been given. -/
def complete (r : Reading) (key : Key) (values : List String) : Except UsageError Reading := do
  let takesValue :=
    match key.kind with
    | .flag | .final _ => false
    | _ => true
  if takesValue && values.isEmpty then throw .invalidValue
  if let .final error := key.kind then throw error
  if r.has key && !mayRepeat key.kind then throw .argumentConflict
  values.forM (checkValue key.kind)
  return { r with given := r.given ++ [(key, values.flatMap (splitValue key.kind))] }

/-- Completes the option that may still get a value. -/
def settle (r : Reading) : Except UsageError Reading :=
  match r.pending with
  | none => .ok r
  | some (key, values) => complete { r with pending := none } key values

/-- Reads an option that takes no value, or has its value with it. -/
def take (r : Reading) (key : Key) (values : List String) : Except UsageError Reading := do
  complete (← r.settle) key values

/-- Reads an option whose value is still to come. -/
def await (r : Reading) (key : Key) : Except UsageError Reading := do
  return { (← r.settle) with pending := some (key, []) }

/-- The option that waits for its value. -/
def waiting? (r : Reading) : Option Key :=
  match r.pending with
  | some (key, []) => some key
  | _ => none

/-- Gives the waiting option its value. -/
def supply (r : Reading) (key : Key) (value : String) : Reading :=
  { r with pending := some (key, [value]) }

/-- Reads a pattern. -/
def operand (r : Reading) (value : String) : Except UsageError Reading :=
  match r.pending with
  | some (.patterns, values) => .ok { r with pending := some (.patterns, values ++ [value]) }
  | _ => do return { (← r.settle) with pending := some (.patterns, [value]) }

/-- Whether a key takes no value. -/
def isBare (key : Key) : Bool :=
  match key.kind with
  | .flag | .final _ => true
  | _ => false

/-- Cuts a text at its first equals sign. -/
def cutEquals (cs : List Char) : List Char × Option (List Char) :=
  match cs.span (· ≠ '=') with
  | (name, '=' :: value) => (name, some value)
  | (name, _) => (name, none)

/-- Reads a long option, without its two dashes. -/
def long (r : Reading) (specs : List Spec) (cs : List Char) : Except UsageError Reading :=
  let (name, value) := cutEquals cs
  match specs.find? fun s => s.long = String.ofList name with
  | none => .error .unknownArgument
  | some spec =>
    match value with
    | none => if isBare spec.key then r.take spec.key [] else r.await spec.key
    | some value =>
      if isBare spec.key then .error .tooManyValues
      else r.take spec.key [String.ofList value]

/-- Reads short options written together, without their dash.  What follows the letter of an option
that takes a value is its value. -/
def shorts (specs : List Spec) : List Char → Reading → Except UsageError Reading
  | [], r => .ok r
  | c :: rest, r =>
    match specs.find? fun s => s.short = some c with
    | none => .error .unknownArgument
    | some spec =>
      if isBare spec.key then do shorts specs rest (← r.take spec.key [])
      else match rest with
        | [] => r.await spec.key
        | '=' :: value => r.take spec.key [String.ofList value]
        | value => r.take spec.key [String.ofList value]

end Reading

/-- Where the reading of one command ends. -/
inductive Stop where
  /-- At the end of the arguments. -/
  | done
  /-- At a subcommand, with the arguments behind it. -/
  | verb (verb : Verb) (rest : List String)
  /-- At the subcommand that explains others, with the arguments behind it. -/
  | help (rest : List String)

/-- The subcommand that an argument starts, if it starts one here. -/
def stopAt? (verb : Verb) (arg : String) (rest : List String) : Option Stop :=
  if verb ≠ .top then none
  else if arg = "help" then some (.help rest)
  else (Verb.ofText? arg).map fun v => .verb v rest

/-- Reads an argument that is neither an option nor the value of one. -/
def readOperand (verb : Verb) (afterDashes : Bool) (arg : String) (r : Reading) :
    Except UsageError Reading :=
  if verb ≠ .top then r.operand arg
  else if afterDashes && (stopAt? .top arg []).isSome then .error .unknownArgument
  else .error .invalidSubcommand

/-- Reads the arguments of one command. -/
def readArgs (verb : Verb) (afterDashes : Bool) (r : Reading) :
    List String → Except UsageError (Reading × Stop)
  | [] => .ok (r, .done)
  | arg :: rest =>
    if afterDashes then do readArgs verb true (← readOperand verb true arg r) rest
    else match (if r.waiting?.isNone then stopAt? verb arg rest else none) with
    | some stop => .ok (r, stop)
    | none =>
      match arg.toList with
      | ['-', '-'] => readArgs verb true r rest
      | '-' :: '-' :: name => do readArgs verb false (← r.long verb.specs name) rest
      | '-' :: c :: cs => do
        readArgs verb false (← Reading.shorts verb.specs (c :: cs) r) rest
      | _ =>
        match r.waiting? with
        | some key => readArgs verb false (r.supply key arg) rest
        | none => do readArgs verb false (← readOperand verb false arg r) rest

/-- The options that exclude each other. -/
def conflicts : List (Key × Key) :=
  [(.verbose, .quiet), (.naive, .maxParallel), (.naive, .lazy)]

/-- Refuses options that exclude each other. -/
def checkConflicts (r : Reading) : Except UsageError Unit :=
  if conflicts.any fun c => r.has c.1 && r.has c.2 then .error .argumentConflict else .ok ()

/-- What to generate and how. -/
structure RunArgs where
  patterns : List String := ["."]
  maxParallel : Option Nat := none
  isLazy : Bool := false
  tags : List String := []
deriving DecidableEq, Inhabited

/-- The form in which plans are shown. -/
inductive Format where
  | text
  | json
deriving DecidableEq, Inhabited

/-- What is to be done. -/
inductive Action where
  /-- Generate code and write it. -/
  | gen (run : RunArgs) (naive dryRun : Bool) (headerFile : Option Path)
  /-- Report problems and write nothing. -/
  | check (run : RunArgs)
  /-- Print plans. -/
  | «show» (run : RunArgs) (format : Format)
deriving DecidableEq, Inhabited

/-- What a command line asks for. -/
structure Invocation where
  verbose : Bool := false
  quiet : Bool := false
  config : Option Path := none
  action : Action
deriving DecidableEq, Inhabited

/-- The run that the options of a subcommand describe. -/
def Reading.run (r : Reading) : RunArgs where
  patterns := if r.has .patterns then r.values .patterns else ["."]
  maxParallel := ((r.values .maxParallel).head?.bind Reading.integer?).map Int.toNat
  isLazy := r.has .lazy
  tags := r.values .tags

/-- The action that a subcommand with its options describes. -/
def Reading.action (r : Reading) : Verb → Option Action
  | .top => none
  | .gen =>
    some (.gen r.run (r.has .naive) (r.has .dryRun) ((r.values .headerFile).head?.map Path.mk))
  | .check => some (.check r.run)
  | .show => some (.show r.run (if r.values .format = ["json"] then .json else .text))

/-- Checks a command line that names no subcommand. -/
def withoutVerb (r : Reading) : UsageError :=
  if r.given.isEmpty then .helpOnMissing else .missingSubcommand

/-- Explains subcommands, which takes the names of at most one. -/
def explainVerb : List String → UsageError
  | [] => .displayHelp
  | [name] =>
    if name = "help" || (Verb.ofText? name).isSome then .displayHelp else .invalidSubcommand
  | _ => .invalidSubcommand

/-- Reads a subcommand to its end. -/
def readVerb (verb : Verb) (args : List String) : Except UsageError Reading := do
  let (r, _) ← readArgs verb false {} args
  let r ← r.settle
  checkConflicts r
  return r

/-- What a command line with a subcommand asks for.  An option that all commands have may stand
before or behind the subcommand; of two values the one behind counts. -/
def combine (top sub : Reading) (action : Action) : Invocation where
  verbose := top.has .verbose || sub.has .verbose
  quiet := top.has .quiet || sub.has .quiet
  config := ((sub.values .config).head? <|> (top.values .config).head?).map Path.mk
  action := action

/-- What a command line asks for. -/
def parse (args : List String) : Except UsageError Invocation := do
  let (top, stop) ← readArgs .top false {} args
  match stop with
  | .help rest => throw (explainVerb rest)
  | .done => throw (withoutVerb (← top.settle))
  | .verb verb rest =>
    let sub ← readVerb verb rest
    let top ← top.settle
    checkConflicts top
    match sub.action verb with
    | some action => return combine top sub action
    | none => throw .missingSubcommand

end Wiring.Command
