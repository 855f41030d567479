/-
**Configuration.**

The settings of a run come from defaults, from a file `wiregen.toml` in the directory of the module
or a file that is named, and from the environment; the later ones win.

Main definitions:

* `Wiring.Config` — the settings;
* `Wiring.Config.parse`, `Wiring.Config.ofFile` — reading a file;
* `Wiring.Config.withEnv` — the environment on top;
* `Wiring.Config.load` — all of it.
-/

import Wiring.Options
import Wiring.Problem
import Wiring.Loading.Module
import Wiring.Text.Blank

set_option autoImplicit false

namespace Wiring

/-- The settings of a run. -/
structure Config where
  options : Options := {}
  /-- How many injectors are worked on at once; without a number the machine decides. -/
  maxWorkers : Option Nat := none
  isLazy : Bool := false
deriving DecidableEq, Inhabited

namespace Config

open Toml

/-- The policy with a given written name. -/
def policyOfText? : String → Option Policy
  | "strict" => some .strict
  | "first-match" => some .firstMatch
  | _ => none

/-- The options of a run, in the order of their keys. -/
def optionKeys : List String :=
  ["output_file", "header", "emit_generated_header", "tags", "duplicate_policy", "optimized"]

/-- The options of a run.  Keys that mean nothing are passed over. -/
def readOptions (value : Value) : Option Options := do
  let entries ← value.record? optionKeys
  return {
    outputFile := ← withDefault entries "output_file" Value.text? "wire_gen.rs"
    header := ← optional entries "header" Value.text?
    banner := ← withDefault entries "emit_generated_header" Value.bool? true
    tags := ← withDefault entries "tags" Value.texts? []
    policy := ← withDefault entries "duplicate_policy" (Value.word? policyOfText?) .strict
    optimized := ← withDefault entries "optimized" Value.bool? true }

/-- The keys of a configuration; no other is allowed. -/
def keys : List String :=
  ["generate", "max_workers", "lazy"]

/-- What a configuration file says. -/
def readFile (value : Value) : Option Config := do
  let entries ← value.closed? keys
  return {
    options := ← withDefault entries "generate" readOptions {}
    maxWorkers := ← optional entries "max_workers" Value.nat?
    isLazy := ← withDefault entries "lazy" Value.bool? false }

/-- What the text of a configuration file says. -/
def parse (text : String) : Except Refusal Config :=
  parseAs readFile text

/-- Reads a configuration file. -/
def ofFile (disk : Disk) (file : Path) : Except Problem Config :=
  match disk.readText file with
  | .error fault =>
    .error { cause := .ofFault fault, contexts := ["Failed to read config file: " ++ file.text] }
  | .ok text =>
    match parse text with
    | .ok config => .ok config
    | .error refusal =>
      .error {
        cause := .toml refusal.text
        contexts := ["Failed to parse config file: " ++ file.text] }

/-! ### The environment -/

/-- The variable for the number of workers. -/
def workersVariable : String := "WIREGEN_MAX_WORKERS"

/-- The variable for the way of loading. -/
def lazyVariable : String := "WIREGEN_LAZY"

/-- The number that decimal digits stand for, perhaps after a plus sign.  It has no more than 64
bits. -/
def wholeNumber? (text : String) : Option Nat :=
  let digits :=
    match text.toList with
    | '+' :: rest => rest
    | cs => cs
  if digits ≠ [] && digits.all Char.isDigit then
    let n := digitsValue 10 digits
    if n < UInt64.size then some n else none
  else none

/-- The problem that a wrong setting is. -/
def wrong (message : String) : Problem :=
  { cause := .failure (.config message) }

/-- The number of workers that a text asks for. -/
def readWorkers (text : String) : Except Problem Nat :=
  match wholeNumber? (Text.trim text) with
  | none => .error (wrong (workersVariable ++ " must be a positive integer, got '" ++ text ++ "'"))
  | some 0 => .error (wrong (workersVariable ++ " must be at least 1"))
  | some n => .ok n

/-- The way of loading that a text asks for. -/
def readLazy (text : String) : Except Problem Bool :=
  let word := Text.lower (Text.trim text)
  if ["1", "true", "yes"].contains word then .ok true
  else if ["0", "false", "no", ""].contains word then .ok false
  else
    .error ((wrong (lazyVariable ++ " must be true or false, got '" ++ text ++ "'")).within
      "Invalid environment override")

/-- The settings with the environment on top. -/
def withEnv (config : Config) (var? : String → Option String) : Except Problem Config := do
  let maxWorkers ← match var? workersVariable with
    | some text => (readWorkers text).map some
    | none => pure config.maxWorkers
  let isLazy ← match var? lazyVariable with
    | some text => readLazy text
    | none => pure config.isLazy
  return { config with maxWorkers, isLazy }

/-! ### All layers -/

/-- The name of the file in the directory of the module. -/
def fileName : String := "wiregen.toml"

/-- The configuration file of the module around a directory. -/
def find? (disk : Disk) (workingDir : Path) : Option Path := do
  let root ← workingDir.ancestors.find? fun dir => disk.isFile (dir.join ⟨Module.fileName⟩)
  let file := root.join ⟨fileName⟩
  if disk.isFile file then some file else none

/-- The settings of a run that is started in a directory, from the named file if there is one. -/
def load (disk : Disk) (workingDir : Path) (explicit : Option Path)
    (var? : String → Option String) : Except Problem Config := do
  let config ← match explicit <|> find? disk workingDir with
    | some file => ofFile disk file
    | none => pure {}
  config.withEnv var?

/-- How many injectors are worked on at once, on a machine that would take `machine`. -/
def workers (config : Config) (machine : Nat) : Nat :=
  max (config.maxWorkers.getD machine) 1

/-- The strategy of a run, on a machine that would work on `machine` injectors at once. -/
def strategy (config : Config) (machine : Nat) : Strategy :=
  .ofSettings (config.workers machine) config.isLazy

end Config

end Wiring
