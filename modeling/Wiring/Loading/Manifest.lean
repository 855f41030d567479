/-
**Declaration files.**

A package is declared by the files `wire.toml` and `*.wire.toml` of its directory.  A file may carry
tags and then only counts when all of them are enabled.

Main definitions:

* `Wiring.Manifest`, `Wiring.Manifest.parse` — what one file declares;
* `Wiring.Manifest.loadPackage` — the package in a directory;
* `Wiring.Manifest.expand` — the packages that a pattern names;
* `Wiring.Manifest.load` — the answer to a request;
* `Wiring.Manifest.loader` — all of it as a loader.
-/

import Wiring.Loading.Loader
import Wiring.Loading.Module
import Wiring.Text.Blank

set_option autoImplicit false

namespace Wiring

/-- What a declaration file holds. -/
structure Manifest where
  tags : List String := []
  /-- The declared types by name, in ascending order. -/
  types : List (String × TypeInfo) := []
  providers : List ProviderDecl := []
  sets : List SetDecl := []
  injectors : List InjectorDecl := []
deriving Inhabited

namespace Manifest

open Toml

/-! ### Reading a file -/

/-- A field of a struct. -/
def readField (value : Value) : Option FieldDecl := do
  let entries ← value.record? ["name", "type"]
  return { name := ← need entries "name" Value.text?, type := ← need entries "type" Value.text? }

/-- A type. -/
def readType (value : Value) : Option TypeInfo := do
  let entries ← value.record? ["kind", "fields"]
  return {
    kind := ← withDefault entries "kind" (Value.word? TypeKind.ofText?) .other
    fields := ← withDefault entries "fields" (Value.list? readField) [] }

/-- The fields of a provider declaration, in order. -/
def providerKeys : List String :=
  ["name", "kind", "inputs", "output", "expr", "struct", "fields", "interface", "concrete",
    "returns_error", "cleanup"]

/-- A provider declaration. -/
def readProvider (value : Value) : Option ProviderDecl := do
  let entries ← value.record? providerKeys
  return {
    name := ← need entries "name" Value.text?
    kind := ← withDefault entries "kind" (Value.word? DeclKind.ofText?) .function
    inputs := ← withDefault entries "inputs" Value.texts? []
    output := ← optional entries "output" Value.text?
    expr := ← optional entries "expr" Value.text?
    structType := ← optional entries "struct" Value.text?
    fields := ← withDefault entries "fields" Value.texts? []
    interface := ← optional entries "interface" Value.text?
    concrete := ← optional entries "concrete" Value.text?
    fallible := ← withDefault entries "returns_error" Value.bool? false
    cleanup := ← withDefault entries "cleanup" Value.bool? false }

/-- A set declaration. -/
def readSet (value : Value) : Option SetDecl := do
  let entries ← value.record? ["name", "providers", "sets"]
  return {
    name := ← need entries "name" Value.text?
    providers := ← withDefault entries "providers" Value.texts? []
    sets := ← withDefault entries "sets" Value.texts? [] }

/-- The fields of an injector declaration, in order. -/
def injectorKeys : List String :=
  ["name", "inputs", "outputs", "providers", "sets", "tags", "returns_error", "cleanup"]

/-- An injector declaration. -/
def readInjector (value : Value) : Option InjectorDecl := do
  let entries ← value.record? injectorKeys
  return {
    name := ← need entries "name" Value.text?
    inputs := ← withDefault entries "inputs" Value.texts? []
    outputs := ← withDefault entries "outputs" Value.texts? []
    providers := ← withDefault entries "providers" Value.texts? []
    sets := ← withDefault entries "sets" Value.texts? []
    tags := ← withDefault entries "tags" Value.texts? []
    fallible := ← withDefault entries "returns_error" Value.bool? false
    cleanup := ← withDefault entries "cleanup" Value.bool? false }

/-- The keys that a declaration file may have; no other is allowed. -/
def fileKeys : List String :=
  ["tags", "types", "provider", "set", "injector"]

/-- Types by name, in ascending order. -/
def sortTypes (types : List (String × TypeInfo)) : List (String × TypeInfo) :=
  types.mergeSort fun a b => !decide (b.1 < a.1)

/-- What a file declares. -/
def readFile (value : Value) : Option Manifest := do
  let entries ← value.closed? fileKeys
  return {
    tags := ← withDefault entries "tags" Value.texts? []
    types := sortTypes (← withDefault entries "types" (Value.entries? readType) [])
    providers := ← withDefault entries "provider" (Value.list? readProvider) []
    sets := ← withDefault entries "set" (Value.list? readSet) []
    injectors := ← withDefault entries "injector" (Value.list? readInjector) [] }

/-- What the text of a file declares. -/
def parse (text : String) : Except Refusal Manifest :=
  parseAs readFile text

/-! ### The package of a directory -/

/-- Whether a file of this name declares something. -/
def isFileName (name : String) : Bool :=
  name = "wire.toml" || (Text.beforeEnd? ".wire.toml" name).isSome

/-- Adds the types of a file to a package.  A type that is there already is a fault, and the later
declaration counts. -/
def addType (file : Path) (pkg : Package) (entry : String × TypeInfo) : Package :=
  let fault := "type " ++ entry.1 ++ " redeclared in " ++ file.text
  { pkg with
    types := pkg.types.put entry.1 entry.2
    errors := if pkg.types.contains entry.1 then pkg.errors ++ [fault] else pkg.errors }

/-- Adds what a file declares to a package. -/
def addTo (m : Manifest) (file : Path) (pkg : Package) : Package :=
  let pkg := m.types.foldl (addType file) pkg
  { pkg with
    files := pkg.files ++ [file]
    providers := pkg.providers ++ m.providers
    sets := pkg.sets ++ m.sets
    injectors := pkg.injectors ++ m.injectors }

/-- A package on its way, and the record of its files. -/
structure Draft where
  pkg : Package
  ledger : FileLedger := {}

/-- Reads a file into a package.  One whose tags are not all enabled is left out, but it has to be
well formed. -/
def Draft.readFile (disk : Disk) (tags : List String) (d : Draft) (file : Path) :
    Except LoadError Draft := do
  let text ← match disk.readText file with
    | .ok text => pure text
    | .error fault => throw ⟨d.pkg.path, "cannot read " ++ file.text ++ ": " ++ fault.text⟩
  match parse text with
  | .error refusal => throw ⟨d.pkg.path, file.text ++ ": " ++ refusal.text⟩
  | .ok m =>
    if m.tags.all tags.contains then
      let record := FileRecord.present (disk.stat file).toOption (Text.encode text)
      return { pkg := m.addTo file d.pkg, ledger := d.ledger.record file record }
    else return d

theorem Draft.readFile_of_parse {disk : Disk} {file : Path} {text : String} {m : Manifest}
    (htext : disk.readText file = .ok text) (hparse : parse text = .ok m) (tags : List String) (d : Draft) :
    d.readFile disk tags file = .ok
      (if m.tags.all tags.contains then
        { pkg := m.addTo file d.pkg
          ledger := d.ledger.record file (.present (disk.stat file).toOption (Text.encode text)) }
      else d) := by
  unfold Draft.readFile
  rw [htext]
  simp only [pure, Except.pure, bind, Except.bind, hparse]
  split <;> rfl

/-- A file is refused for the package, or it is well formed and counts if its tags are enabled. -/
theorem Draft.readFile_cases (disk : Disk) (tags : List String) (d : Draft) (file : Path) :
    (∃ message, d.readFile disk tags file = .error ⟨d.pkg.path, message⟩) ∨
      ∃ text m, disk.readText file = .ok text ∧ parse text = .ok m ∧
        d.readFile disk tags file = .ok
          (if m.tags.all tags.contains then
            { pkg := m.addTo file d.pkg
              ledger := d.ledger.record file (.present (disk.stat file).toOption (Text.encode text)) }
          else d) := by
  cases htext : disk.readText file with
  | error fault => exact .inl ⟨_, by rw [Draft.readFile, htext]; rfl⟩
  | ok text =>
      cases hparse : parse text with
      | error refusal =>
          refine .inl ⟨file.text ++ ": " ++ refusal.text, ?_⟩
          rw [Draft.readFile, htext]
          simp only [pure, Except.pure, bind, Except.bind, hparse]
          rfl
      | ok m => exact .inr ⟨text, m, rfl, hparse, Draft.readFile_of_parse htext hparse tags d⟩

/-- The names of a package's providers, sets and injectors, in that order. -/
def declaredNames (pkg : Package) : List String :=
  pkg.providers.map ProviderDecl.name ++ pkg.sets.map SetDecl.name ++
    pkg.injectors.map InjectorDecl.name

/-- The names that stand in a list before as well. -/
def repeats (met : List String) : List String → List String
  | [] => []
  | name :: rest =>
    if name ∈ met then name :: repeats met rest else repeats (name :: met) rest

/-- The other packages that the references of a package lead to, in ascending order. -/
def importsOf (pkg : Package) : List String :=
  ((pkg.references.map fun reference => (SetId.parse reference pkg.path).pkg).filter
    (· ≠ pkg.path)).eraseDups.mergeSort fun a b => !decide (b < a)

/-- Completes a package once all its files are read. -/
def Draft.complete (d : Draft) : Package :=
  let faults := (repeats [] (declaredNames d.pkg)).map fun name =>
    name ++ " redeclared in this package"
  { d.pkg with
    errors := d.pkg.errors ++ faults
    imports := importsOf d.pkg
    fingerprint? := some d.ledger.finish }

/-- The package in a directory. -/
def loadPackage (disk : Disk) (tags : List String) (path : String) (dir : Path) :
    Except LoadError Package := do
  let names ← match disk.list dir with
    | .ok names => pure names
    | .error fault => throw ⟨path, "cannot read " ++ dir.text ++ ": " ++ fault.text⟩
  let files := (names.filter isFileName).map fun name => dir.join ⟨name⟩
  let draft ← files.foldlM (Draft.readFile disk tags) { pkg := { path, dir } }
  if draft.pkg.files = [] then throw ⟨path, "no declaration files in " ++ dir.text⟩
  return draft.complete

/-! ### Patterns -/

/-- The directory that a pattern names, and whether all directories below it are meant too. -/
def patternBase (pattern : String) : String × Bool :=
  match Text.beforeEnd? "/..." pattern with
  | some base => (base, true)
  | none => if pattern = "..." then (".", true) else (pattern, false)

/-- Whether a pattern is taken from the working directory and not from the module. -/
def isRelative (base : String) : Bool :=
  base = "." || (Text.afterStart? "./" base).isSome || (Text.afterStart? "../" base).isSome

/-- Whether a directory has a declaration file. -/
def hasFiles (disk : Disk) (loc : Location) : Bool :=
  (disk.namesAt loc).any fun name =>
    isFileName name && match disk.node? (loc ++ [name]) with
      | some (.file _ _) => true
      | _ => false

/-- The directories at and below a place that have declaration files. -/
def foldersWithFiles (disk : Disk) (loc : Location) : List Path :=
  ((disk.foldersFrom loc).filter (hasFiles disk)).map Path.ofNames

/-- A package to be loaded. -/
structure Target where
  pkg : String
  dir : Path
deriving DecidableEq, Inhabited

/-- The packages that a pattern names, with their directories. -/
def expand (disk : Disk) (m : Module) (workingDir : Path) (pattern : String) :
    Except LoadError (List Target) := do
  let (base, recursive) := patternBase pattern
  let dir ←
    if isRelative base then pure (workingDir.join ⟨base⟩)
    else match m.packageDir? base with
      | some dir => pure dir
      | none => throw ⟨pattern, "package is not inside module " ++ m.path⟩
  let loc ← match disk.locate dir with
    | .ok loc => pure loc
    | .error fault => throw ⟨pattern, "cannot access " ++ dir.text ++ ": " ++ fault.text⟩
  let dirs := if recursive then foldersWithFiles disk loc else [Path.ofNames loc]
  dirs.mapM fun dir =>
    match m.packagePath? dir with
    | some pkg => .ok ⟨pkg, dir⟩
    | none => .error ⟨pattern, dir.text ++ " is outside module " ++ m.path⟩

/-! ### Requests -/

/-- The variable that enables tags. -/
def tagsVariable : String := "WIREGEN_TAGS"

/-- The enabled tags. -/
def enabledTags (request : LoadRequest) : List String :=
  match request.var? tagsVariable with
  | none => []
  | some text => ((Text.fields ',' text).map Text.trim).filter (· ≠ "")

/-- The targets of the patterns, each package once, and the errors of the patterns. -/
def expandAll (disk : Disk) (m : Module) (workingDir : Path) (patterns : List String) :
    List Target × List LoadError :=
  patterns.foldl (fun (targets, errors) pattern =>
    match expand disk m workingDir pattern with
    | .error e => (targets, errors ++ [e])
    | .ok more =>
      (more.foldl (fun (targets : List Target) t =>
        if targets.any fun u => u.pkg = t.pkg then targets else targets ++ [t]) targets, errors))
    ([], [])

/-- A load on its way. -/
structure Progress where
  queue : List Target
  /-- The packages that have been in the queue or could not get into it. -/
  met : List String
  outcome : LoadOutcome

/-- Wants an import as well, unless it is wanted already. -/
def Progress.want (m : Module) (p : Progress) (path : String) : Progress :=
  if path ∈ p.met then p
  else
    let p := { p with met := path :: p.met }
    match m.packageDir? path with
    | some dir => { p with queue := p.queue ++ [⟨path, dir⟩] }
    | none =>
      let e : LoadError := ⟨path, "imported package is not inside module " ++ m.path⟩
      { p with outcome.errors := p.outcome.errors ++ [e] }

/-- Loads one package. -/
def Progress.take (disk : Disk) (m : Module) (mode : LoadMode) (tags : List String)
    (p : Progress) (t : Target) : Progress :=
  match loadPackage disk tags t.pkg t.dir with
  | .error e => { p with outcome.errors := p.outcome.errors ++ [e] }
  | .ok pkg =>
    let p := if mode = .withDeps then pkg.imports.foldl (Progress.want m) p else p
    { p with outcome.packages := p.outcome.packages ++ [pkg] }

/-- Loads what is in the queue, at most so many packages.  `cancelled` says whether the run has been
cancelled by the time a number of packages has been tried; what is left then is an error. -/
def Progress.run (disk : Disk) (m : Module) (mode : LoadMode) (tags : List String)
    (cancelled : Nat → Bool) (tried : Nat) : Nat → Progress → LoadOutcome
  | 0, p => p.outcome
  | n + 1, p =>
    match p.queue with
    | [] => p.outcome
    | t :: rest =>
      if cancelled tried then
        let left := (t :: rest).map fun u => LoadError.mk u.pkg loadCancelled
        { p.outcome with errors := p.outcome.errors ++ left }
      else
        Progress.run disk m mode tags cancelled (tried + 1) n
          (Progress.take disk m mode tags { p with queue := rest } t)

/-- Every set reference in the declaration files on a disk. -/
def referencesOn (disk : Disk) : List String :=
  disk.nodes.entries.flatMap fun (_, node) =>
    match node with
    | .folder => []
    | .file bytes _ =>
      match (Text.decode? bytes).bind fun text => (parse text).toOption with
      | none => []
      | some m => m.sets.flatMap SetDecl.sets ++ m.injectors.flatMap InjectorDecl.sets

/-- The answer to a request in a module.  Every package that is loaded beyond the targets is named
by a reference on disk, which bounds their number. -/
def loadIn (disk : Disk) (m : Module) (workingDir : Path) (request : LoadRequest)
    (cancelled : Nat → Bool) : LoadOutcome :=
  let (targets, errors) := expandAll disk m workingDir request.patterns
  let start : Progress :=
    { queue := targets, met := targets.map Target.pkg, outcome := { errors } }
  Progress.run disk m request.mode (enabledTags request) cancelled 0
    (targets.length + (referencesOn disk).length + 1) start

/-- The answer to a request.  Without a module every pattern fails. -/
def load (disk : Disk) (request : LoadRequest) (cancelled : Nat → Bool) : LoadOutcome :=
  match Module.discover disk request.workingDir with
  | .error message => { errors := request.patterns.map fun p => ⟨p, message⟩ }
  | .ok m =>
    match disk.canonical request.workingDir with
    | .error fault => { errors := [⟨".", fault.text⟩] }
    | .ok workingDir => loadIn disk m workingDir request cancelled

/-- The declaration files on a disk as a loader. -/
def loader (disk : Disk) : Loader where
  answer request cancelled := (load disk request fun _ => cancelled, cancelled)

end Manifest

end Wiring
