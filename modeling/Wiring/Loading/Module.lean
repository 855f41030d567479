/-
**Modules.**

A module is a directory with a file `wire.mod`, which gives the module its path.  Packages are the
directories at and below it: the path of a package is that of the module, continued by the names on
the way from the module's directory.  The system holds these names as bytes.  A path of a package is
a text, and a name that is none goes into it as it is shown.

Main definitions:

* `Wiring.Module`, `Wiring.Module.discover` — a module, and finding the one around a directory;
* `Wiring.RawModule` — a module whose directory is given as the system holds it;
* `Wiring.RawModule.packagePath?`, `Wiring.RawModule.packageDir?` — from directories to package paths
  and back;
* `Wiring.Module.packagePath?`, `Wiring.Module.packageDir?` — the same for directories that are texts.
-/

import Wiring.Disk.Basic
import Wiring.Disk.RawPath
import Wiring.Toml.Decode
import Wiring.Toml.Document

set_option autoImplicit false

namespace Wiring

/-- A directory and the package path that it has. -/
structure Module (π : Type := Path) where
  root : π
  path : String
deriving DecidableEq, Inhabited

/-- A module whose directory is given as the system holds it. -/
abbrev RawModule := Module RawPath

namespace Module

/-- The file that makes a directory a module. -/
def fileName : String := "wire.mod"

/-- Takes the slashes off the end of a text. -/
def trimSlashes (text : String) : String :=
  String.ofList ((text.toList.reverse.dropWhile (· = '/')).reverse)

/-- The path that a module file declares. -/
def declaredPath (text : String) : Except Toml.Refusal String :=
  Toml.parseAs (fun value => do
    let entries ← value.record? ["module"]
    Toml.need entries "module" Toml.Value.text?) text

/-- The module that a file declares for its directory. -/
def ofFile (disk : Disk) (root file : Path) : Except String Module :=
  match disk.readText file with
  | .error fault => .error ("cannot read " ++ file.text ++ ": " ++ fault.text)
  | .ok text =>
    match declaredPath text with
    | .error refusal => .error ("invalid " ++ file.text ++ ": " ++ refusal.text)
    | .ok declared =>
      let path := trimSlashes declared
      if path = "" then .error (file.text ++ " declares an empty module path")
      else .ok { root, path }

/-- The module around a directory: the nearest one on the way up. -/
def discover (disk : Disk) (start : Path) : Except String Module :=
  match disk.canonical start with
  | .error fault =>
    .error ("cannot access working directory " ++ start.text ++ ": " ++ fault.text)
  | .ok start =>
    match start.ancestors.find? fun dir => disk.exists (dir.join ⟨fileName⟩) with
    | some dir => ofFile disk dir (dir.join ⟨fileName⟩)
    | none =>
      .error ("no " ++ fileName ++ " found in " ++ start.text ++ " or any parent directory")

/-- The module with its directory as the system holds it. -/
def raw (m : Module) : RawModule where
  root := m.root.raw
  path := m.path

/-- Continues a package path by the steps from the module's directory, each name as it is shown.  A
step up leads out of the module. -/
def continuePath (path : String) : List (Component RawName) → Option String
  | [] => some path
  | .normal name :: rest => continuePath (path ++ "/" ++ RawName.shown name) rest
  | .current :: rest => continuePath path rest
  | _ :: _ => none

/-- The segments of a package path behind that of the module, if it continues that one. -/
def segments? {π : Type} (m : Module π) (pkg : String) : Option (List String) :=
  if pkg = m.path then some []
  else (Text.afterStart? (m.path ++ "/") pkg).map (Text.fields '/')

end Module

namespace RawModule

/-- The path of the package in a directory, if it lies in the module. -/
def packagePath? (m : RawModule) (dir : RawPath) : Option String :=
  (m.root.stepsFrom? dir).bind (Module.continuePath m.path)

/-- The directory of a package, if its path continues that of the module. -/
def packageDir? (m : RawModule) (pkg : String) : Option RawPath :=
  (m.segments? pkg).map fun parts =>
    parts.foldl (fun (dir : RawPath) part => dir.join (.ofText part)) m.root

end RawModule

namespace Module

/-- The path of the package in a directory that is a text. -/
def packagePath? (m : Module) (dir : Path) : Option String :=
  m.raw.packagePath? dir.raw

/-- The directory of a package as a text, if its path continues that of the module. -/
def packageDir? (m : Module) (pkg : String) : Option Path :=
  (m.segments? pkg).map fun parts =>
    parts.foldl (fun (dir : Path) part => dir.join ⟨part⟩) m.root

end Module

end Wiring
