/-
**The program.**

The files that a command may look at are named on the standard input, one on each line.  They are
read into a disk, the command is done there, and the files that it has changed are written back.

Main definitions:

* `Wiring.Program.readDisk`, `Wiring.Program.writeBack` — between the files and the disk;
* `main` — the program.
-/

import Wiring.Command.Run

set_option autoImplicit false

namespace Wiring.Program

/-- How the program is called. -/
def usage : String :=
  "usage: wiregen [--verbose | --quiet] [--config FILE] (gen | check | show) [OPTIONS] [PATTERNS]"

/-- The names on the standard input. -/
def readNames (input : IO.FS.Stream) : IO (List String) := do
  let mut names := []
  repeat
    let line ← input.getLine
    if line.isEmpty then break
    let name := Text.trim line
    if name ≠ "" then names := name :: names
  return names.reverse

/-- The place of a path that is taken from another place. -/
def placeOf (here : Location) (p : Path) : Location :=
  p.components.foldl (fun (loc : Location) step =>
    match step with
    | .root => []
    | .current => loc
    | .parent => loc.dropLast
    | .normal name => loc ++ [name]) here

/-- A disk with the named files. -/
def readDisk (names : List String) : IO Disk := do
  let here := placeOf [] ⟨toString (← IO.currentDir)⟩
  let mut disk : Disk := { here }
  if here ≠ [] then disk := disk.putAt here .folder
  for name in names do
    let bytes ← IO.FS.readBinFile name
    disk := disk.putAt (placeOf here ⟨name⟩) (.file bytes.toList 0)
  return disk

/-- Writes the files that are new or different. -/
def writeBack (before after : Disk) : IO Unit := do
  for (loc, node) in after.nodes.entries do
    if before.node? loc ≠ some node then
      match node with
      | .folder => IO.FS.createDirAll (Path.ofNames loc).text
      | .file bytes _ => IO.FS.writeBinFile (Path.ofNames loc).text ⟨bytes.toArray⟩

/-- The variables that the program looks at, as they are set. -/
def readEnv : IO (List (String × String)) := do
  let names := [Config.workersVariable, Config.lazyVariable, Manifest.tagsVariable]
  let values ← names.mapM fun name => return (← IO.getEnv name).map fun value => (name, value)
  return values.filterMap id

/-- Does a command line and answers with the exit code. -/
def run (args : List String) : IO UInt32 := do
  let (stdin, stdout, stderr) := (← IO.getStdin, ← IO.getStdout, ← IO.getStderr)
  let disk ← readDisk (← readNames stdin)
  let color := (← stdout.isTty) && (← IO.getEnv "NO_COLOR").isNone
  match Command.execute { disk, env := ← readEnv, color } args with
  | .error e =>
    stderr.putStrLn usage
    return e.exitCode.toUInt32
  | .ok (_, result) =>
    writeBack disk result.screen.disk
    stdout.putStr result.screen.stdout
    stderr.putStr result.screen.stderr
    return result.exitCode.toUInt32

end Wiring.Program

/-- The program. -/
def main (args : List String) : IO UInt32 :=
  Wiring.Program.run args
