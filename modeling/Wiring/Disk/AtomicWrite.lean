/-
**Atomic writes.**

A file is written to a temporary file beside it, which then takes its name, so that no reader sees
half of it.  A file that holds the wanted bytes is left alone.  Several files are all attempted,
whichever of them fail.

Main definitions:

* `Wiring.Disk.ensureFolder` — makes a folder unless something is there;
* `Wiring.Disk.writeAtomic` — writes one file;
* `Wiring.Disk.writeAll` — writes several and lists every failure.
-/

import Wiring.Problem
import Wiring.Text.Quoted

set_option autoImplicit false

namespace Wiring

/-- What became of a file. -/
inductive WriteStatus where
  /-- It was not there, or held something else. -/
  | written
  /-- It held the wanted bytes already. -/
  | unchanged
deriving DecidableEq, Inhabited

namespace Disk

/-- The problem that a fault is, in one context. -/
def problemIn (context : String) (fault : DiskFault) : Problem :=
  { cause := .ofFault fault, contexts := [context] }

/-- Makes a folder and all that are missing on the way to it, unless something is there. -/
def ensureFolder (disk : Disk) (p : Path) : Disk × Except Problem Unit :=
  if disk.exists p then (disk, .ok ())
  else match disk.createFolders p with
    | (made, .ok ()) => (made, .ok ())
    | (made, .error fault) =>
      (made, .error (problemIn ("Failed to create directory: " ++ p.text) fault))

/-- The folder that the temporary file for a path is put in. -/
def folderFor (p : Path) : Path :=
  match p.parent? with
  | some parent => if parent.text = "" then ⟨"."⟩ else parent
  | none => ⟨"."⟩

/-- The name of a temporary file. -/
def temporaryName : String := ".tmp000000"

/-- Whether a temporary file can be put in a folder. -/
def checkTemporary (disk : Disk) (folder : Path) : Except Problem Unit :=
  match disk.find (folder.join ⟨temporaryName⟩), disk.target (folder.join ⟨temporaryName⟩) with
  | .error .notFound, .ok _ => .ok ()
  | .ok _, _ => .ok ()
  | .error .notFound, .error fault | .error fault, _ =>
    let absolute := (Path.ofNames disk.here).join (folder.join ⟨temporaryName⟩)
    let kind := if fault = .notFound then SystemErrorKind.notFound else .other
    .error
      { cause := .system kind (fault.text ++ " at path " ++ Text.quote absolute.text)
        contexts := ["Failed to create temp file in: " ++ folder.text] }

/-- The problem that arises when the temporary file cannot take the name of its path. -/
def renameProblem (p : Path) (message : String) : Problem :=
  { cause := .plain message
    contexts := ["failed to persist temporary file: " ++ message,
      "Failed to rename temp file to: " ++ p.text] }

/-- The problem that a refusal is, when a path is to be given its bytes. -/
def refusalProblem (p : Path) (refusal : WriteRefusal) : Problem :=
  let cause := Cause.system refusal.kind refusal.message
  match refusal.stage with
  | .creating => { cause, contexts := ["Failed to create temp file in: " ++ (folderFor p).text] }
  | .filling _ => { cause, contexts := ["Failed to write to temp file for: " ++ p.text] }
  | .syncing => { cause, contexts := ["Failed to sync file to disk"] }
  | .renaming => renameProblem p refusal.message

/-- Whether a path leads to a file with exactly the given bytes. -/
def holds (disk : Disk) (p : Path) (bytes : List UInt8) : Bool :=
  match disk.read p with
  | .ok held => held = bytes
  | .error _ => false

/-- Gives a path the wanted bytes.  The folders on the way are made as needed and stay, and a temporary file
that could not take the name of the path is removed. -/
def writeAtomic (disk : Disk) (p : Path) (bytes : List UInt8) :
    Disk × Except Problem WriteStatus :=
  if disk.holds p bytes then (disk, .ok .unchanged)
  else
    let folder := folderFor p
    match disk.ensureFolder folder with
    | (made, .error problem) => (made, .error problem)
    | (made, .ok ()) =>
      match made.checkTemporary folder with
      | .error problem => (made, .error problem)
      | .ok () =>
        match made.refuses p bytes with
        | some refusal => (made, .error (refusalProblem p refusal))
        | none =>
          match made.install p bytes with
          | .ok written => (written, .ok .written)
          | .error fault => (made, .error (renameProblem p fault.text))

/-- Writes files one after the other, whatever becomes of each. -/
def writeEach (disk : Disk) : List (Path × List UInt8) → Disk × List (Except Problem WriteStatus)
  | [] => (disk, [])
  | (p, bytes) :: rest =>
    let (after, result) := disk.writeAtomic p bytes
    let (last, results) := after.writeEach rest
    (last, result :: results)

/-- The problems among some results. -/
def problemsOf (results : List (Except Problem WriteStatus)) : List Problem :=
  results.filterMap fun
    | .ok _ => none
    | .error problem => some problem

/-- The statuses among some results. -/
def statusesOf (results : List (Except Problem WriteStatus)) : List WriteStatus :=
  results.filterMap fun
    | .ok status => some status
    | .error _ => none

/-- Writes several files.  All are attempted; if any fails the problem lists every failure. -/
def writeAll (disk : Disk) (files : List (Path × List UInt8)) :
    Disk × Except Problem (List WriteStatus) :=
  let (after, results) := disk.writeEach files
  match problemsOf results with
  | [] => (after, .ok (statusesOf results))
  | problems =>
    (after, .error { cause := .plain ("Failed to write " ++ toString problems.length ++
      " files:\n" ++ Text.join "\n" (problems.map fun p => "  " ++ p.text)) })

end Disk

end Wiring
