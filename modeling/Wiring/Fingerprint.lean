/-
**Fingerprints of file sets.**

A fingerprint tells whether a set of files has changed since it was taken.  The content fingerprint
hashes every byte; the metadata fingerprint only knows sizes and times.  A file that cannot be read
counts as missing, so that a file that goes away changes the fingerprint.

Main definitions:

* `Wiring.FileRecord` — what is known of one file: its digest and its size and time;
* `Wiring.FileLedger` — the records of a set, ordered by path;
* `Wiring.FileLedger.stream` — the bytes that the content fingerprint is the digest of;
* `Wiring.Fingerprint`, `Wiring.Fingerprint.ofDisk` — both fingerprints, and taking them from disk.
-/

import Wiring.Digest
import Wiring.Disk.Basic

set_option autoImplicit false

namespace Wiring

/-- What is known of one file.  A file that could not be read has no digest. -/
structure FileRecord where
  digest : Option (List UInt8)
  stat : Option Stat
deriving DecidableEq, Inhabited

/-- The record of a file with the given bytes. -/
def FileRecord.present (stat : Option Stat) (bytes : List UInt8) : FileRecord :=
  ⟨some (Digest.sha256 bytes), stat⟩

/-- The record of a file that could not be read. -/
def FileRecord.missing : FileRecord := ⟨none, none⟩

/-- Size and time of each file of a set; a file that is not there has none. -/
abbrev MetadataFingerprint := List (Path × Option Stat)

/-- Both fingerprints of a set of files, taken at one moment. -/
structure Fingerprint where
  content : String
  metadata : List (Path × Option Stat)
deriving DecidableEq, Inhabited

/-- Whether two metadata fingerprints agree: the same paths, by their components, with the same
sizes and times. -/
def MetadataFingerprint.agrees (a b : MetadataFingerprint) : Bool :=
  a.map (fun e => (e.1.components, e.2)) = b.map fun e => (e.1.components, e.2)

/-- The records of a set of files, in the order of their paths, no two paths with the same
components. -/
structure FileLedger where
  files : List (Path × FileRecord) := []
deriving Inhabited

namespace FileLedger

/-- Enters a record into an ordered list.  A path that is there in another spelling keeps its
spelling. -/
def enter (p : Path) (record : FileRecord) :
    List (Path × FileRecord) → List (Path × FileRecord)
  | [] => [(p, record)]
  | e :: rest =>
    if e.1.sameAs p then (e.1, record) :: rest
    else if p.le e.1 then (p, record) :: e :: rest
    else e :: enter p record rest

/-- Records a file, in the place of an earlier record of it. -/
def record (ledger : FileLedger) (p : Path) (entry : FileRecord) : FileLedger :=
  ⟨enter p entry ledger.files⟩

/-- What stands in the stream for a file that could not be read. -/
def missingMark : List UInt8 :=
  Text.encode "<missing>"

/-- The piece of the stream for one file: its path and its digest, each closed by a zero. -/
def streamOf (p : Path) (entry : FileRecord) : List UInt8 :=
  Text.encode p.text ++ 0 :: entry.digest.getD missingMark ++ [0]

/-- The bytes that the content fingerprint is the digest of. -/
def stream (ledger : FileLedger) : List UInt8 :=
  ledger.files.flatMap fun e => streamOf e.1 e.2

/-- The fingerprints of the recorded files. -/
def finish (ledger : FileLedger) : Fingerprint where
  content := "sha256:" ++ Digest.hex (Digest.sha256 ledger.stream)
  metadata := ledger.files.map fun e => (e.1, e.2.stat)

end FileLedger

/-- Drops a path whose neighbour in front has the same components. -/
def dropRepeats : List Path → List Path
  | [] => []
  | p :: rest =>
    match dropRepeats rest with
    | [] => [p]
    | q :: more => if p.sameAs q then p :: more else p :: q :: more

/-- The paths in ascending order, each once. -/
def sortedPaths (paths : List Path) : List Path :=
  dropRepeats (paths.mergeSort Path.le)

/-- Size and time of each file, as they are on disk. -/
def MetadataFingerprint.ofDisk (disk : Disk) (paths : List Path) : MetadataFingerprint :=
  (sortedPaths paths).map fun p => (p, (disk.stat p).toOption)

namespace Fingerprint

/-- The record of a file as it is on disk. -/
def recordOf (disk : Disk) (p : Path) : FileRecord :=
  match disk.read p with
  | .ok bytes => .present (disk.stat p).toOption bytes
  | .error _ => .missing

/-- The records of some files as they are on disk. -/
def ledgerOf (disk : Disk) (paths : List Path) : FileLedger :=
  paths.foldl (fun (ledger : FileLedger) p => ledger.record p (recordOf disk p)) {}

/-- Both fingerprints of a set of files, read from disk. -/
def ofDisk (disk : Disk) (paths : List Path) : Fingerprint :=
  (ledgerOf disk (sortedPaths paths)).finish

/-- The content fingerprint alone. -/
def contentOf (disk : Disk) (paths : List Path) : String :=
  (ofDisk disk paths).content

end Fingerprint

end Wiring
