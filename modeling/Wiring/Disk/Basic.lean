/-
**A disk in memory.**

A disk is a tree of folders and files.  Every file has bytes and the time of its last change.  Paths
are followed step by step from the working folder, or from the root when they are absolute, and each
operation answers with the cause when it cannot be done.

Some causes are not in the tree: owners and permissions, a full disk, a name that the system does not take.
Of these only the refusal of a file that is to be written is part of a disk, whatever its cause.  Looking and
making folders are never refused.  There are no links, and no name is other than a text.

Main definitions:

* `Wiring.WriteRefusal` — that the system does not write a file, and how far it came;
* `Wiring.Disk` — the tree, the working folder, the time that new writes are given, and the refusals;
* `Wiring.Disk.locate` — the place that a path leads to;
* `Wiring.Disk.read`, `Wiring.Disk.readText`, `Wiring.Disk.stat`, `Wiring.Disk.list` — looking;
* `Wiring.Disk.makeFolder`, `Wiring.Disk.createFolders`, `Wiring.Disk.install` — changing.
-/

import Wiring.Disk.Path
import Wiring.Table
import Wiring.Text.Utf8

set_option autoImplicit false

namespace Wiring

/-- Why an operation on the disk could not be done. -/
inductive DiskFault where
  | notFound
  | notFolder
  | isFolder
  | alreadyThere
  | busy
  | notText
deriving DecidableEq, Inhabited

/-- The message of a fault. -/
def DiskFault.text : DiskFault → String
  | notFound => "No such file or directory (os error 2)"
  | busy => "Device or resource busy (os error 16)"
  | alreadyThere => "File exists (os error 17)"
  | notFolder => "Not a directory (os error 20)"
  | isFolder => "Is a directory (os error 21)"
  | notText => "stream did not contain valid UTF-8"

/-- The kinds of refusal that call for different advice. -/
inductive SystemErrorKind where
  | notFound
  | permissionDenied
  | other
deriving DecidableEq, Inhabited

/-- How far the writing of a file has come. -/
inductive WriteStage where
  /-- A temporary file is being made. -/
  | creating
  /-- Some bytes have been written to it. -/
  | filling (count : Nat)
  /-- All bytes have been written and are being stored. -/
  | syncing
  /-- The temporary file is taking the name of the file. -/
  | renaming
deriving DecidableEq, Inhabited

/-- That the system does not go on writing a file, and what it says. -/
structure WriteRefusal where
  stage : WriteStage
  kind : SystemErrorKind
  message : String
deriving DecidableEq, Inhabited

/-- A place on the disk: the names on the way from the root. -/
abbrev Location := List String

/-- What stands at a place. -/
inductive Node where
  | file (bytes : List UInt8) (modified : Nat)
  | folder
deriving DecidableEq, Inhabited

/-- Size and time of the last change. -/
structure Stat where
  size : Nat
  modified : Nat
deriving DecidableEq, Inhabited

/-- A tree of folders and files.  The root is a folder and has no entry of its own. -/
structure Disk where
  nodes : Table Location Node := {}
  /-- The working folder. -/
  here : Location := []
  /-- The time that a write leaves on its file. -/
  now : Nat := 0
  /-- What the system refuses to write at a path, for causes that are not in the tree. -/
  refuses : Path → List UInt8 → Option WriteRefusal := fun _ _ => none
deriving Inhabited

namespace Disk

/-- What stands at a place. -/
def node? (disk : Disk) (loc : Location) : Option Node :=
  if loc = [] then some .folder else disk.nodes.get? loc

/-- Follows the segments of a path from a place.  Every segment, even an idle one, needs a folder to
start from. -/
def follow (disk : Disk) (loc : Location) : List String → Except DiskFault Location
  | [] => .ok loc
  | segment :: rest =>
    if disk.node? loc ≠ some .folder then .error .notFolder
    else if Path.isIdle segment then disk.follow loc rest
    else if segment = ".." then disk.follow loc.dropLast rest
    else match disk.node? (loc ++ [segment]) with
      | none => .error .notFound
      | some _ => disk.follow (loc ++ [segment]) rest

/-- Where the first segment of a path is taken from. -/
def start (disk : Disk) (p : Path) : Location :=
  if p.isAbsolute then [] else disk.here

/-- The place that a path leads to. -/
def locate (disk : Disk) (p : Path) : Except DiskFault Location :=
  if p.text = "" then .error .notFound else disk.follow (disk.start p) p.segments

/-- What a path leads to. -/
def find (disk : Disk) (p : Path) : Except DiskFault Node := do
  let loc ← disk.locate p
  match disk.node? loc with
  | some node => pure node
  | none => throw .notFound

/-- The absolute path without dots that leads to the same place. -/
def canonical (disk : Disk) (p : Path) : Except DiskFault Path :=
  (disk.locate p).map Path.ofNames

/-- The bytes of a file. -/
def read (disk : Disk) (p : Path) : Except DiskFault (List UInt8) := do
  match ← disk.find p with
  | .file bytes _ => pure bytes
  | .folder => throw .isFolder

/-- The text of a file. -/
def readText (disk : Disk) (p : Path) : Except DiskFault String := do
  match Text.decode? (← disk.read p) with
  | some text => pure text
  | none => throw .notText

/-- The size that a folder is given. -/
def folderSize : Nat := 4096

/-- Size and time of the last change of what a path leads to. -/
def stat (disk : Disk) (p : Path) : Except DiskFault Stat := do
  match ← disk.find p with
  | .file bytes modified => pure ⟨bytes.length, modified⟩
  | .folder => pure ⟨folderSize, 0⟩

/-- Whether a path leads to anything. -/
def «exists» (disk : Disk) (p : Path) : Bool :=
  (disk.find p).isOk

/-- Whether a path leads to a file. -/
def isFile (disk : Disk) (p : Path) : Bool :=
  match disk.find p with
  | .ok (.file _ _) => true
  | _ => false

/-- Whether a path leads to a folder. -/
def isFolder (disk : Disk) (p : Path) : Bool :=
  match disk.find p with
  | .ok .folder => true
  | _ => false

/-- The name that an entry has inside a folder, if it lies directly in it. -/
def childName? (folder loc : Location) : Option String :=
  match folder.isPrefixOf? loc with
  | some [name] => some name
  | _ => none

/-- The names in the folder at a place, in ascending order. -/
def namesAt (disk : Disk) (loc : Location) : List String :=
  (disk.nodes.keys.filterMap (childName? loc)).mergeSort fun a b => !decide (b < a)

/-- The names in a folder, in ascending order. -/
def list (disk : Disk) (p : Path) : Except DiskFault (List String) := do
  let loc ← disk.locate p
  match disk.node? loc with
  | some .folder => pure (disk.namesAt loc)
  | some (.file _ _) => throw .notFolder
  | none => throw .notFound

/-- Lexicographic order of places; a folder comes before what it holds. -/
def locationLe : Location → Location → Bool
  | [], _ => true
  | _ :: _, [] => false
  | a :: as, b :: bs => a < b || (a = b && locationLe as bs)

/-- The folders at or below a place, each before what it holds and the names in ascending order. -/
def foldersFrom (disk : Disk) (loc : Location) : List Location :=
  let below := disk.nodes.entries.filterMap fun (place, node) =>
    if node = .folder && loc.isPrefixOf place && place ≠ loc then some place else none
  (if disk.node? loc = some .folder then [loc] else []) ++ below.mergeSort locationLe

/-- Where a new entry at the end of a path would stand: the folder and the name.  The flag says
whether the path demands a folder by a slash at its end. -/
def target (disk : Disk) (p : Path) : Except DiskFault (Location × String × Bool) := do
  if p.text = "" then throw .notFound
  let segments := p.segments
  let steps := (segments.reverse.dropWhile (· = "")).reverse
  match steps.getLast? with
  | none => throw .busy
  | some name =>
    let loc ← disk.follow (disk.start p) steps.dropLast
    if disk.node? loc ≠ some .folder then throw .notFolder
    pure (loc, name, segments.getLast? = some "" )

/-- Whether a segment names an entry of its own and does not lead back or stay.  What else a system asks of a
name, such as its length or that no zero stands in it, is left to `refuses`. -/
def isName (segment : String) : Bool :=
  !Path.isIdle segment && segment ≠ ".."

/-- Makes one folder. -/
def makeFolder (disk : Disk) (p : Path) : Except DiskFault Disk :=
  match disk.target p with
  | .error .busy => .error .alreadyThere
  | .error fault => .error fault
  | .ok (loc, name, _) =>
    if !isName name || (disk.node? (loc ++ [name])).isSome then .error .alreadyThere
    else .ok { disk with nodes := disk.nodes.put (loc ++ [name]) .folder }

/-- Makes the first of the given folders, after the ones behind it where that is needed.  What was
made stays, also when a later step fails. -/
def createAlong (disk : Disk) : List Path → Disk × Except DiskFault Unit
  | [] => (disk, .error .notFound)
  | p :: above =>
    if p.text = "" then (disk, .ok ())
    else match disk.makeFolder p with
    | .ok made => (made, .ok ())
    | .error .notFound =>
      match disk.createAlong above with
      | (made, .error fault) => (made, .error fault)
      | (made, .ok ()) =>
        match made.makeFolder p with
        | .ok more => (more, .ok ())
        | .error fault => (made, if made.isFolder p then .ok () else .error fault)
    | .error fault => (disk, if disk.isFolder p then .ok () else .error fault)

/-- Makes a folder and all that are missing on the way to it. -/
def createFolders (disk : Disk) (p : Path) : Disk × Except DiskFault Unit :=
  disk.createAlong p.ancestors

/-- Puts a file with the given bytes in the place that a path names, as renaming a finished file
over it does: a file there is replaced, a folder is not. -/
def install (disk : Disk) (p : Path) (bytes : List UInt8) : Except DiskFault Disk := do
  let (loc, name, wantsFolder) ← disk.target p
  if !isName name then throw .busy
  if wantsFolder then throw .notFolder
  if disk.node? (loc ++ [name]) = some .folder then throw .isFolder
  pure { disk with nodes := disk.nodes.put (loc ++ [name]) (.file bytes disk.now) }

/-- Removes the file or the whole folder at a place. -/
def removeAt (disk : Disk) (loc : Location) : Disk :=
  { disk with nodes := disk.nodes.filter fun place _ => !loc.isPrefixOf place }

/-- Puts a node at a place and folders on the way to it. -/
def putAt (disk : Disk) (loc : Location) (node : Node) : Disk :=
  let folders := (List.range loc.length).map fun n => loc.take n
  let nodes := (folders.filter (· ≠ [])).foldl (fun t f => t.putNew f .folder) disk.nodes
  { disk with nodes := nodes.put loc node }

/-- The names that lead to a place from another one above it, joined by slashes. -/
def nameBelow (base loc : Location) : String :=
  Text.join "/" (loc.drop base.length)

/-- All files below a place, and the folders there that hold nothing, under their names from that
place on.  A folder's name ends in a slash and has no bytes. -/
def leaves (disk : Disk) (base : Location) : List (String × Option (List UInt8)) :=
  disk.nodes.entries.filterMap fun (loc, node) =>
    if base.isPrefixOf loc && loc ≠ base then
      match node with
      | .file bytes _ => some (nameBelow base loc, some bytes)
      | .folder => if disk.namesAt loc = [] then some (nameBelow base loc ++ "/", none) else none
    else none

end Disk

end Wiring
