/-
**What a loaded package remembers of its files.**

A package is loaded with a fingerprint of its files, which is built up from the bytes that the declarations
were read from.  While the files are read, what is recorded is what the disk holds of the files that have been
taken in: a file counts as text only if its bytes are those of the text, and one that is left out because of
its tags is not recorded.  All files lie in one directory under proper names, so that no two of them have the
same path, and the fingerprint is the one that is taken from disk.

Main definitions:

* `Wiring.Manifest.Draft.Recorded` — what is recorded of a package on its way.

Main results:

* `Wiring.Manifest.Draft.Recorded.step`, `Wiring.Manifest.Draft.Recorded.run` — reading one file, and all
  files;
* `Wiring.Manifest.fingerprint_of_load` — the fingerprint of a package that has been loaded;
* `Wiring.Fingerprint.built_as_taken` — **fingerprints that are built are those that are taken from disk**;
* `Wiring.Fingerprint.first_spelling_shows` — **unless a path was recorded under another spelling first**.
-/

import Wiring.Proofs.Disk.RawPaths
import Wiring.Proofs.Fingerprints.Feeds
import Wiring.Proofs.Loading.Spellings

set_option autoImplicit false

namespace Wiring

/-! ### What is read -/

/-- The names in a folder can be names of entries. -/
theorem Disk.isName_of_list {disk : Disk} {p : Path} {names : List String} (hdisk : disk.Tidy)
    (h : disk.list p = .ok names) : ∀ name ∈ names, IsName name := by
  obtain ⟨loc, -, h⟩ := of_bind_eq_ok h
  split at h
  · cases h
    intro name hname
    obtain ⟨place, hplace, hchild⟩ := List.mem_filterMap.1 (List.mem_mergeSort.1 hname)
    obtain ⟨e, he, rfl⟩ := List.mem_map.1 hplace
    refine hdisk.entries e he name ?_
    unfold childName? at hchild
    split at hchild
    next last hsplit =>
      cases hchild
      rw [← List.isPrefixOf?_eq_some_iff_append_eq.1 hsplit]
      exact List.mem_append_right _ List.mem_cons_self
    next => cases hchild
  · cases h
  · cases h

namespace Fingerprint

variable {disk : Disk} {p : Path} {text : String}

theorem ledgerOf_concat (disk : Disk) (l : List Path) (p : Path) :
    ledgerOf disk (l ++ [p]) = (ledgerOf disk l).record p (recordOf disk p) := by
  rw [ledgerOf, List.foldl_append]
  rfl

/-- The record of a file that has been read as text. -/
theorem recordOf_of_readText (h : disk.readText p = .ok text) :
    recordOf disk p = .present (disk.stat p).toOption (Text.encode text) := by
  obtain ⟨bytes, hread, h⟩ := of_bind_eq_ok h
  split at h
  next text' hdecode =>
    cases h
    rw [recordOf, hread, Text.encode_of_decode? hdecode]
  next => cases h

end Fingerprint

namespace Manifest

variable {disk : Disk} {tags : List String} {path : String} {dir file : Path} {files : List Path}
  {d d' : Draft} {pkg : Package}

/-! ### While files are read -/

/-- What is recorded of a package on its way is what the disk holds of the files that have been taken in. -/
structure Draft.Recorded (disk : Disk) (files : List Path) (d : Draft) : Prop where
  ledger : d.ledger = Fingerprint.ledgerOf disk d.pkg.files
  files : d.pkg.files ⊆ files

theorem Draft.Recorded.step (h : d.Recorded disk files) (hfile : file ∈ files)
    (hread : d.readFile disk tags file = .ok d') : d'.Recorded disk files := by
  rcases Draft.readFile_cases disk tags d file with ⟨_, heq⟩ | ⟨text, found, htext, -, heq⟩ <;>
    rw [heq] at hread
  · cases hread
  · cases hread
    split
    · have hfiles : (found.addTo file d.pkg).files = d.pkg.files ++ [file] := by
        rw [addTo, foldl_addType]
      constructor
      case ledger =>
        rw [hfiles, Fingerprint.ledgerOf_concat, ← h.ledger, Fingerprint.recordOf_of_readText htext]
      case files =>
        rw [hfiles]
        exact List.append_subset.2 ⟨h.files, List.cons_subset.2 ⟨hfile, List.nil_subset _⟩⟩
    · exact h

theorem Draft.Recorded.run (h : d.Recorded disk files) {more : List Path} (hmore : more ⊆ files)
    (hread : more.foldlM (Draft.readFile disk tags) d = .ok d') : d'.Recorded disk files := by
  induction more generalizing d with
  | nil =>
      cases hread
      exact h
  | cons file rest ih =>
      rw [List.foldlM_cons] at hread
      obtain ⟨next, hnext, hrest⟩ := of_bind_eq_ok hread
      obtain ⟨hfile, hsubset⟩ := List.cons_subset.1 hmore
      exact ih (h.step hfile hnext) hsubset hrest

/-- What a package that has been loaded remembers of its files. -/
theorem loadPackage_recorded (h : loadPackage disk tags path dir = .ok pkg) :
    ∃ names, disk.list dir = .ok names ∧ (∀ file ∈ pkg.files, ∃ name ∈ names, file = dir.join ⟨name⟩) ∧
      pkg.fingerprint? = some (Fingerprint.ledgerOf disk pkg.files).finish := by
  unfold loadPackage at h
  cases hlist : disk.list dir with
  | error fault => rw [hlist] at h; cases h
  | ok names =>
      rw [hlist] at h
      obtain ⟨_, hnames, h⟩ := of_bind_eq_ok h
      cases hnames
      obtain ⟨d, hd, h⟩ := of_bind_eq_ok h
      have hstart : ({ pkg := { path, dir } } : Draft).Recorded disk
          ((names.filter isFileName).map fun name => dir.join ⟨name⟩) :=
        ⟨rfl, List.nil_subset _⟩
      have hrecorded := hstart.run (List.Subset.refl _) hd
      split at h
      · cases h
      · cases h
        refine ⟨names, rfl, fun file hfile => ?_, ?_⟩
        · obtain ⟨name, hname, rfl⟩ := List.mem_map.1 (hrecorded.files hfile)
          exact ⟨name, List.mem_of_mem_filter hname, rfl⟩
        · rw [Draft.complete, hrecorded.ledger]

/-- **The fingerprint of a package that has been loaded** is the one that is taken of its files from disk. -/
theorem fingerprint_of_load {request : LoadRequest} {cancelled : Nat → Bool} (hdisk : disk.Tidy)
    (hpkg : pkg ∈ (load disk request cancelled).packages) :
    pkg.fingerprint? = some (Fingerprint.ofDisk disk pkg.files) := by
  obtain ⟨verdicts, haccounts⟩ := exists_accounts disk request cancelled
  obtain ⟨names, hlist, hfiles, hfingerprint⟩ := loadPackage_recorded (haccounts.packages pkg hpkg)
  have hnames := Disk.isName_of_list hdisk hlist
  have hsingle : ∀ p ∈ pkg.files, ∀ q ∈ pkg.files, p.components = q.components → p = q := by
    intro p hp q hq hsame
    obtain ⟨name, hname, rfl⟩ := hfiles p hp
    obtain ⟨other, hother, rfl⟩ := hfiles q hq
    rw [Path.eq_of_components_join (hnames name hname) (hnames other hother) hsame]
  rw [hfingerprint, Fingerprint.ofDisk, Fingerprint.ledgerOf_sortedPaths hsingle]

end Manifest

namespace Fingerprint

/-- **Fingerprints that are built are those that are taken from disk**: of whatever different files, fed in any
order and over any earlier records, up to paths that were recorded under another spelling first, and of the
files of a package that has just been loaded. -/
theorem built_as_taken {disk : Disk} {paths : List Path} {entries : List (Path × FileRecord)}
    (hdistinct : (paths.map Path.components).Nodup) (hfeed : Feeds disk paths entries)
    (hdisk : disk.Tidy) :
    (∀ paths', paths.Perm paths' → Built disk paths entries paths') ∧
      ∀ request cancelled, ∀ pkg ∈ (Manifest.load disk request cancelled).packages,
        pkg.fingerprint? = some (ofDisk disk pkg.files) :=
  ⟨fun _ hperm => built hfeed hdistinct hperm, fun _ _ _ hpkg => Manifest.fingerprint_of_load hdisk hpkg⟩

/-- A declaration file and one that is not there. -/
def twoFiles : List Path :=
  [⟨"b/wire.toml"⟩, ⟨"gone"⟩]

/-- What is fed of them: the declaration file twice, the first time as it was before. -/
def twoFilesFeed : List (Path × FileRecord) :=
  [(⟨"gone"⟩, .missing), (⟨"b/wire.toml"⟩, .present none [1]),
    (⟨"b/wire.toml"⟩, recordOf pairDisk ⟨"b/wire.toml"⟩)]

/-- What is fed in another order and after other bytes, and what is loaded, has the fingerprint on disk. -/
theorem built_as_taken_pair :
    (FileLedger.ofList twoFilesFeed).finish = ofDisk pairDisk twoFiles.reverse ∧
      ∃ pkg ∈ (Manifest.load pairDisk Manifest.followRequest fun _ => false).packages,
        pkg.fingerprint? = some (ofDisk pairDisk pkg.files) := by
  have hlast : ∀ p ∈ twoFiles,
      twoFilesFeed.reverse.find? (fun e => e.1.sameAs p) = some (p, recordOf pairDisk p) := by
    simp only [twoFiles, List.forall_mem_cons]
    exact ⟨rfl, rfl, nofun⟩
  obtain ⟨hbuilt, hloaded⟩ := built_as_taken (by decide) ⟨by decide, hlast⟩ tidy_pair
  obtain ⟨pkg, hpkg, -⟩ := Manifest.imports_pair
  exact ⟨(hbuilt _ (List.reverse_perm _).symm).listed (by decide), pkg, hpkg, hloaded _ _ pkg hpkg⟩

/-- What is fed of a file that was recorded as missing first, under its path with a slash at the end. -/
def slashedFeed : List (Path × FileRecord) :=
  [(⟨"a/"⟩, .missing), (⟨"a"⟩, recordOf oneFile ⟨"a"⟩)]

/-- **The first spelling shows.**  The record with the slash is superseded, since both paths have the same
components, but its spelling stays and is digested with the bytes of the file. -/
theorem first_spelling_shows :
    Feeds oneFile [⟨"a"⟩] slashedFeed ∧
      (FileLedger.ofList slashedFeed).finish.content ≠ (ofDisk oneFile [⟨"a"⟩]).content := by
  refine ⟨⟨by decide, ?_⟩, ?_⟩
  · simp only [List.forall_mem_singleton]
    rfl
  · rw [ofDisk, ledgerOf_sortedPaths (by decide), ne_eq, FileLedger.content_eq_iff]
    decide +kernel

end Fingerprint

end Wiring
