/-
**Fingerprints that are taken from disk.**

What goes into the fingerprints of a list of files is read path by path, of each path under its first
spelling.  So it does not matter in which order the list stands, and how often a path stands in it, as long
as each path is written in one way: both fingerprints are the same.

A path that stands in the list in two ways makes a difference, since a path is read and digested as it is
written.  The metadata then agree exactly if what stands first has the same size and time in both lists.
The content fingerprints agree, up to collisions of the digest, only if the first spellings are the same.

Main results:

* `Wiring.Digest.hex_injective` — a digest is known by its digits;
* `Wiring.Fingerprint.files_ledgerOf` — what is recorded of a list of files;
* `Wiring.Fingerprint.reordered` — **the order of a list matters only by the spellings that come first**;
* `Wiring.Fingerprint.order_shows` — and by these it does.
-/

import Wiring.Proofs.Fingerprints.Streams

set_option autoImplicit false

namespace Wiring

/-! ### Digits -/

namespace Digest

theorem hexDigit_injective {m n : Nat} (hm : m < 16) (hn : n < 16) (h : hexDigit m = hexDigit n) :
    m = n := by
  have hdigits : ∀ m < 16, ∀ n < 16, hexDigit m = hexDigit n → m = n := by decide
  exact hdigits m hm n hn h

theorem hex_injective {as bs : List UInt8} (h : hex as = hex bs) : as = bs := by
  have hdigits := congrArg String.toList h
  simp only [hex, String.toList_ofList] at hdigits
  clear h
  induction as generalizing bs with
  | nil =>
      cases bs with
      | nil => rfl
      | cons b bs => cases hdigits
  | cons a as ih =>
      cases bs with
      | nil => cases hdigits
      | cons b bs =>
          simp only [List.flatMap_cons, List.cons_append, List.nil_append, List.cons.injEq] at hdigits
          obtain ⟨hhigh, hlow, hrest⟩ := hdigits
          have ha := a.toNat_lt
          have hb := b.toNat_lt
          have hhigh := hexDigit_injective (by omega) (by omega) hhigh
          have hlow := hexDigit_injective (by omega) (by omega) hlow
          have hbyte : a = b := UInt8.toNat_inj.1 (by omega)
          rw [hbyte, ih hrest]

end Digest

/-- The contents of two ledgers agree if their streams have the same digest. -/
theorem FileLedger.content_eq_iff {ledger other : FileLedger} :
    ledger.finish.content = other.finish.content ↔
      Digest.sha256 ledger.stream = Digest.sha256 other.stream := by
  unfold finish
  refine ⟨fun h => Digest.hex_injective (String.toList_injective ?_), fun h => by rw [h]⟩
  have hchars := congrArg String.toList h
  simpa only [String.toList_append, List.append_cancel_left_eq] using hchars

namespace Fingerprint

/-! ### What is recorded -/

theorem recordOf_eq (disk : Disk) (p : Path) :
    recordOf disk p = .ofContent (disk.stat p).toOption (disk.read p).toOption := by
  unfold recordOf
  cases disk.read p <;> rfl

/-- **What is recorded of a list of files**: of each path, under its first spelling, what it leads to. -/
theorem files_ledgerOf (disk : Disk) (l : List Path) :
    (ledgerOf disk (sortedPaths l)).files = (sortedPaths l).map fun p => (p, recordOf disk p) := by
  have hledger : ledgerOf disk (sortedPaths l) =
      .ofList ((sortedPaths l).map fun p => (p, recordOf disk p)) := by
    rw [FileLedger.ofList, List.foldl_map]
    rfl
  rw [hledger]
  exact FileLedger.files_ofList (List.pairwise_map.2 (ascending_sortedPaths l))

theorem metadata_ofDisk (disk : Disk) (l : List Path) :
    (ofDisk disk l).metadata = (sortedPaths l).map fun p => (p, (recordOf disk p).stat) := by
  unfold ofDisk FileLedger.finish
  dsimp only
  rw [files_ledgerOf, List.map_map]
  rfl

theorem contentOf_eq_iff {disk disk' : Disk} {l l' : List Path} :
    contentOf disk l = contentOf disk' l' ↔
      Digest.sha256 (ledgerOf disk (sortedPaths l)).stream =
        Digest.sha256 (ledgerOf disk' (sortedPaths l')).stream :=
  FileLedger.content_eq_iff

/-! ### The order of a list -/

variable {disk : Disk} {l l' : List Path}

/-- Nothing but the paths that are left of a list goes into its fingerprints. -/
theorem ofDisk_congr (disk : Disk) (h : sortedPaths l = sortedPaths l') :
    ofDisk disk l = ofDisk disk l' ∧
      MetadataFingerprint.ofDisk disk l = MetadataFingerprint.ofDisk disk l' := by
  unfold ofDisk MetadataFingerprint.ofDisk
  rw [h]
  exact ⟨rfl, rfl⟩

/-- If every path is written in one way, its first spelling is the path itself. -/
theorem leading?_of_single {p : Path}
    (h : ∀ p ∈ l, ∀ q ∈ l, p.components = q.components → p = q) (hp : p ∈ l) : leading? l p = some p := by
  obtain ⟨q, hq⟩ := exists_leading? hp
  rw [hq, h q (mem_of_leading? hq) p hp (components_of_leading? hq)]

/-- Everything in the stream of a list of files can be told, if no path holds a zero and no digest starts
with the mark of a missing file. -/
theorem readable_ledgerOf (hzero : ∀ p ∈ l, p.ZeroFree)
    (hmark : ∀ p ∈ l, ∀ bytes ∈ (disk.read p).toOption,
      ¬ FileLedger.Marked (Digest.sha256 bytes)) :
    ∀ e ∈ (ledgerOf disk (sortedPaths l)).files, e.1.ZeroFree ∧ e.2.Plain := by
  intro e he
  rw [files_ledgerOf] at he
  obtain ⟨p, hp, rfl⟩ := List.mem_map.1 he
  have hmem := mem_of_mem_sortedPaths hp
  refine ⟨hzero p hmem, ?_⟩
  dsimp only
  rw [recordOf_eq]
  exact FileRecord.plain_ofContent (hmark p hmem) _

/-- Lists with the same stream are read in the same spellings. -/
theorem sortedPaths_eq_of_stream_eq
    (hreadable : ∀ e ∈ (ledgerOf disk (sortedPaths l)).files, e.1.ZeroFree ∧ e.2.Plain)
    (hreadable' : ∀ e ∈ (ledgerOf disk (sortedPaths l')).files, e.1.ZeroFree ∧ e.2.Plain)
    (h : (ledgerOf disk (sortedPaths l)).stream = (ledgerOf disk (sortedPaths l')).stream) :
    sortedPaths l = sortedPaths l' := by
  have hviews := FileLedger.views_eq_of_stream_eq hreadable hreadable' h
  rw [files_ledgerOf, files_ledgerOf, List.map_map, List.map_map] at hviews
  have hpaths := congrArg (List.map Prod.fst) hviews
  rw [List.map_map, List.map_map] at hpaths
  exact (List.map_id _).symm.trans (hpaths.trans (List.map_id _))

theorem agrees_ofDisk_iff (disk : Disk) (h : ∀ p, p ∈ l ↔ p ∈ l') :
    MetadataFingerprint.agrees (.ofDisk disk l) (.ofDisk disk l') = true ↔
      ∀ p ∈ l, (leading? l p).map (fun q => (disk.stat q).toOption) =
        (leading? l' p).map fun q => (disk.stat q).toOption := by
  rw [← map_sortedPaths_eq_iff _ h, MetadataFingerprint.agrees, decide_eq_true_eq]
  simp only [MetadataFingerprint.ofDisk, List.map_map, Function.comp_def]

/-- How the fingerprints of two lists of files compare. -/
structure Compared (disk : Disk) (l l' : List Path) : Prop where
  /-- The files are the same, in the same order. -/
  files : (sortedPaths l).map Path.components = (sortedPaths l').map Path.components
  /-- Both fingerprints are the same if no path is written in two ways. -/
  single : (∀ p ∈ l, ∀ q ∈ l, p.components = q.components → p = q) →
    ofDisk disk l = ofDisk disk l' ∧
      MetadataFingerprint.ofDisk disk l = MetadataFingerprint.ofDisk disk l'
  /-- Both fingerprints are the same if each path comes first in the same spelling. -/
  alike : (∀ p ∈ l, leading? l p = leading? l' p) →
    ofDisk disk l = ofDisk disk l' ∧
      MetadataFingerprint.ofDisk disk l = MetadataFingerprint.ofDisk disk l'
  /-- The metadata agree exactly if the first spelling of each path leads to the same size and time. -/
  metadata : MetadataFingerprint.agrees (.ofDisk disk l) (.ofDisk disk l') = true ↔
    ∀ p ∈ l, (leading? l p).map (fun q => (disk.stat q).toOption) =
      (leading? l' p).map fun q => (disk.stat q).toOption
  /-- The contents agree exactly if each path comes first in the same spelling: unless a path holds a zero,
  a digest starts with the mark of a missing file, or the two streams have the same digest by chance. -/
  content : (∀ p ∈ l, p.ZeroFree) →
    (∀ p ∈ l, ∀ bytes ∈ (disk.read p).toOption, ¬ FileLedger.Marked (Digest.sha256 bytes)) →
    (Digest.sha256 (ledgerOf disk (sortedPaths l)).stream =
        Digest.sha256 (ledgerOf disk (sortedPaths l')).stream →
      (ledgerOf disk (sortedPaths l)).stream = (ledgerOf disk (sortedPaths l')).stream) →
    (contentOf disk l = contentOf disk l' ↔ ∀ p ∈ l, leading? l p = leading? l' p)

/-- **The order of a list of files, and how often a file stands in it, matter only by the spellings that
come first.** -/
theorem reordered (disk : Disk) (h : l.Perm l') : Compared disk l l' := by
  have hmem : ∀ p, p ∈ l ↔ p ∈ l' := fun p => h.mem_iff
  have hsorted := sortedPaths_eq_iff hmem
  constructor
  case files =>
    have hunits := (map_sortedPaths_eq_iff (fun _ => ()) hmem).2 fun p hp => by
      obtain ⟨q, hq⟩ := exists_leading? hp
      obtain ⟨q', hq'⟩ := exists_leading? ((hmem p).1 hp)
      rw [hq, hq', Option.map_some, Option.map_some]
    simpa only [List.map_map, Function.comp_def] using congrArg (List.map Prod.fst) hunits
  case single =>
    intro hsingle
    have hsingle' : ∀ p ∈ l', ∀ q ∈ l', p.components = q.components → p = q :=
      fun p hp q hq => hsingle p ((hmem p).2 hp) q ((hmem q).2 hq)
    refine ofDisk_congr disk (hsorted.2 fun p hp => ?_)
    rw [leading?_of_single hsingle hp, leading?_of_single hsingle' ((hmem p).1 hp)]
  case alike => exact fun hspelling => ofDisk_congr disk (hsorted.2 hspelling)
  case metadata => exact agrees_ofDisk_iff disk hmem
  case content =>
    intro hzero hmark hcollision
    rw [contentOf_eq_iff, ← hsorted]
    refine ⟨fun hdigest => ?_, fun heq => by rw [heq]⟩
    refine sortedPaths_eq_of_stream_eq (readable_ledgerOf hzero hmark) ?_ (hcollision hdigest)
    exact readable_ledgerOf (fun p hp => hzero p ((hmem p).2 hp)) fun p hp => hmark p ((hmem p).2 hp)

/-- A disk with one file. -/
def oneFile : Disk :=
  { nodes := ⟨[(["a"], .file [120] 1)]⟩ }

/-- Its path, and the same with a slash at the end, where nothing is found. -/
def plainFirst : List Path := [⟨"a"⟩, ⟨"a/"⟩, ⟨"a"⟩]

/-- The same paths in another order. -/
def slashFirst : List Path := [⟨"a/"⟩, ⟨"a"⟩, ⟨"a"⟩]

theorem sortedPaths_plainFirst : sortedPaths plainFirst = [⟨"a"⟩] := by
  rw [sortedPaths, List.mergeSort_of_pairwise (by decide)]
  decide

theorem sortedPaths_slashFirst : sortedPaths slashFirst = [⟨"a/"⟩] := by
  rw [sortedPaths, List.mergeSort_of_pairwise (by decide)]
  decide

theorem digests_oneFile : Digest.sha256 (ledgerOf oneFile (sortedPaths plainFirst)).stream ≠
    Digest.sha256 (ledgerOf oneFile (sortedPaths slashFirst)).stream := by
  rw [sortedPaths_plainFirst, sortedPaths_slashFirst]
  decide +kernel

/-- Where the later spellings stand does not matter, and which one comes first does. -/
theorem reordered_oneFile :
    (plainFirst.Perm [⟨"a"⟩, ⟨"a"⟩, ⟨"a/"⟩] ∧
      ofDisk oneFile plainFirst = ofDisk oneFile [⟨"a"⟩, ⟨"a"⟩, ⟨"a/"⟩]) ∧
    (plainFirst.Perm slashFirst ∧
      ¬ MetadataFingerprint.agrees (.ofDisk oneFile plainFirst) (.ofDisk oneFile slashFirst) = true ∧
      contentOf oneFile plainFirst ≠ contentOf oneFile slashFirst) := by
  have hlater : plainFirst.Perm [⟨"a"⟩, ⟨"a"⟩, ⟨"a/"⟩] := by decide
  have hfirst : plainFirst.Perm slashFirst := by decide
  have hcompared := reordered oneFile hfirst
  have hspelling : ¬ ∀ p ∈ plainFirst, leading? plainFirst p = leading? slashFirst p := by decide
  refine ⟨⟨hlater, ((reordered oneFile hlater).alike (by decide)).1⟩, hfirst, ?_, ?_⟩
  · exact fun hagrees => absurd (hcompared.metadata.1 hagrees) (by decide)
  · have hmark : ∀ p ∈ plainFirst, ∀ bytes ∈ (oneFile.read p).toOption,
        ¬ FileLedger.Marked (Digest.sha256 bytes) := by
      decide +kernel
    have hcontent := hcompared.content (by decide) hmark fun heq => absurd heq digests_oneFile
    exact fun heq => hspelling (hcontent.1 heq)

/-- **The order of a list shows.**  A slash at the end of the path of a file does not change its components,
but nothing is found there.  Of the two spellings the one that comes first is read, and so neither the
contents nor the metadata agree. -/
theorem order_shows :
    plainFirst.Perm slashFirst ∧ contentOf oneFile plainFirst ≠ contentOf oneFile slashFirst ∧
      MetadataFingerprint.agrees (.ofDisk oneFile plainFirst) (.ofDisk oneFile slashFirst) = false := by
  refine ⟨by decide, fun heq => digests_oneFile (contentOf_eq_iff.1 heq), ?_⟩
  rw [MetadataFingerprint.ofDisk, MetadataFingerprint.ofDisk, sortedPaths_plainFirst,
    sortedPaths_slashFirst]
  decide

end Fingerprint

end Wiring
