/-
**How long a kept set is used.**

A kept set is used as long as the files that it was extracted from are found unchanged, either by every byte
or only by their sizes and times.  What is remembered of sizes and times has been taken on the way of
reading the contents, and so nothing is remembered of a folder, which cannot be read; but when a lookup asks
for sizes and times alone, a folder has them.  A set that was kept with a folder among its files is therefore
never found by its sizes and times, though it is found by its contents.

Otherwise sizes and times err in one way only.  While regular files are written and removed, a set that is
found by them and not by the contents was kept with a file that has been rewritten: it could be read then and
can be read now, its size and time are the same, its bytes are not.  And a set whose files hold what they
held then is always found by the contents, whatever happened in between.

Main definitions:

* `Wiring.Disk.Rewritten` — a file has other bytes and the same size and time;
* `Wiring.SetCache.Desk` — a disk and a cache that are used in turn;
* `Wiring.SetCache.Deed` — what may be done there between two lookups;
* `Wiring.SetCache.Deed.writesTo` — whether it writes to the slot of a key.

Main results:

* `Wiring.SetCache.lookup_put` — **what is found at once of a set that has been kept**;
* `Wiring.SetCache.Desk.slot_after` — a slot stays as long as nothing writes to it;
* `Wiring.SetCache.exists_rewritten` — sizes and times err only about a rewritten file;
* `Wiring.SetCache.Desk.lookups_after_put` — **what is found later on**.
-/

import Wiring.Proofs.Disk.Folders
import Wiring.Proofs.Fingerprints.FromDisk
import Wiring.SetCache

set_option autoImplicit false

namespace Wiring

/-! ### Two disks -/

/-- The path leads to a file on both disks, with the same size and time and with different bytes. -/
def Disk.Rewritten (before after : Disk) (p : Path) : Prop :=
  ∃ old new stat, before.read p = .ok old ∧ after.read p = .ok new ∧
    before.stat p = .ok stat ∧ after.stat p = .ok stat ∧ old ≠ new

namespace Fingerprint

variable {before after : Disk} {files : List Path} {p : Path}

/-- Nothing is recorded of the size and time of a folder. -/
theorem stat_recordOf (disk : Disk) (p : Path) :
    (recordOf disk p).stat = if disk.isFolder p then none else (disk.stat p).toOption := by
  rw [recordOf_eq]
  cases hread : disk.read p with
  | ok bytes =>
      rw [(Disk.stat_of_read hread).2]
      rfl
  | error fault =>
      split
      · rfl
      next hfile =>
        cases hstat : disk.stat p with
        | error fault' => rfl
        | ok stat =>
            obtain ⟨bytes, hbytes⟩ := Disk.exists_read_of_stat hstat (Bool.not_eq_true _ ▸ hfile)
            cases hread.symm.trans hbytes

/-- A file with another digest than was recorded of it, and with the size and time that were, has been
rewritten.  Unless it could be read and is a folder by now. -/
theorem rewritten_of_recordOf (hfile : ∀ bytes, before.read p = .ok bytes → after.isFolder p = false)
    (hstat : (recordOf before p).stat = (after.stat p).toOption)
    (hdigest : (recordOf before p).digest ≠ (recordOf after p).digest) : before.Rewritten after p := by
  rw [recordOf_eq, recordOf_eq, FileRecord.digest_ofContent, FileRecord.digest_ofContent] at hdigest
  rw [recordOf_eq] at hstat
  cases hold : before.read p with
  | ok old =>
      obtain ⟨⟨stat, hknown⟩, -⟩ := Disk.stat_of_read hold
      rw [hold, hknown] at hstat
      cases hlater : after.stat p with
      | error fault =>
          rw [hlater] at hstat
          cases hstat
      | ok stat' =>
          rw [hlater] at hstat
          cases hstat
          obtain ⟨new, hnew⟩ := Disk.exists_read_of_stat hlater (hfile old hold)
          refine ⟨old, new, stat, hold, hnew, hknown, hlater, ?_⟩
          rintro rfl
          exact hdigest (by rw [hold, hnew])
  | error fault =>
      -- nothing was recorded, so nothing is known now, and nothing can be read
      rw [hold] at hstat
      cases hnew : after.read p with
      | error fault' => exact absurd (by rw [hold, hnew]; rfl) hdigest
      | ok new =>
          obtain ⟨⟨stat, hknown⟩, -⟩ := Disk.stat_of_read hnew
          rw [hknown] at hstat
          cases hstat

/-- The content fingerprint is known from the digests. -/
theorem contentOf_congr (h : ∀ p ∈ sortedPaths files, (recordOf before p).digest =
    (recordOf after p).digest) : contentOf before files = contentOf after files := by
  have hviews : (ledgerOf before (sortedPaths files)).files.map FileLedger.view =
      (ledgerOf after (sortedPaths files)).files.map FileLedger.view := by
    rw [files_ledgerOf, files_ledgerOf, List.map_map, List.map_map]
    exact List.map_congr_left fun p hp => congrArg (Prod.mk p) (h p hp)
  rw [contentOf_eq_iff, FileLedger.stream_eq, FileLedger.stream_eq, hviews]

/-- Files that hold the same have the same content fingerprint. -/
theorem contentOf_eq_of_read_eq
    (h : ∀ p ∈ files, (before.read p).toOption = (after.read p).toOption) :
    contentOf before files = contentOf after files := by
  refine contentOf_congr fun p hp => ?_
  rw [recordOf_eq, recordOf_eq, FileRecord.digest_ofContent, FileRecord.digest_ofContent,
    h p (mem_of_mem_sortedPaths hp)]

/-- Files with different content fingerprints do not all have the same digest. -/
theorem exists_digest_ne (h : contentOf before files ≠ contentOf after files) :
    ∃ p ∈ sortedPaths files, (recordOf before p).digest ≠ (recordOf after p).digest := by
  by_contra hnone
  refine h (contentOf_congr fun p hp => ?_)
  by_contra hdigest
  exact hnone ⟨p, hp, hdigest⟩

end Fingerprint

namespace SetCache

/-! ### Fitting -/

section Fitting

variable {before after : Disk} {files : List Path} {set : ProviderSet}

theorem fits_full_iff : KeptSet.fits ⟨set, .ofDisk before files⟩ after files false = true ↔
    Fingerprint.contentOf before files = Fingerprint.contentOf after files :=
  decide_eq_true_iff

theorem fits_fast_iff : KeptSet.fits ⟨set, .ofDisk before files⟩ after files true = true ↔
    ∀ p ∈ sortedPaths files, (Fingerprint.recordOf before p).stat = (after.stat p).toOption := by
  rw [KeptSet.fits, if_pos rfl, Fingerprint.metadata_ofDisk, MetadataFingerprint.ofDisk,
    MetadataFingerprint.agrees, decide_eq_true_eq, List.map_map, List.map_map, List.map_inj_left]
  exact forall₂_congr fun p _ => by simp only [Function.comp_apply, Prod.mk.injEq, true_and]

/-- On the same disk a set fits by its sizes and times unless one of its files is a folder. -/
theorem fits_fast_self (set : ProviderSet) (disk : Disk) (files : List Path) :
    KeptSet.fits ⟨set, .ofDisk disk files⟩ disk files true = !files.any disk.isFolder := by
  rw [Bool.eq_iff_iff, fits_fast_iff, Bool.not_eq_true', List.any_eq_false]
  constructor
  · intro hfits p hp hfolder
    -- what is compared is the first spelling, which leads to the folder as well
    obtain ⟨q, hq⟩ := exists_leading? hp
    rw [← Disk.isFolder_congr (components_of_leading? hq)] at hfolder
    have hstat := hfits q (mem_sortedPaths.2 (leading?_self hq))
    rw [Fingerprint.stat_recordOf, if_pos hfolder] at hstat
    obtain ⟨stat, hknown⟩ := Disk.stat_of_isFolder hfolder
    rw [hknown] at hstat
    cases hstat
  · intro hfolder p hp
    rw [Fingerprint.stat_recordOf, if_neg (hfolder p (mem_of_mem_sortedPaths hp))]

/-- If the contents have changed, and sizes and times have not, a file has been rewritten.  Unless a file
that could be read is a folder by now. -/
theorem exists_rewritten
    (hfile : ∀ p ∈ files, ∀ bytes, before.read p = .ok bytes → after.isFolder p = false)
    (hfast : KeptSet.fits ⟨set, .ofDisk before files⟩ after files true = true)
    (hfull : ¬ KeptSet.fits ⟨set, .ofDisk before files⟩ after files false = true) :
    ∃ p ∈ files, before.Rewritten after p := by
  rw [fits_full_iff] at hfull
  obtain ⟨p, hp, hdigest⟩ := Fingerprint.exists_digest_ne hfull
  have hmem := mem_of_mem_sortedPaths hp
  exact ⟨p, hmem, Fingerprint.rewritten_of_recordOf (hfile p hmem) (fits_fast_iff.1 hfast p hp) hdigest⟩

end Fitting

/-! ### At once -/

variable {cache : SetCache} {disk : Disk} {key other : SetId} {files : List Path} {fast : Bool}

/-- What is found in a slot depends on the set that is kept there. -/
theorem peek_of_get? {kept : KeptSet} (h : cache.slots.get? key = some (.ready kept)) :
    cache.peek disk key files fast =
      if KeptSet.fits kept disk files fast then some kept.set else none := by
  rw [peek, h]

theorem get?_put (cache : SetCache) (disk : Disk) (key : SetId) (set : ProviderSet) (files : List Path) :
    (cache.put disk key set files).slots.get? key = some (.ready ⟨set, .ofDisk disk files⟩) := by
  rw [put, get?_store, if_pos rfl]

/-- **What is found at once of a set that has been kept**: by its contents it is, and by sizes and times it
is unless there is a folder among its files. -/
theorem lookup_put (cache : SetCache) (disk : Disk) (key : SetId) (set : ProviderSet)
    (files : List Path) :
    let kept := cache.put disk key set files
    kept.lookup disk key files false = (kept.countHit, some set) ∧
      kept.lookup disk key files true =
        if files.any disk.isFolder then (kept.countMiss, none) else (kept.countHit, some set) := by
  intro kept
  constructor
  · rw [lookup, peek_of_get? (get?_put cache disk key set files), if_pos (fits_full_iff.2 rfl)]
  · rw [lookup, peek_of_get? (get?_put cache disk key set files), fits_fast_self]
    cases files.any disk.isFolder <;> rfl

/-- A disk with an empty folder. -/
def oneFolder : Disk :=
  { nodes := ⟨[(["d"], .folder)]⟩ }

/-- **A set that is kept with a folder is not found by its sizes and times**, although nothing has
changed. -/
theorem folder_misses :
    let kept := ({} : SetCache).put oneFolder default default [⟨"d"⟩]
    (kept.lookup oneFolder default [⟨"d"⟩] false).2 = some default ∧
      (kept.lookup oneFolder default [⟨"d"⟩] true).2 = none := by
  intro kept
  rw [snd_lookup, snd_lookup, peek_of_get? (get?_put _ _ _ _ _), peek_of_get? (get?_put _ _ _ _ _),
    fits_fast_self]
  exact ⟨if_pos (fits_full_iff.2 rfl), by decide⟩

/-! ### Later on -/

/-- A disk and a cache that are used in turn. -/
structure Desk where
  disk : Disk
  cache : SetCache

/-- What may be done at a desk. -/
inductive Deed where
  /-- A regular file is written with the given bytes and time. -/
  | write (p : Path) (bytes : List UInt8) (modified : Nat)
  /-- A regular file is removed. -/
  | remove (p : Path)
  | put (key : SetId) (set : ProviderSet) (files : List Path)
  | look (key : SetId) (files : List Path) (fast : Bool)
  /-- A caller asks for a set, and will extract it if the slot is given to him. -/
  | claim (key : SetId) (content : String)
  /-- An extraction ends. -/
  | settle (key : SetId) (marker : Marker) (fingerprint : Fingerprint)
      (result : Except Failure ProviderSet)
  | clear

/-- Whether a deed writes to the slot of a key.  Putting a marker down and taking it out are writes too. -/
def Deed.writesTo (desk : Desk) (key : SetId) : Deed → Bool
  | .write .. | .remove _ | .look .. => false
  | .put other .. => other = key
  | .claim other content =>
    match (desk.cache.claim other content).2 with
    | .granted _ => other = key
    | .hit _ | .wait _ => false
  | .settle other marker _ result => (result.isOk || desk.cache.isPending other marker) && other = key
  | .clear => true

/-! ### One slot -/

/-- Asking for a set changes no slot but one that is given away. -/
theorem get?_claim {content : String}
    (h : Deed.writesTo ⟨disk, cache⟩ key (.claim other content) = false) :
    (cache.claim other content).1.slots.get? key = cache.slots.get? key := by
  unfold Deed.writesTo at h
  dsimp only at h
  rcases cache.claim_cases other content with ⟨_, -, -, heq⟩ | ⟨_, -, heq⟩ | ⟨-, heq⟩
  · exact congrArg (fun after => after.1.slots.get? key) heq
  · exact congrArg (fun after => after.1.slots.get? key) heq
  · rw [heq] at h ⊢
    rw [get?_grant, if_neg (Ne.symm (of_decide_eq_false h))]

/-- The end of an extraction changes no slot but one that takes the set or loses the marker. -/
theorem get?_settle {marker : Marker} {fingerprint : Fingerprint} {result : Except Failure ProviderSet}
    (h : Deed.writesTo ⟨disk, cache⟩ key (.settle other marker fingerprint result) = false) :
    (cache.settle other marker fingerprint result).slots.get? key = cache.slots.get? key := by
  unfold Deed.writesTo at h
  cases result with
  | ok set => rw [settle, get?_store, if_neg (Ne.symm (of_decide_eq_false h))]
  | error failure =>
      rw [settle, abandon]
      split
      next hpending =>
        dsimp only at h
        rw [hpending, Bool.or_true, Bool.true_and, decide_eq_false_iff_not] at h
        rw [Table.get?_erase, if_neg (Ne.symm h)]
      · rfl

namespace Desk

variable {desk : Desk} {deed : Deed} {deeds : List Deed}

/-- What becomes of the desk. -/
def next (desk : Desk) : Deed → Desk
  | .write p bytes modified => { desk with disk := desk.disk.writeFile p bytes modified }
  | .remove p => { desk with disk := desk.disk.removeFile p }
  | .put key set files => { desk with cache := desk.cache.put desk.disk key set files }
  | .look key files fast => { desk with cache := (desk.cache.lookup desk.disk key files fast).1 }
  | .claim key content => { desk with cache := (desk.cache.claim key content).1 }
  | .settle key marker fingerprint result =>
    { desk with cache := desk.cache.settle key marker fingerprint result }
  | .clear => { desk with cache := desk.cache.clear }

/-- What becomes of it after one deed after another. -/
def after (desk : Desk) (deeds : List Deed) : Desk :=
  deeds.foldl next desk

/-- None of the deeds writes to the slot of a key. -/
def spares (desk : Desk) (key : SetId) : List Deed → Bool
  | [] => true
  | deed :: rest => !deed.writesTo desk key && (desk.next deed).spares key rest

/-- **A slot that is not written to stays as it is.** -/
theorem slot_next (h : deed.writesTo desk key = false) :
    (desk.next deed).cache.slots.get? key = desk.cache.slots.get? key := by
  cases deed with
  | write p bytes modified => rfl
  | remove p => rfl
  | put other set files => rw [next, put, get?_store, if_neg (Ne.symm (of_decide_eq_false h))]
  | look other files fast => rw [next, slots_lookup]
  | claim other content => exact get?_claim h
  | settle other marker fingerprint result => exact get?_settle h
  | clear => cases h

/-- **A slot that nothing writes to stays as it is.** -/
theorem slot_after (h : desk.spares key deeds = true) :
    (desk.after deeds).cache.slots.get? key = desk.cache.slots.get? key := by
  induction deeds generalizing desk with
  | nil => rfl
  | cons deed rest ih =>
      rw [spares, Bool.and_eq_true, Bool.not_eq_true'] at h
      exact (ih h.2).trans (slot_next h.1)

theorem unfounded_next (desk : Desk) (deed : Deed) : desk.disk.Unfounded (desk.next deed).disk := by
  cases deed with
  | write p bytes modified => exact Disk.unfounded_writeFile _ _ _ _
  | remove p => exact Disk.unfounded_removeFile _ _
  | put | look | claim | settle | clear => exact .refl _

/-- Whatever is done, no folder is made. -/
theorem unfounded_after (desk : Desk) (deeds : List Deed) :
    desk.disk.Unfounded (desk.after deeds).disk := by
  induction deeds generalizing desk with
  | nil => exact .refl _
  | cons deed rest ih => exact (desk.unfounded_next deed).trans (ih _)

/-- A set that has been kept and not been replaced is found if it fits the files. -/
theorem lookup_after_put {set : ProviderSet}
    (h : (desk.next (.put key set files)).spares key deeds = true) (fast : Bool) :
    let later := (desk.next (.put key set files)).after deeds
    (later.cache.lookup later.disk key files fast).2 =
      if KeptSet.fits ⟨set, .ofDisk desk.disk files⟩ later.disk files fast then some set else none := by
  intro later
  have hslot : later.cache.slots.get? key = some (.ready ⟨set, .ofDisk desk.disk files⟩) :=
    (slot_after h).trans (get?_put _ _ _ _ _)
  rw [snd_lookup, peek_of_get? hslot]

/-- **What is found later on.**  If a set is found by sizes and times and not by its contents, one of its
files has been rewritten with the same size and time.  If its files hold what they held, or are still
missing, it is found by its contents. -/
theorem lookups_after_put (desk : Desk) (key : SetId) (set : ProviderSet) (files : List Path)
    (deeds : List Deed) (h : (desk.next (.put key set files)).spares key deeds = true) :
    let later := (desk.next (.put key set files)).after deeds
    ((later.cache.lookup later.disk key files true).2 = some set →
      (later.cache.lookup later.disk key files false).2 = none →
        ∃ p ∈ files, desk.disk.Rewritten later.disk p) ∧
      ((∀ p ∈ files, (desk.disk.read p).toOption = (later.disk.read p).toOption) →
        (later.cache.lookup later.disk key files false).2 = some set) := by
  intro later
  rw [lookup_after_put h true, lookup_after_put h false]
  constructor
  · intro hfast hfull
    refine exists_rewritten (fun p _ bytes hread => ?_) (Option.ite_none_right_eq_some.1 hfast).1 ?_
    · exact ((desk.next (.put key set files)).unfounded_after deeds).isFolder_eq_false hread
    · intro hfits
      rw [if_pos hfits] at hfull
      cases hfull
  · intro hsame
    exact if_pos (fits_full_iff.2 (Fingerprint.contentOf_eq_of_read_eq hsame))

/-- A disk with one file, and a set that has been extracted from it. -/
def oneFile : Desk :=
  ({ disk := Fingerprint.oneFile, cache := {} } : Desk).next (.put ⟨"p", "S"⟩ default [⟨"a"⟩])

/-- The file is rewritten with the same size and time.  Meanwhile another set is kept, the extraction of a
caller fails who has lost the slot, and the set is looked for. -/
def rewriting : List Deed :=
  [.put ⟨"p", "T"⟩ default [], .settle ⟨"p", "S"⟩ 7 default (.error default), .write ⟨"a"⟩ [121] 1,
    .look ⟨"p", "S"⟩ [⟨"a"⟩] true]

/-- The file is rewritten and removed, and written again as it was at another time. -/
def reverting : List Deed :=
  [.write ⟨"a"⟩ [121, 122] 2, .remove ⟨"a"⟩, .write ⟨"a"⟩ [120] 3]

theorem sortedPaths_oneFile : sortedPaths [⟨"a"⟩] = [⟨"a"⟩] := by
  rw [sortedPaths, List.mergeSort_singleton]
  decide

/-- Rewriting the file is not seen by its size and time, and reverting it is not seen by its contents. -/
theorem lookups_after_put_oneFile :
    let rewritten := oneFile.after rewriting
    let reverted := oneFile.after reverting
    ((rewritten.cache.lookup rewritten.disk ⟨"p", "S"⟩ [⟨"a"⟩] true).2 = some default ∧
      (rewritten.cache.lookup rewritten.disk ⟨"p", "S"⟩ [⟨"a"⟩] false).2 = none ∧
      ∃ p ∈ [⟨"a"⟩], oneFile.disk.Rewritten rewritten.disk p) ∧
    (reverted.cache.lookup reverted.disk ⟨"p", "S"⟩ [⟨"a"⟩] false).2 = some default := by
  intro rewritten reverted
  have hrewriting : oneFile.spares ⟨"p", "S"⟩ rewriting = true := rfl
  have hreverting : oneFile.spares ⟨"p", "S"⟩ reverting = true := rfl
  have hfast : (rewritten.cache.lookup rewritten.disk ⟨"p", "S"⟩ [⟨"a"⟩] true).2 = some default := by
    refine (lookup_after_put hrewriting true).trans (if_pos (fits_fast_iff.2 ?_))
    rw [sortedPaths_oneFile]
    decide +kernel
  have hfull : (rewritten.cache.lookup rewritten.disk ⟨"p", "S"⟩ [⟨"a"⟩] false).2 = none := by
    refine (lookup_after_put hrewriting false).trans (if_neg fun hfits => ?_)
    rw [fits_full_iff, Fingerprint.contentOf_eq_iff, sortedPaths_oneFile] at hfits
    revert hfits
    decide +kernel
  refine ⟨⟨hfast, hfull, ?_⟩, ?_⟩
  · exact (lookups_after_put _ _ _ _ rewriting hrewriting).1 hfast hfull
  · exact (lookups_after_put _ _ _ _ reverting hreverting).2 (by decide)

end Desk

end SetCache

end Wiring
