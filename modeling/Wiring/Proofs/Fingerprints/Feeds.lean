/-
**Fingerprints that are built up.**

A fingerprint can be built up file by file, by somebody who holds the bytes already.  Of a file that is
recorded several times the last record counts, but it goes under the spelling that came first: that is what
the path in the ledger is, and the ledger does not change it.  So a ledger that is fed what the disk holds
comes to the fingerprint that is taken from disk, in whatever order it is fed and whatever has been recorded
before, as long as no file was recorded under another spelling first.

Main definitions:

* `Wiring.FileLedger.latest` — what was recorded last of a file;
* `Wiring.Fingerprint.Feeds` — what is recorded last of some files is what the disk holds;
* `Wiring.Fingerprint.Built` — how what is built compares with what is taken from disk.

Main results:

* `Wiring.FileLedger.files_ofList_eq` — **a ledger holds first spellings and last records**;
* `Wiring.Fingerprint.ledgerOf_sortedPaths` — a list with one spelling of each path can be recorded as it
  stands;
* `Wiring.Fingerprint.built` — **what is built from a feed is what is taken from disk**.
-/

import Wiring.Proofs.Fingerprints.FromDisk

set_option autoImplicit false

namespace Wiring

theorem leading?_concat (l : List Path) (p q : Path) :
    leading? (l ++ [q]) p = (leading? l p).or (if q.components = p.components then some q else none) := by
  rw [leading?, List.find?_append, ← leading?]
  by_cases h : q.components = p.components <;> simp [h]

namespace FileLedger

variable {files entries : List (Path × FileRecord)} {e : Path × FileRecord} {p q : Path} {r : FileRecord}

/-! ### First spellings and last records -/

/-- What was recorded last of a file, in whatever spelling. -/
def latest (entries : List (Path × FileRecord)) (p : Path) : FileRecord :=
  match entries.reverse.find? fun e => e.1.sameAs p with
  | some e => e.2
  | none => .missing

theorem latest_concat (entries : List (Path × FileRecord)) (e : Path × FileRecord) (p : Path) :
    latest (entries ++ [e]) p = if e.1.components = p.components then e.2 else latest entries p := by
  rw [latest, List.reverse_append, List.reverse_singleton, List.singleton_append, List.find?_cons]
  by_cases h : e.1.components = p.components
  · rw [Path.sameAs_iff.2 h, if_pos h]
  · rw [Bool.eq_false_iff.2 (mt Path.sameAs_iff.1 h), if_neg h, latest]

theorem latest_congr (h : p.components = q.components) (entries : List (Path × FileRecord)) :
    latest entries p = latest entries q := by
  simp only [latest, Path.sameAs, h]

/-- What is in a ledger after a record: the records of other files, and the new one under the spelling that
its path had before, if it had one. -/
theorem mem_enter (h : Ascending files) : e ∈ enter p r files ↔
    e ∈ files ∧ e.1.components ≠ p.components ∨
      e.1 = (leading? (files.map Prod.fst) p).getD p ∧ e.2 = r := by
  induction files with
  | nil => simp [enter, leading?, Prod.ext_iff]
  | cons first rest ih =>
      obtain ⟨hfirst, hrest⟩ := List.pairwise_cons.1 h
      have hnew : ∀ name : Path, e = (name, r) ↔ e.1 = name ∧ e.2 = r := fun name => Prod.ext_iff
      rw [enter, List.map_cons, leading?_cons]
      split
      next hsame =>
        rw [Path.sameAs_iff] at hsame
        -- the others ascend from here, so that none of them is the same file
        have hother : ∀ e ∈ rest, e.1.components ≠ p.components := fun e he heq =>
          (hfirst e he).2 (hsame.trans heq.symm)
        rw [if_pos hsame, Option.getD_some, List.mem_cons, List.mem_cons, hnew, or_comm]
        refine or_congr_left ⟨fun he => ⟨.inr he, hother e he⟩, ?_⟩
        rintro ⟨rfl | he, hne⟩
        · exact absurd hsame hne
        · exact he
      next hother =>
        rw [Path.sameAs_iff] at hother
        rw [if_neg hother]
        split
        next hle =>
          have hbefore : p.Before first.1 := ⟨hle, Ne.symm hother⟩
          have hall : ∀ e ∈ first :: rest, e.1.components ≠ p.components := by
            intro e he
            rcases List.mem_cons.1 he with rfl | he
            · exact hother
            · exact Ne.symm (hbefore.trans (hfirst e he)).2
          have hnone : leading? (rest.map Prod.fst) p = none := by
            refine List.find?_eq_none.2 fun q hq => ?_
            obtain ⟨e, he, rfl⟩ := List.mem_map.1 hq
            rw [Path.sameAs_iff]
            exact hall e (List.mem_cons_of_mem _ he)
          rw [hnone, Option.getD_none, List.mem_cons, hnew, or_comm]
          exact or_congr_left ⟨fun he => ⟨he, hall e he⟩, And.left⟩
        · rw [List.mem_cons, ih hrest, List.mem_cons, or_and_right, or_assoc]
          refine or_congr_left ⟨?_, And.left⟩
          rintro rfl
          exact ⟨rfl, hother⟩

theorem mem_files_ofList (entries : List (Path × FileRecord)) : e ∈ (ofList entries).files ↔
    leading? (entries.map Prod.fst) e.1 = some e.1 ∧ e.2 = latest entries e.1 := by
  induction entries using List.reverseRecOn generalizing e with
  | nil => simp [ofList, leading?]
  | append_singleton entries x ih =>
      -- a file has the spelling in the ledger that it came in with first
      have hleading : ∀ p, leading? ((ofList entries).files.map Prod.fst) p =
          leading? (entries.map Prod.fst) p := by
        intro p
        cases hp : leading? (entries.map Prod.fst) p with
        | none =>
            refine List.find?_eq_none.2 fun q hq hsame => ?_
            obtain ⟨e, he, rfl⟩ := List.mem_map.1 hq
            have hspelling := (ih.1 he).1
            rw [leading?_congr (Path.sameAs_iff.1 hsame), hp] at hspelling
            cases hspelling
        | some q =>
            have hq : (q, latest entries q) ∈ (ofList entries).files := ih.2 ⟨leading?_self hp, rfl⟩
            obtain ⟨q', hq'⟩ := exists_leading? (List.mem_map.2 ⟨_, hq, rfl⟩ :
              q ∈ (ofList entries).files.map Prod.fst)
            obtain ⟨e', he', rfl⟩ := List.mem_map.1 (mem_of_leading? hq')
            have hsame := components_of_leading? hq'
            have hspelling := (ih.1 he').1
            rw [leading?_congr hsame, leading?_self hp, Option.some.injEq] at hspelling
            rw [← leading?_congr (components_of_leading? hp), hq', hspelling]
      rw [ofList_concat, mem_enter (ascending_ofList entries), ih, List.map_append, List.map_singleton,
        leading?_concat, latest_concat, hleading]
      by_cases hsame : e.1.components = x.1.components
      · rw [if_pos hsame.symm, if_pos hsame.symm, leading?_congr hsame]
        cases leading? (entries.map Prod.fst) x.1 <;> simp [hsame, eq_comm]
      · have hother : e.1 ≠ (leading? (entries.map Prod.fst) x.1).getD x.1 := by
          intro heq
          cases hx : leading? (entries.map Prod.fst) x.1 with
          | none => exact hsame (by rw [heq, hx, Option.getD_none])
          | some q =>
              rw [hx, Option.getD_some] at heq
              exact hsame (heq ▸ components_of_leading? hx)
        rw [if_neg (Ne.symm hsame), if_neg (Ne.symm hsame), Option.or_none]
        simp [hsame, hother]

/-- **A ledger holds first spellings and last records**: of each file, in order, the record that came last
under the path that came first. -/
theorem files_ofList_eq (entries : List (Path × FileRecord)) :
    (ofList entries).files =
      (sortedPaths (entries.map Prod.fst)).map fun p => (p, latest entries p) := by
  have hascending : Ascending
      ((sortedPaths (entries.map Prod.fst)).map fun p => (p, latest entries p)) :=
    List.pairwise_map.2 (ascending_sortedPaths _)
  have hnodup : ∀ l : List (Path × FileRecord), Ascending l → l.Nodup := fun l h =>
    h.imp fun hbefore heq => hbefore.2 (congrArg (fun e => e.1.components) heq)
  refine (ascending_ofList entries).eq_of_perm hascending ?_
  refine (List.perm_ext_iff_of_nodup (hnodup _ (ascending_ofList entries)) (hnodup _ hascending)).2
    fun e => ?_
  rw [mem_files_ofList, List.mem_map]
  constructor
  · rintro ⟨hspelling, hrecord⟩
    exact ⟨e.1, mem_sortedPaths.2 hspelling, Prod.ext rfl hrecord.symm⟩
  · rintro ⟨p, hp, rfl⟩
    exact ⟨mem_sortedPaths.1 hp, rfl⟩

end FileLedger

namespace Fingerprint

variable {disk : Disk} {paths paths' l : List Path} {entries : List (Path × FileRecord)} {p : Path}

/-! ### Lists that are recorded as they stand -/

/-- A list with one spelling of each path can be recorded as it stands. -/
theorem ledgerOf_sortedPaths (h : ∀ p ∈ l, ∀ q ∈ l, p.components = q.components → p = q) :
    ledgerOf disk (sortedPaths l) = ledgerOf disk l := by
  have hledger : ledgerOf disk l = .ofList (l.map fun p => (p, recordOf disk p)) := by
    rw [FileLedger.ofList, List.foldl_map]
    rfl
  have hpaths : (l.map fun p => (p, recordOf disk p)).map Prod.fst = l := by
    rw [List.map_map]
    exact List.map_id' l
  have hlatest : ∀ p ∈ l, FileLedger.latest (l.map fun p => (p, recordOf disk p)) p = recordOf disk p := by
    intro p hp
    unfold FileLedger.latest
    split
    next e he =>
      obtain ⟨q, hq, rfl⟩ := List.mem_map.1 (List.mem_reverse.1 (List.mem_of_find?_eq_some he))
      have hsame := List.find?_some he
      rw [h q hq p hp (Path.sameAs_iff.1 hsame)]
    next hnone =>
      have hself := List.find?_eq_none.1 hnone (p, recordOf disk p)
        (List.mem_reverse.2 (List.mem_map.2 ⟨p, hp, rfl⟩))
      exact absurd (Path.sameAs_iff.2 rfl) hself
  have hfiles : (ledgerOf disk l).files = (ledgerOf disk (sortedPaths l)).files := by
    rw [hledger, FileLedger.files_ofList_eq, hpaths, files_ledgerOf]
    exact List.map_congr_left fun p hp => by rw [hlatest p (mem_of_mem_sortedPaths hp)]
  exact congrArg FileLedger.mk hfiles.symm

/-! ### Feeds -/

/-- What is fed are records of the given files, and the last of each is what the disk holds, under the path
as it is given. -/
structure Feeds (disk : Disk) (paths : List Path) (entries : List (Path × FileRecord)) : Prop where
  known : ∀ e ∈ entries, ∃ p ∈ paths, e.1.components = p.components
  last : ∀ p ∈ paths, entries.reverse.find? (fun e => e.1.sameAs p) = some (p, recordOf disk p)

theorem Feeds.latest_eq (h : Feeds disk paths entries) (hp : p ∈ paths) :
    FileLedger.latest entries p = recordOf disk p := by
  rw [FileLedger.latest, h.last p hp]

theorem Feeds.mem (h : Feeds disk paths entries) (hp : p ∈ paths) : p ∈ entries.map Prod.fst :=
  List.mem_map.2 ⟨_, List.mem_reverse.1 (List.mem_of_find?_eq_some (h.last p hp)), rfl⟩

theorem Feeds.exists_path (h : Feeds disk paths entries) (hp : p ∈ entries.map Prod.fst) :
    ∃ q ∈ paths, p.components = q.components := by
  obtain ⟨e, he, rfl⟩ := List.mem_map.1 hp
  exact h.known e he

/-- A list of different paths is its own list of first spellings. -/
theorem mem_sortedPaths_of_distinct (hdistinct : (l.map Path.components).Nodup) :
    p ∈ sortedPaths l ↔ p ∈ l := by
  refine ⟨mem_of_mem_sortedPaths, fun hp => mem_sortedPaths.2 ?_⟩
  exact leading?_of_single (fun p hp q hq hsame => List.inj_on_of_nodup_map hdistinct hp hq hsame) hp

/-- Apart from the spellings, what is built holds what is read from disk. -/
theorem Feeds.map_files_eq (h : Feeds disk paths entries)
    (hdistinct : (paths.map Path.components).Nodup) (hperm : paths.Perm paths') :
    ((FileLedger.ofList entries).files.map fun e => (e.1.components, e.2)) =
      (ledgerOf disk (sortedPaths paths')).files.map fun e => (e.1.components, e.2) := by
  have hgiven : ∀ p, p ∈ sortedPaths paths' ↔ p ∈ paths := fun p => by
    rw [mem_sortedPaths_of_distinct ((hperm.map _).nodup_iff.1 hdistinct), hperm.mem_iff]
  rw [FileLedger.files_ofList_eq, files_ledgerOf, List.map_map, List.map_map]
  refine eq_of_ascending (ascending_map_sortedPaths _ _) (ascending_map_sortedPaths _ _) fun pair => ?_
  rw [List.mem_map, List.mem_map]
  constructor
  · rintro ⟨q, hq, rfl⟩
    obtain ⟨p, hp, hsame⟩ := h.exists_path (mem_of_mem_sortedPaths hq)
    refine ⟨p, (hgiven p).2 hp, ?_⟩
    simp only [Function.comp_apply, FileLedger.latest_congr hsame, h.latest_eq hp, hsame]
  · rintro ⟨p, hp, rfl⟩
    have hmem : p ∈ paths := (hgiven p).1 hp
    obtain ⟨q, hq⟩ := exists_leading? (h.mem hmem)
    have hsame := components_of_leading? hq
    refine ⟨q, mem_sortedPaths.2 (leading?_self hq), ?_⟩
    simp only [Function.comp_apply, FileLedger.latest_congr hsame, h.latest_eq hmem, hsame]

/-- The files of a feed are kept under the given paths exactly if those came first. -/
theorem Feeds.sortedPaths_eq_iff (h : Feeds disk paths entries)
    (hdistinct : (paths.map Path.components).Nodup) (hperm : paths.Perm paths') :
    sortedPaths (entries.map Prod.fst) = sortedPaths paths' ↔
      ∀ p ∈ paths, leading? (entries.map Prod.fst) p = some p := by
  have hgiven : ∀ p, p ∈ sortedPaths paths' ↔ p ∈ paths := fun p => by
    rw [mem_sortedPaths_of_distinct ((hperm.map _).nodup_iff.1 hdistinct), hperm.mem_iff]
  constructor
  · exact fun heq p hp => mem_sortedPaths.1 (heq ▸ (hgiven p).2 hp)
  · intro hspelling
    have hunits := eq_of_ascending (ascending_map_sortedPaths id (entries.map Prod.fst))
      (ascending_map_sortedPaths id paths') fun pair => by
        rw [List.mem_map, List.mem_map]
        refine exists_congr fun q => and_congr_left fun _ => ?_
        rw [hgiven, mem_sortedPaths]
        refine ⟨fun hq => ?_, hspelling q⟩
        obtain ⟨p, hp, hsame⟩ := h.exists_path (mem_of_leading? hq)
        rw [leading?_congr hsame, hspelling p hp, Option.some.injEq] at hq
        exact hq ▸ hp
    simpa only [List.map_map, Function.comp_def, id_eq, List.map_id'] using
      congrArg (List.map Prod.snd) hunits

/-- How a fingerprint that is built from a feed compares with the one that is taken from disk. -/
structure Built (disk : Disk) (paths : List Path) (entries : List (Path × FileRecord))
    (paths' : List Path) : Prop where
  /-- The metadata agree. -/
  metadata : MetadataFingerprint.agrees (FileLedger.ofList entries).finish.metadata
    (ofDisk disk paths').metadata = true
  /-- Both are the same if nothing is fed under another spelling. -/
  listed : (∀ e ∈ entries, e.1 ∈ paths) → (FileLedger.ofList entries).finish = ofDisk disk paths'
  /-- Both are the same if each path is fed as it is given first. -/
  same : (∀ p ∈ paths, leading? (entries.map Prod.fst) p = some p) →
    (FileLedger.ofList entries).finish = ofDisk disk paths'
  /-- The contents agree only in that case: unless a path holds a zero, a digest starts with the mark of a
  missing file, or the two streams have the same digest by chance. -/
  content : (∀ e ∈ entries, e.1.ZeroFree) →
    (∀ p ∈ paths, ∀ bytes ∈ (disk.read p).toOption, ¬ FileLedger.Marked (Digest.sha256 bytes)) →
    (Digest.sha256 (FileLedger.ofList entries).stream =
        Digest.sha256 (ledgerOf disk (sortedPaths paths')).stream →
      (FileLedger.ofList entries).stream = (ledgerOf disk (sortedPaths paths')).stream) →
    ((FileLedger.ofList entries).finish.content = (ofDisk disk paths').content ↔
      ∀ p ∈ paths, leading? (entries.map Prod.fst) p = some p)

/-- **What is built from a feed is what is taken from disk**, up to paths that were first fed under another
spelling. -/
theorem built (h : Feeds disk paths entries)
    (hdistinct : (paths.map Path.components).Nodup) (hperm : paths.Perm paths') :
    Built disk paths entries paths' := by
  have hfiles := h.map_files_eq hdistinct hperm
  have hiff := h.sortedPaths_eq_iff hdistinct hperm
  have hsame : (∀ p ∈ paths, leading? (entries.map Prod.fst) p = some p) →
      (FileLedger.ofList entries).finish = ofDisk disk paths' := by
    intro hspelling
    have hlatest : (FileLedger.ofList entries).files = (ledgerOf disk (sortedPaths paths')).files := by
      rw [FileLedger.files_ofList_eq, hiff.2 hspelling, files_ledgerOf]
      refine List.map_congr_left fun p hp => ?_
      rw [h.latest_eq (hperm.mem_iff.2 (mem_of_mem_sortedPaths hp))]
    have hledger : FileLedger.ofList entries = ledgerOf disk (sortedPaths paths') :=
      congrArg FileLedger.mk hlatest
    rw [ofDisk, hledger]
  constructor
  case metadata =>
    rw [MetadataFingerprint.agrees, decide_eq_true_eq]
    have hstats := congrArg (List.map fun e : List Component × FileRecord => (e.1, e.2.stat)) hfiles
    simpa only [ofDisk, FileLedger.finish, List.map_map, Function.comp_def] using hstats
  case listed =>
    intro hlisted
    refine hsame fun p hp => ?_
    obtain ⟨q, hq⟩ := exists_leading? (h.mem hp)
    obtain ⟨e, he, rfl⟩ := List.mem_map.1 (mem_of_leading? hq)
    rw [hq, List.inj_on_of_nodup_map hdistinct (hlisted e he) hp (components_of_leading? hq)]
  case same => exact hsame
  case content =>
    intro hzero hmark hcollision
    refine ⟨fun hcontent => hiff.1 ?_, fun hspelling => by rw [hsame hspelling]⟩
    have hstream := hcollision (FileLedger.content_eq_iff.1 hcontent)
    have hplain : ∀ p ∈ paths, (recordOf disk p).Plain := fun p hp => by
      rw [recordOf_eq]
      exact FileRecord.plain_ofContent (hmark p hp) _
    have hreadable : ∀ e ∈ (FileLedger.ofList entries).files, e.1.ZeroFree ∧ e.2.Plain := by
      intro e he
      rw [FileLedger.files_ofList_eq] at he
      obtain ⟨q, hq, rfl⟩ := List.mem_map.1 he
      have hmem := mem_of_mem_sortedPaths hq
      obtain ⟨p, hp, hsame⟩ := h.exists_path hmem
      obtain ⟨e, he, heq⟩ := List.mem_map.1 hmem
      refine ⟨heq ▸ hzero e he, ?_⟩
      rw [FileLedger.latest_congr hsame, h.latest_eq hp]
      exact hplain p hp
    have hreadable' : ∀ e ∈ (ledgerOf disk (sortedPaths paths')).files, e.1.ZeroFree ∧ e.2.Plain := by
      intro e he
      rw [files_ledgerOf] at he
      obtain ⟨p, hp, rfl⟩ := List.mem_map.1 he
      have hmem := hperm.mem_iff.2 (mem_of_mem_sortedPaths hp)
      obtain ⟨e, he, heq⟩ := List.mem_map.1 (h.mem hmem)
      exact ⟨heq ▸ hzero e he, hplain p hmem⟩
    have hviews := FileLedger.views_eq_of_stream_eq hreadable hreadable' hstream
    rw [FileLedger.files_ofList_eq, files_ledgerOf, List.map_map, List.map_map] at hviews
    have hnames := congrArg (List.map Prod.fst) hviews
    simpa only [List.map_map, Function.comp_def, FileLedger.view, List.map_id'] using hnames

end Fingerprint

end Wiring
