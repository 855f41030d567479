/-
**Writing several files.**

All files are attempted, one after the other.  As long as none of their places is at or above that of
another one, no attempt takes part in what becomes of the other files: each ends as it would have ended
alone, and holds its bytes in the end or is as it was, and a reader never comes upon half of one.  The report
lists the statuses or the problems in the order of the files, and when nothing has failed a second call finds
all as it should be.

Where two paths lead to the same place, or a step up starts from a folder that is only made on the way,
the paths do not tell this apart.

Main definitions:

* `Wiring.Disk.Apart`, `Wiring.Disk.Separate` — files that do not get in each other's way;
* `Wiring.Disk.Outcome` — what becomes of one file among others;
* `Wiring.Disk.Report` — what becomes of all.

Main results:

* `Wiring.Disk.Attempt.sameAt` — one attempt leaves the places of other files as they are;
* `Wiring.Disk.Rooted.unseen_writeEach` — what a reader may come upon while one of the files is written;
* `Wiring.Disk.Rooted.outcomes_writeEach` — all attempts, by induction on the files;
* `Wiring.Disk.writeAll_reports` — **all are attempted, and all are reported**.
-/

import Wiring.Proofs.Disk.Stages

set_option autoImplicit false

namespace Wiring.Disk

variable {disk before after : Disk} {place other : Location} {p q : Path} {bytes : List UInt8}
  {file : Path × List UInt8} {files : List (Path × List UInt8)} {result : Except Problem WriteStatus}

/-! ### Files that do not get in each other's way -/

/-- Two paths whose places are not at or above each other, but for a folder that is there. -/
structure Apart (disk : Disk) (p q : Path) : Prop where
  first : ∀ {place other}, disk.goal? p = some place → disk.goal? q = some other → place <+: other →
    disk.node? place = some .folder
  second : ∀ {place other}, disk.goal? p = some place → disk.goal? q = some other → other <+: place →
    disk.node? other = some .folder

theorem Apart.symm (h : disk.Apart p q) : disk.Apart q p :=
  ⟨fun hq hp => h.second hp hq, fun hq hp => h.first hp hq⟩

/-- Files whose paths name places that are apart. -/
structure Separate (disk : Disk) (files : List (Path × List UInt8)) : Prop where
  goal : ∀ file ∈ files, ∃ place, disk.goal? file.1 = some place
  apart : files.Pairwise fun file other => disk.Apart file.1 other.1

theorem Apart.of_goal (hp : disk.goal? p = some place) (hq : disk.goal? q = some other)
    (hfirst : ¬ place <+: other) (hsecond : ¬ other <+: place) : disk.Apart p q := by
  constructor
  · intro place' other' hp' hq' hwithin
    cases hp.symm.trans hp'
    cases hq.symm.trans hq'
    exact absurd hwithin hfirst
  · intro place' other' hp' hq' hwithin
    cases hp.symm.trans hp'
    cases hq.symm.trans hq'
    exact absurd hwithin hsecond

theorem Apart.grows (h : before.Apart p q) (hp : before.goal? p = some place) (hq : before.goal? q = some other)
    (hgrows : Grows before after) : after.Apart p q := by
  constructor
  · intro place' other' hp' hq' hwithin
    cases (hgrows.goal? hp).symm.trans hp'
    cases (hgrows.goal? hq).symm.trans hq'
    exact hgrows.folder (h.first hp hq hwithin)
  · intro place' other' hp' hq' hwithin
    cases (hgrows.goal? hp).symm.trans hp'
    cases (hgrows.goal? hq).symm.trans hq'
    exact hgrows.folder (h.second hp hq hwithin)

theorem Separate.grows (h : before.Separate files) (hgrows : Grows before after) : after.Separate files := by
  refine ⟨fun file hfile => ?_, h.apart.imp_of_mem fun {file other} hfile hother hapart => ?_⟩
  · obtain ⟨place, hplace⟩ := h.goal file hfile
    exact ⟨place, hgrows.goal? hplace⟩
  · obtain ⟨_, hp⟩ := h.goal file hfile
    obtain ⟨_, hq⟩ := h.goal other hother
    exact hapart.grows hp hq hgrows

theorem Separate.of_cons (h : disk.Separate (file :: files)) :
    (∃ place, disk.goal? file.1 = some place) ∧ disk.Separate files ∧
      ∀ other ∈ files, disk.Apart file.1 other.1 := by
  obtain ⟨hgoal, hapart⟩ := h
  rw [List.pairwise_cons] at hapart
  exact ⟨hgoal file List.mem_cons_self, ⟨fun other hother => hgoal other (List.mem_cons_of_mem _ hother),
    hapart.2⟩, hapart.1⟩

/-! ### One attempt and the other files -/

/-- **An attempt leaves the places of other files as they are**, and what is in their way. -/
theorem Attempt.sameAt (h : Attempt before p bytes place after result) (hapart : before.Apart p q)
    (hp : before.goal? p = some place) (hq : before.goal? q = some other) : SameAt before after other := by
  have hwritten : result = .ok .written → ¬ place <+: other := by
    intro hresult hwithin
    exact (h.able.1 ⟨_, hresult⟩).fits.free (hapart.first hp hq hwithin)
  constructor
  · cases h.changes other with
    | kept hkept => exact hkept
    | made habove _ hnew => cases hnew.symm.trans (hapart.second hp hq habove)
    | written hplace hresult => exact absurd (hplace ▸ List.prefix_rfl) (hwritten hresult)
  · intro above habove held modified
    cases h.changes above with
    | kept hkept => rw [hkept]
    | made _ _ hnew hfolder =>
        rw [hnew, hfolder]
        exact ⟨nofun, nofun⟩
    | written hplace hresult => exact absurd (hplace ▸ habove) (hwritten hresult)

/-- An attempt that writes nothing leaves its own place as it is. -/
theorem Attempt.sameAt_self (h : Attempt before p bytes place after result) (hresult : result ≠ .ok .written) :
    SameAt before after place := by
  constructor
  · cases h.changes place with
    | kept hkept => exact hkept
    | made _ hne => exact absurd rfl hne
    | written _ hresult' => exact absurd hresult' hresult
  · intro above habove held modified
    cases h.changes above with
    | kept hkept => rw [hkept]
    | made _ _ hnew hfolder =>
        rw [hnew, hfolder]
        exact ⟨nofun, nofun⟩
    | written _ hresult' => exact absurd hresult' hresult

theorem SameAt.fits_iff (h : SameAt before after place) : after.Fits p place ↔ before.Fits p place := by
  constructor
  · rintro ⟨hname, hclear, hfree⟩
    exact ⟨hname, (h.clear_iff (List.dropLast_prefix place)).1 hclear, h.node ▸ hfree⟩
  · rintro ⟨hname, hclear, hfree⟩
    exact ⟨hname, (h.clear_iff (List.dropLast_prefix place)).2 hclear, h.node.symm ▸ hfree⟩

theorem read_eq_of_find_eq (h : after.find p = before.find p) : after.read p = before.read p := by
  rw [read, read, h]

theorem SameAt.takes_iff (h : SameAt before after place) (hread : after.read p = before.read p)
    (hrefuses : after.refuses = before.refuses) :
    after.Takes p bytes place ↔ before.Takes p bytes place := by
  constructor
  · rintro ⟨hfits, hgranted⟩
    exact ⟨h.fits_iff.1 hfits, hread ▸ hrefuses ▸ hgranted⟩
  · rintro ⟨hfits, hgranted⟩
    exact ⟨h.fits_iff.2 hfits, hread.symm ▸ hrefuses.symm ▸ hgranted⟩

theorem grows_writeAtomic (disk : Disk) (p : Path) (bytes : List UInt8) :
    Grows disk (disk.writeAtomic p bytes).1 :=
  (writes_writeAtomic disk p bytes).grows

theorem Rooted.writeEach (h : disk.Rooted) (files : List (Path × List UInt8)) :
    (disk.writeEach files).1.Rooted := by
  induction files generalizing disk with
  | nil => exact h
  | cons file rest ih => exact ih (h.writeAtomic file.1 file.2)

/-- All attempts leave the place of a file that is apart from them as it is. -/
theorem Rooted.sameAt_writeEach (h : disk.Rooted) (hfiles : disk.Separate files)
    (hq : disk.goal? q = some other) (hapart : ∀ file ∈ files, disk.Apart file.1 q) :
    SameAt disk (disk.writeEach files).1 other := by
  induction files generalizing disk with
  | nil => exact .refl disk other
  | cons file rest ih =>
      obtain ⟨p, bytes⟩ := file
      obtain ⟨⟨place, hp⟩, hrest, -⟩ := hfiles.of_cons
      have hgrows := grows_writeAtomic disk p bytes
      have hfirst := (h.attempt hp bytes).sameAt (hapart _ List.mem_cons_self) hp hq
      refine hfirst.trans (ih (h.writeAtomic p bytes) (hrest.grows hgrows) (hgrows.goal? hq) ?_)
      intro later hlater
      obtain ⟨place', hp'⟩ := hrest.goal later hlater
      exact (hapart later (List.mem_cons_of_mem _ hlater)).grows hp' hq hgrows

/-! ### What a reader may come upon -/

theorem writeEach_append (disk : Disk) (files more : List (Path × List UInt8)) :
    (disk.writeEach (files ++ more)).1 = ((disk.writeEach files).1.writeEach more).1 := by
  induction files generalizing disk with
  | nil => rfl
  | cons file rest ih => exact ih _

/-- **After some of the attempts** every place is as it was before all of them, or as it is in the end. -/
theorem Rooted.between_writeEach {more : List (Path × List UInt8)} (h : disk.Rooted)
    (hfiles : disk.Separate (files ++ more)) (loc : Location) :
    (disk.writeEach files).1.node? loc = disk.node? loc ∨
      (disk.writeEach files).1.node? loc = (disk.writeEach (files ++ more)).1.node? loc := by
  obtain ⟨hgoals, hapart⟩ := hfiles
  obtain ⟨hapart, -, hacross⟩ := List.pairwise_append.1 hapart
  have hfirst := (writes_writeEach disk files).grows
  have hlater := writes_writeEach (disk.writeEach files).1 more
  rw [writeEach_append]
  cases hlater.changes loc with
  | kept hkept => exact .inr hkept.symm
  | made hnew =>
      refine .inl (hnew.trans ?_)
      cases hnode : disk.node? loc with
      | none => rfl
      | some node =>
          obtain ⟨node', hnode'⟩ := hfirst.node hnode
          cases hnew.symm.trans hnode'
  | @written q _ _ hfile hplace =>
      -- a place that is still to be written is apart from those that have been
      obtain ⟨other, hother⟩ := hgoals _ (List.mem_append_right _ hfile)
      have hsame : other = loc := Option.some.inj
        ((hlater.grows.goal? (hfirst.goal? hother)).symm.trans (goal?_of_locate hplace))
      subst hsame
      refine .inl (h.sameAt_writeEach ⟨fun file hmem => hgoals file ?_, hapart⟩ hother ?_).node
      · exact List.mem_append_left _ hmem
      · exact fun file hmem => hacross file hmem _ hfile

/-- **While one of the files is written**, a reader finds everything but the temporary file as it was before all
attempts or as it is in the end. -/
theorem Rooted.unseen_writeEach {earlier later : List (Path × List UInt8)} {up : Location} {name : String}
    (h : disk.Rooted) (hfiles : disk.Separate (earlier ++ (p, bytes) :: later))
    (hup : (disk.writeEach earlier).1.goal? (folderFor p) = some up)
    (hfresh : (disk.writeEach earlier).1.node? (up ++ [name]) = none)
    (hother : disk.goal? p ≠ some (up ++ [name])) :
    AtOnce disk (disk.writeEach (earlier ++ (p, bytes) :: later)).1
      ((disk.writeEach earlier).1.writeAtomic p bytes).1 (up ++ [name])
      ((disk.writeEach earlier).1.stages (up ++ [name]) p bytes) := by
  obtain ⟨place, hgoal⟩ := hfiles.goal (p, bytes) (List.mem_append_right _ List.mem_cons_self)
  have hgoal' := (writes_writeEach disk earlier).grows.goal? hgoal
  have hne : place ≠ up ++ [name] := by
    rintro rfl
    exact hother hgoal
  have hdone : ((disk.writeEach earlier).1.writeAtomic p bytes).1 =
      (disk.writeEach (earlier ++ [(p, bytes)])).1 := by
    rw [writeEach_append]
    rfl
  refine ((h.writeEach earlier).stages_atOnce hgoal' hup hfresh hne bytes).widen ?_ ?_
  · exact h.between_writeEach hfiles
  · rw [hdone]
    rw [List.append_cons earlier (p, bytes) later] at hfiles ⊢
    exact h.between_writeEach hfiles

/-! ### What becomes of each file -/

/-- **What becomes of one file** among others. -/
structure Outcome (before after : Disk) (file : Path × List UInt8) (result : Except Problem WriteStatus) :
    Prop where
  /-- It is written, or found unchanged, if it fits and is not refused. -/
  able : (∃ status, result = .ok status) ↔
    ∃ place, before.goal? file.1 = some place ∧ before.Takes file.1 file.2 place
  /-- It is found unchanged if it held its bytes already. -/
  unchanged : result = .ok .unchanged ↔ before.read file.1 = .ok file.2
  /-- Written or unchanged, it holds its bytes in the end. -/
  held : ∀ status, result = .ok status → after.read file.1 = .ok file.2
  /-- If nothing was written, its path leads to what it led to. -/
  kept : result ≠ .ok .written → after.find file.1 = before.find file.1
  complains : ∀ problem, result = .error problem → ∃ message ∈ complaints file.1,
    problem.chain.head? = some message

/-- What becomes of a file does not depend on what other attempts did before. -/
theorem Outcome.of_sameAt {mid : Disk} (h : Outcome mid after file result) (hbefore : before.Rooted)
    (hmid : mid.Rooted) (hgrows : Grows before mid) (hrefuses : mid.refuses = before.refuses)
    (hgoal : before.goal? file.1 = some place) (hsame : SameAt before mid place) :
    Outcome before after file result := by
  have hgoal' := hgrows.goal? hgoal
  have hfind := find_eq_of_sameAt hbefore hmid hgoal hgoal' hsame
  have hread := read_eq_of_find_eq hfind
  refine ⟨h.able.trans ?_, ?_, h.held, fun hresult => (h.kept hresult).trans hfind, h.complains⟩
  · constructor
    · rintro ⟨place', hplace', htakes⟩
      cases hgoal'.symm.trans hplace'
      exact ⟨place, hgoal, (hsame.takes_iff hread hrefuses).1 htakes⟩
    · rintro ⟨place', hplace', htakes⟩
      cases hgoal.symm.trans hplace'
      exact ⟨place, hgoal', (hsame.takes_iff hread hrefuses).2 htakes⟩
  · rw [h.unchanged, hread]

/-- What becomes of a file does not depend on what other attempts do later. -/
theorem Attempt.outcome {mid : Disk} (h : Attempt before p bytes place mid result) (hbefore : before.Rooted)
    (hmid : mid.Rooted) (hafter : after.Rooted) (hgrows : Grows before mid) (hlater : Grows mid after)
    (hgoal : before.goal? p = some place) (hsame : SameAt mid after place)
    (hheld : ∀ status, result = .ok status → mid.read p = .ok bytes) :
    Outcome before after (p, bytes) result := by
  have hgoal' := hgrows.goal? hgoal
  have hfind := find_eq_of_sameAt hmid hafter hgoal' (hlater.goal? hgoal') hsame
  refine ⟨h.able.trans ?_, h.unchanged, ?_, fun hresult => ?_, h.complains⟩
  · constructor
    · exact fun htakes => ⟨place, hgoal, htakes⟩
    · rintro ⟨place', hplace', htakes⟩
      cases hgoal.symm.trans hplace'
      exact htakes
  · exact fun status hstatus => (read_eq_of_find_eq hfind).trans (hheld status hstatus)
  · exact hfind.trans (find_eq_of_sameAt hbefore hmid hgoal hgoal' (h.sameAt_self hresult))

/-- What has been written can be read. -/
theorem read_writeAtomic {status : WriteStatus} (h : (disk.writeAtomic p bytes).2 = .ok status) :
    (disk.writeAtomic p bytes).1.read p = .ok bytes := by
  obtain ⟨q, held, hfile, hread, -⟩ := holds_writeAtomic h
  cases List.mem_singleton.1 hfile
  exact hread

/-- **All attempts**, by induction on the files: what the first one leaves is apart from the others, and
they leave its place as it is. -/
theorem Rooted.outcomes_writeEach (h : disk.Rooted) (hfiles : disk.Separate files) :
    List.Forall₂ (Outcome disk (disk.writeEach files).1) files (disk.writeEach files).2 := by
  induction files generalizing disk with
  | nil => exact .nil
  | cons file rest ih =>
      obtain ⟨p, bytes⟩ := file
      obtain ⟨⟨place, hp⟩, hrest, hapart⟩ := hfiles.of_cons
      have hgrows := grows_writeAtomic disk p bytes
      have hmid := h.writeAtomic p bytes
      have hrest' := hrest.grows hgrows
      have hattempt := h.attempt hp bytes
      refine .cons ?_ ?_
      · refine hattempt.outcome h hmid (hmid.writeEach rest) hgrows (writes_writeEach _ rest).grows hp
          (hmid.sameAt_writeEach hrest' (hgrows.goal? hp) fun later hlater => ?_) fun _ => read_writeAtomic
        obtain ⟨other, hq⟩ := hrest.goal later hlater
        exact ((hapart later hlater).grows hp hq hgrows).symm
      · have hsame : ∀ later ∈ rest, ∃ other, disk.goal? later.1 = some other ∧
            SameAt disk (disk.writeAtomic p bytes).1 other := by
          intro later hlater
          obtain ⟨other, hq⟩ := hrest.goal later hlater
          exact ⟨other, hq, hattempt.sameAt (hapart later hlater) hp hq⟩
        refine ((List.forall₂_and_left _ _).2 ⟨hsame, ih hmid hrest'⟩).imp ?_
        rintro later result ⟨⟨other, hq, hother⟩, houtcome⟩
        exact houtcome.of_sameAt h hmid hgrows (refuses_writeAtomic disk p bytes) hq hother

/-! ### What becomes of all files -/

theorem problemsOf_eq_nil_iff {results : List (Except Problem WriteStatus)} :
    problemsOf results = [] ↔ results = (statusesOf results).map .ok := by
  induction results with
  | nil => exact iff_of_true rfl rfl
  | cons result rest ih =>
      cases result with
      | ok status =>
          change problemsOf rest = [] ↔ .ok status :: rest = .ok status :: (statusesOf rest).map .ok
          rw [List.cons_inj_right]
          exact ih
      | error problem =>
          refine iff_of_false (by simp [problemsOf]) fun hmap => ?_
          have hmem : Except.error problem ∈ (statusesOf (.error problem :: rest)).map Except.ok :=
            hmap ▸ List.mem_cons_self
          obtain ⟨status, -, hstatus⟩ := List.mem_map.1 hmem
          cases hstatus

theorem statusesOf_map_ok (statuses : List WriteStatus) :
    statusesOf (statuses.map Except.ok) = statuses := by
  rw [statusesOf, List.filterMap_map]
  exact List.filterMap_some

theorem problemsOf_map_ok (statuses : List WriteStatus) : problemsOf (statuses.map Except.ok) = [] := by
  rw [problemsOf_eq_nil_iff, statusesOf_map_ok]

/-- Where every file can be read already, nothing happens. -/
theorem writeEach_of_read (h : ∀ file ∈ files, disk.read file.1 = .ok file.2) :
    disk.writeEach files = (disk, files.map fun _ => .ok .unchanged) := by
  induction files with
  | nil => rfl
  | cons file rest ih =>
      have hfirst : disk.writeAtomic file.1 file.2 = (disk, .ok .unchanged) :=
        if_pos (holds_iff.2 (h file List.mem_cons_self))
      rw [Disk.writeEach, hfirst]
      dsimp only
      rw [ih fun later hlater => h later (List.mem_cons_of_mem _ hlater)]
      rfl

/-- **What becomes of all files**, and what is reported: the results are those of the attempts, in the
order of the files. -/
structure Report (before after : Disk) (files : List (Path × List UInt8))
    (results : List (Except Problem WriteStatus)) (verdict : Except Problem (List WriteStatus)) : Prop where
  each : List.Forall₂ (Outcome before after) files results
  /-- Nothing changes but the places of the files, and where folders are made. -/
  frame : Writes before after files
  /-- Folders are made only above the place of a file. -/
  folders : ∀ loc, before.node? loc = none → after.node? loc = some .folder →
    ∃ file ∈ files, ∃ place, before.goal? file.1 = some place ∧ loc <+: place ∧ loc ≠ place
  /-- While a file is written, by way of a temporary file at a place that is free, a reader finds everything else
  as it was before all writes or as it is in the end.  At last the temporary file is gone, and everything is as
  the write is to leave it. -/
  unseen : ∀ earlier p bytes later, files = earlier ++ (p, bytes) :: later → ∀ up name,
    (before.writeEach earlier).1.goal? (folderFor p) = some up →
    (before.writeEach earlier).1.node? (up ++ [name]) = none → before.goal? p ≠ some (up ++ [name]) →
    AtOnce before after ((before.writeEach earlier).1.writeAtomic p bytes).1 (up ++ [name])
      ((before.writeEach earlier).1.stages (up ++ [name]) p bytes)
  /-- The statuses are reported if nothing fails. -/
  done : ∀ statuses, verdict = .ok statuses ↔ results = statuses.map .ok
  /-- Otherwise the problems are counted and listed. -/
  failed : ∀ problem, verdict = .error problem ↔ problemsOf results ≠ [] ∧ problem =
    { cause := .plain ("Failed to write " ++ toString (problemsOf results).length ++ " files:\n" ++
        Text.join "\n" ((problemsOf results).map fun p => "  " ++ p.text)) }
  /-- After that a second call finds everything unchanged. -/
  again : ∀ statuses, verdict = .ok statuses →
    after.writeAll files = (after, .ok (files.map fun _ => .unchanged))

/-- The folders that are made are above the places of the files. -/
theorem Rooted.folders_writeEach (h : disk.Rooted) (hfiles : disk.Separate files) {loc : Location}
    (hnone : disk.node? loc = none) (hfolder : (disk.writeEach files).1.node? loc = some .folder) :
    ∃ file ∈ files, ∃ place, disk.goal? file.1 = some place ∧ loc <+: place ∧ loc ≠ place := by
  induction files generalizing disk with
  | nil => cases hnone.symm.trans hfolder
  | cons file rest ih =>
      obtain ⟨p, bytes⟩ := file
      obtain ⟨⟨place, hp⟩, hrest, -⟩ := hfiles.of_cons
      have hgrows := grows_writeAtomic disk p bytes
      cases (h.attempt hp bytes).changes loc with
      | kept hkept =>
          obtain ⟨later, hlater, place', hplace', hwithin⟩ :=
            ih (h.writeAtomic p bytes) (hrest.grows hgrows) (hkept.trans hnone) hfolder
          obtain ⟨other, hother⟩ := hrest.goal later hlater
          cases (hgrows.goal? hother).symm.trans hplace'
          exact ⟨later, List.mem_cons_of_mem _ hlater, _, hother, hwithin⟩
      | made habove hne => exact ⟨(p, bytes), List.mem_cons_self, place, hp, habove, hne⟩
      | written _ _ hwritten =>
          -- a file stays a file
          cases (writes_writeEach (disk.writeAtomic p bytes).1 rest).changes loc with
          | kept hkept => cases (hkept.trans hwritten).symm.trans hfolder
          | made hnew => cases hnew.symm.trans hwritten
          | written _ _ _ hlater => cases hlater.symm.trans hfolder

theorem writeAll_eq (disk : Disk) (files : List (Path × List UInt8)) :
    disk.writeAll files = ((disk.writeEach files).1,
      if problemsOf (disk.writeEach files).2 = [] then .ok (statusesOf (disk.writeEach files).2)
      else .error { cause := .plain ("Failed to write " ++
        toString (problemsOf (disk.writeEach files).2).length ++ " files:\n" ++
        Text.join "\n" ((problemsOf (disk.writeEach files).2).map fun p => "  " ++ p.text)) }) := by
  rw [writeAll]
  dsimp only
  split
  next hnone => rw [if_pos hnone]
  next hsome => rw [if_neg hsome]

/-- **All files are attempted, and all are reported.** -/
theorem writeAll_reports (h : disk.Rooted) (hfiles : disk.Separate files) :
    ∃ results, Report disk (disk.writeAll files).1 files results (disk.writeAll files).2 := by
  have heach := h.outcomes_writeEach hfiles
  have hdone : ∀ statuses, (disk.writeAll files).2 = .ok statuses ↔
      (disk.writeEach files).2 = statuses.map .ok := by
    intro statuses
    rw [writeAll_eq]
    constructor
    · intro hverdict
      dsimp only at hverdict
      split at hverdict
      next hnone =>
        rw [← Except.ok.inj hverdict]
        exact problemsOf_eq_nil_iff.1 hnone
      · cases hverdict
    · intro hresults
      rw [hresults, if_pos (problemsOf_map_ok statuses), statusesOf_map_ok]
  have hfirst : (disk.writeAll files).1 = (disk.writeEach files).1 := by rw [writeAll_eq]
  refine ⟨(disk.writeEach files).2, ?_, writes_writeAll disk files, ?_, ?_, hdone, ?_, ?_⟩
  · rwa [hfirst]
  · rw [hfirst]
    exact fun loc => h.folders_writeEach hfiles
  · rw [hfirst]
    rintro earlier p bytes later rfl up name
    exact h.unseen_writeEach hfiles
  · intro problem
    rw [writeAll_eq]
    dsimp only
    split
    next hnone => exact ⟨nofun, fun hsome => absurd hnone hsome.1⟩
    next hsome => exact ⟨fun hproblem => ⟨hsome, (Except.error.inj hproblem).symm⟩, fun hproblem => by rw [hproblem.2]⟩
  · intro statuses hstatuses
    have hresults := (hdone statuses).1 hstatuses
    rw [hresults, List.forall₂_map_right_iff] at heach
    have hread : ∀ file ∈ files, (disk.writeEach files).1.read file.1 = .ok file.2 :=
      ((List.forall₂_and_left _ _).1
        (heach.imp fun file status houtcome => ⟨houtcome.held status rfl, houtcome⟩)).1
    have hsecond : (files.map fun _ => .ok .unchanged : List (Except Problem WriteStatus)) =
        (files.map fun _ => .unchanged).map .ok := List.map_map.symm
    rw [hfirst, writeAll_eq, writeEach_of_read hread]
    dsimp only
    rw [hsecond, if_pos (problemsOf_map_ok _), statusesOf_map_ok]

/-- A disk with one file. -/
def loneFile : Disk :=
  { nodes := ⟨[(["a"], .file [1] 0)]⟩ }

/-- A file in a new folder, and one that would have to stand below the file that is there. -/
def newAndBlocked : List (Path × List UInt8) :=
  [(⟨"new/b"⟩, [2]), (⟨"a/c"⟩, [3])]

/-- One file is written although the other one cannot be. -/
theorem writeAll_reports_blocked :
    (∃ results, Report loneFile (loneFile.writeAll newAndBlocked).1 newAndBlocked results
        (loneFile.writeAll newAndBlocked).2) ∧
      (loneFile.writeAll newAndBlocked).1.read ⟨"new/b"⟩ = .ok [2] ∧
      (loneFile.writeAll newAndBlocked).1.read ⟨"a"⟩ = .ok [1] := by
  have hnew : loneFile.goal? ⟨"new/b"⟩ = some ["new", "b"] := by decide
  have hblocked : loneFile.goal? ⟨"a/c"⟩ = some ["a", "c"] := by decide
  have hseparate : loneFile.Separate newAndBlocked := by
    constructor
    · simp only [newAndBlocked, List.forall_mem_cons]
      exact ⟨⟨_, hnew⟩, ⟨_, hblocked⟩, nofun⟩
    · rw [newAndBlocked, List.pairwise_pair]
      exact .of_goal hnew hblocked (by decide) (by decide)
  exact ⟨writeAll_reports (.of_entries (by decide) (by decide)) hseparate, by decide, by decide⟩

/-- A path with a step up from a folder that is not there, to the place of that folder. -/
def detour : List (Path × List UInt8) :=
  [(⟨"x/../x"⟩, [1])]

/-- A path with a step up from a folder that is not there, to a file that is. -/
def roundabout : List (Path × List UInt8) :=
  [(⟨"x/../a"⟩, [1])]

/-- Two paths to one place. -/
def twoSpellings : List (Path × List UInt8) :=
  [(⟨"b"⟩, [1]), (⟨"./b"⟩, [2])]

/-- **Paths alone do not keep files apart.**  A path can go by its own place: then a folder is made there,
the file fails, and its path is not as it was.  It can lead to a file with the right bytes only once a
folder on the way has been made: then the file is written again.  And two paths of which neither is at the
front of the other can lead to one place: then both are written, and the first one does not hold its
bytes. -/
theorem paths_not_enough :
    ((∃ problem, (loneFile.writeAll detour).2 = .error problem) ∧
        loneFile.find ⟨"x/../x"⟩ = .error .notFound ∧
        (loneFile.writeAll detour).1.find ⟨"x/../x"⟩ = .ok .folder) ∧
      (loneFile.read ⟨"a"⟩ = .ok [1] ∧ (loneFile.writeAll roundabout).2 = .ok [.written]) ∧
      (¬ (⟨"b"⟩ : Path).components <+: (⟨"./b"⟩ : Path).components ∧
        ¬ (⟨"./b"⟩ : Path).components <+: (⟨"b"⟩ : Path).components ∧
        (loneFile.writeAll twoSpellings).2 = .ok [.written, .written] ∧
        (loneFile.writeAll twoSpellings).1.read ⟨"b"⟩ = .ok [2]) := by
  refine ⟨⟨⟨_, rfl⟩, by decide, by decide⟩, ⟨by decide, by decide⟩, by decide, by decide, by decide, by decide⟩

end Wiring.Disk
