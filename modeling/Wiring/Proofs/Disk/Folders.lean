/-
**Folders and regular files.**

What a path leads to depends on its spelling: a slash or a dot at its end demands a folder.  A path that
leads to a folder leads there in every spelling, since the steps that make the difference stay where they
are as long as they start from folders.

Regular files are written and removed one at a time, and neither makes a folder.  So whatever is done to
regular files, a path that has led to a file does not come to lead to a folder.

Main definitions:

* `Wiring.Disk.writeFile`, `Wiring.Disk.removeFile` — what may happen to a regular file;
* `Wiring.Disk.Unfounded` — one disk has no folder where another one has none.

Main results:

* `Wiring.Disk.isFolder_congr` — whether a path leads to a folder depends on its components alone;
* `Wiring.Disk.unfounded_writeFile`, `Wiring.Disk.unfounded_removeFile` — no folder is made;
* `Wiring.Disk.Unfounded.isFolder_eq_false` — **a file does not turn into a folder**.
-/

import Wiring.Proofs.Disk.Writes
import Wiring.Proofs.Disk.Paths

set_option autoImplicit false

namespace Wiring

/-! ### Components and segments -/

namespace Path

variable {p q : Path}

theorem stepOf_injective {s t : String} (h : stepOf s = stepOf t) : s = t := by
  unfold stepOf at h
  split at h <;> split at h <;> simp_all

/-- The steps of a path go up or to a name. -/
theorem stepOf_ne_front (s : String) : stepOf s ≠ .root ∧ stepOf s ≠ .current := by
  unfold stepOf
  split <;> exact ⟨nofun, nofun⟩

theorem root_mem_components : Component.root ∈ p.components ↔ p.isAbsolute = true := by
  rw [components, List.mem_append, List.mem_map]
  constructor
  · rintro (h | ⟨s, -, hs⟩)
    · unfold front at h
      split at h
      · assumption
      · split at h <;> simp at h
    · exact absurd hs (stepOf_ne_front s).1
  · intro h
    rw [front, if_pos h]
    exact .inl List.mem_cons_self

/-- The components that are steps are those of the segments that are not idle. -/
theorem filter_components (p : Path) :
    (p.components.filter fun c => c ≠ .root ∧ c ≠ .current) =
      (p.segments.filter fun s => !isIdle s).map stepOf := by
  have hfront : (p.front.filter fun c => c ≠ .root ∧ c ≠ .current) = [] := by
    unfold front
    split
    · rfl
    · split <;> rfl
  rw [components, List.filter_append, hfront, List.nil_append, List.filter_eq_self]
  intro c hc
  obtain ⟨s, -, rfl⟩ := List.mem_map.1 hc
  exact decide_eq_true (stepOf_ne_front s)

/-- Whether a path starts at the root, and the segments that are not idle, are known from its
components. -/
theorem of_components_eq (h : p.components = q.components) :
    p.isAbsolute = q.isAbsolute ∧
      (p.segments.filter fun s => !isIdle s) = q.segments.filter fun s => !isIdle s := by
  constructor
  · rw [Bool.eq_iff_iff, ← root_mem_components, ← root_mem_components, h]
  · have hsteps := filter_components p
    rw [h, filter_components q] at hsteps
    exact List.map_injective_iff.2 (fun _ _ => stepOf_injective) hsteps.symm

/-- The first segment of a path that is neither empty nor absolute starts like the path. -/
theorem segments_eq_cons {c : Char} {rest : List Char} (hchars : p.text.toList = c :: rest)
    (hslash : c ≠ '/') : ∃ piece more, p.segments = String.ofList (c :: piece) :: more := by
  rw [segments, Text.fields, hchars, Text.cut, if_neg hslash]
  cases hcut : Text.cut '/' rest with
  | nil => exact absurd hcut (Text.cut_ne_nil _ _)
  | cons piece more => exact ⟨piece, _, rfl⟩

/-- Only the empty path has no components. -/
theorem text_eq_empty_iff : p.text = "" ↔ p.components = [] := by
  constructor
  · intro h
    obtain ⟨text⟩ := p
    subst h
    decide
  · intro h
    rw [components, List.append_eq_nil_iff, List.map_eq_nil_iff, List.filter_eq_nil_iff] at h
    obtain ⟨hfront, hidle⟩ := h
    cases hchars : p.text.toList with
    | nil => exact String.toList_eq_nil_iff.1 hchars
    | cons c rest =>
        have hslash : c ≠ '/' := by
          rintro rfl
          rw [front, if_pos (by simp [isAbsolute, hchars])] at hfront
          cases hfront
        obtain ⟨piece, more, hsegments⟩ := segments_eq_cons hchars hslash
        have hrelative : ¬ p.isAbsolute = true := by
          simp [isAbsolute, hchars, hslash]
        have hdot : String.ofList (c :: piece) ≠ "." := by
          intro hdot
          rw [front, if_neg hrelative, hsegments, hdot, List.head?_cons, if_pos rfl] at hfront
          cases hfront
        have hempty : String.ofList (c :: piece) ≠ "" := by
          intro hempty
          cases String.toList_ofList.symm.trans (congrArg String.toList hempty)
        have hfirst := hidle _ (hsegments ▸ List.mem_cons_self)
        rw [isIdle, decide_eq_false hempty, decide_eq_false hdot] at hfirst
        exact absurd rfl hfirst

end Path

namespace Disk

variable {disk before after later : Disk} {loc place : Location} {segments : List String} {p q : Path}
  {bytes : List UInt8}

/-- Only from a folder a path leads to a folder. -/
theorem folder_of_follow (hfolder : disk.node? place = some .folder)
    (h : disk.follow loc segments = .ok place) : disk.node? loc = some .folder := by
  cases segments with
  | nil =>
      cases h
      exact hfolder
  | cons segment rest =>
      rw [follow] at h
      split at h
      · cases h
      next hstart => exact not_not.1 hstart

/-- On the way to a folder idle segments do not count. -/
theorem follow_filter (hfolder : disk.node? place = some .folder) :
    disk.follow loc (segments.filter fun s => !Path.isIdle s) = .ok place ↔
      disk.follow loc segments = .ok place := by
  induction segments generalizing loc with
  | nil => rfl
  | cons segment rest ih =>
      by_cases hidle : Path.isIdle segment = true
      · rw [List.filter_cons_of_neg (by simp [hidle]), ih, follow, if_pos hidle]
        by_cases hstart : disk.node? loc = some .folder
        · rw [if_neg (not_not.2 hstart)]
        · rw [if_pos hstart]
          exact iff_of_false (fun h => hstart (folder_of_follow hfolder h)) fun h => by cases h
      · rw [List.filter_cons_of_pos (by simpa using hidle), follow, follow, if_neg hidle, if_neg hidle]
        by_cases hstart : disk.node? loc = some .folder
        · rw [if_neg (not_not.2 hstart), if_neg (not_not.2 hstart)]
          by_cases hup : segment = ".."
          · rw [if_pos hup, if_pos hup]
            exact ih
          · rw [if_neg hup, if_neg hup]
            cases disk.node? (loc ++ [segment]) with
            | none => rfl
            | some node => exact ih
        · rw [if_pos hstart, if_pos hstart]

theorem isFolder_iff : disk.isFolder p = true ↔
    ∃ place, disk.locate p = .ok place ∧ disk.node? place = some .folder := by
  unfold isFolder find
  cases hplace : disk.locate p with
  | error fault => simp [bind, Except.bind]
  | ok place =>
      simp only [bind, Except.bind]
      cases hnode : disk.node? place with
      | none => simp [hnode]
      | some node => cases node <;> simp [hnode, pure, Except.pure]

theorem isFolder_of_components_eq (h : p.components = q.components) (hp : disk.isFolder p = true) :
    disk.isFolder q = true := by
  obtain ⟨place, hplace, hfolder⟩ := isFolder_iff.1 hp
  obtain ⟨habsolute, hsegments⟩ := Path.of_components_eq h
  refine isFolder_iff.2 ⟨place, ?_, hfolder⟩
  unfold locate at hplace ⊢
  split at hplace
  · cases hplace
  next htext =>
    rw [if_neg fun hempty => htext (Path.text_eq_empty_iff.2 (h.trans (Path.text_eq_empty_iff.1 hempty)))]
    rw [← follow_filter hfolder, hsegments] at hplace
    rw [← follow_filter hfolder]
    unfold start at hplace ⊢
    rwa [← habsolute]

/-- **Whether a path leads to a folder depends on its components alone.** -/
theorem isFolder_congr (h : p.components = q.components) (disk : Disk) :
    disk.isFolder p = disk.isFolder q := by
  rw [Bool.eq_iff_iff]
  exact ⟨isFolder_of_components_eq h, isFolder_of_components_eq h.symm⟩

/-! ### What is read and what is known -/

/-- What can be read is not a folder, and its size and time are known. -/
theorem stat_of_read (h : disk.read p = .ok bytes) :
    (∃ stat, disk.stat p = .ok stat) ∧ disk.isFolder p = false := by
  unfold read at h
  unfold stat isFolder
  cases hnode : disk.find p with
  | error fault => rw [hnode] at h; cases h
  | ok node =>
      cases node with
      | file bytes modified => exact ⟨⟨_, rfl⟩, rfl⟩
      | folder => rw [hnode] at h; cases h

/-- Size and time are known of a folder. -/
theorem stat_of_isFolder (h : disk.isFolder p = true) : ∃ stat, disk.stat p = .ok stat := by
  obtain ⟨place, hplace, hfolder⟩ := isFolder_iff.1 h
  refine ⟨⟨folderSize, 0⟩, ?_⟩
  unfold stat find
  rw [hplace]
  simp only [bind, Except.bind, hfolder]
  rfl

/-- What has a size and time and is not a folder can be read. -/
theorem exists_read_of_stat {s : Stat} (h : disk.stat p = .ok s) (hfile : disk.isFolder p = false) :
    ∃ bytes, disk.read p = .ok bytes := by
  unfold stat at h
  unfold isFolder at hfile
  unfold read
  cases hnode : disk.find p with
  | error fault => rw [hnode] at h; cases h
  | ok node =>
      cases node with
      | file bytes modified => exact ⟨bytes, rfl⟩
      | folder => rw [hnode] at hfile; cases hfile

/-! ### Regular files -/

/-- Writes a regular file with the given bytes and time.  Where that cannot be done nothing happens: no
folder is made for it, and none is replaced. -/
def writeFile (disk : Disk) (p : Path) (bytes : List UInt8) (modified : Nat) : Disk :=
  match ({ disk with now := modified } : Disk).install p bytes with
  | .ok after => after
  | .error _ => disk

/-- Removes a regular file.  Where there is none nothing happens. -/
def removeFile (disk : Disk) (p : Path) : Disk :=
  match disk.locate p with
  | .ok loc =>
    match disk.node? loc with
    | some (.file _ _) => disk.removeAt loc
    | _ => disk
  | .error _ => disk

/-- The working folder is the same, and there is no folder where there was none. -/
structure Unfounded (before after : Disk) : Prop where
  here : after.here = before.here
  folder : ∀ {loc}, after.node? loc = some .folder → before.node? loc = some .folder

theorem Unfounded.refl (disk : Disk) : Unfounded disk disk :=
  ⟨rfl, id⟩

theorem Unfounded.trans (h : Unfounded before after) (h' : Unfounded after later) :
    Unfounded before later :=
  ⟨h'.here.trans h.here, fun hfolder => h.folder (h'.folder hfolder)⟩

theorem unfounded_writeFile (disk : Disk) (p : Path) (bytes : List UInt8) (modified : Nat) :
    Unfounded disk (disk.writeFile p bytes modified) := by
  unfold writeFile
  split
  next after hinstall =>
    obtain ⟨-, name, loc, -, -, -, -, -, rfl⟩ := install_cases hinstall
    refine ⟨rfl, fun {place} hfolder => ?_⟩
    rw [node?_putNode] at hfolder
    split at hfolder
    next hroot => rw [node?, if_pos hroot]
    · split at hfolder
      · cases hfolder
      · exact hfolder
  · exact .refl disk

/-- What is left on the disk when a place is cleared. -/
theorem node?_removeAt (disk : Disk) (loc place : Location) :
    (disk.removeAt loc).node? place =
      if place ≠ [] ∧ loc.isPrefixOf place then none else disk.node? place := by
  unfold node? removeAt
  by_cases hroot : place = []
  · rw [if_pos hroot, if_neg (fun h => h.1 hroot), if_pos hroot]
  · rw [if_neg hroot, if_neg hroot, Table.get?_filter_keys]
    by_cases hbelow : loc.isPrefixOf place = true
    · rw [if_neg (by simp [hbelow]), if_pos ⟨hroot, hbelow⟩]
    · rw [if_pos (by rw [Bool.not_eq_true', (Bool.not_eq_true _).mp hbelow]), if_neg fun h => hbelow h.2]

theorem unfounded_removeFile (disk : Disk) (p : Path) : Unfounded disk (disk.removeFile p) := by
  unfold removeFile
  split
  next loc hplace =>
    split
    next bytes modified hnode =>
      refine ⟨rfl, fun {place} hfolder => ?_⟩
      rw [node?_removeAt] at hfolder
      split at hfolder
      · cases hfolder
      · exact hfolder
    · exact .refl disk
  · exact .refl disk

/-- Wherever the same segments lead on two disks, they lead to the same place. -/
theorem place_of_follow {place' : Location} (h : before.follow loc segments = .ok place)
    (h' : after.follow loc segments = .ok place') : place = place' := by
  induction segments generalizing loc with
  | nil =>
      cases h
      cases h'
      rfl
  | cons segment rest ih =>
      rw [follow] at h h'
      split at h
      · cases h
      split at h'
      · cases h'
      split at h
      next hidle =>
        rw [if_pos hidle] at h'
        exact ih h h'
      next hidle =>
        rw [if_neg hidle] at h'
        split at h
        next hup =>
          rw [if_pos hup] at h'
          exact ih h h'
        next hup =>
          rw [if_neg hup] at h'
          split at h
          · cases h
          split at h'
          · cases h'
          exact ih h h'

/-- **A file does not turn into a folder.** -/
theorem Unfounded.isFolder_eq_false (h : Unfounded before after) (hread : before.read p = .ok bytes) :
    after.isFolder p = false := by
  obtain ⟨place, modified, hplace, hfile⟩ := read_eq_ok.1 hread
  rw [Bool.eq_false_iff, ne_eq, isFolder_iff]
  rintro ⟨place', hplace', hfolder⟩
  have hsame : place = place' := by
    unfold locate at hplace hplace'
    split at hplace
    · cases hplace
    next htext =>
      have hstart : after.start p = before.start p := by
        rw [start, start, h.here]
      rw [if_neg htext, hstart] at hplace'
      exact place_of_follow hplace hplace'
  subst hsame
  cases hfile.symm.trans (h.folder hfolder)

end Disk

end Wiring
