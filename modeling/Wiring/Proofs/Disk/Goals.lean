/-
**Where a path leads, whether or not anything is there.**

A path names a place also where nothing stands yet, as long as every step up in it starts from a folder.
What the disk says about the path follows from what stands at that place and at the places above it: from
folder to folder the path can be followed, the first file on the way stops it, and where neither stands
there is nothing below.

The folder that a path's entry is to stand in has the path's steps without the last one, and so names the
place above, in whatever way the path is written.

Main definitions:

* `Wiring.Path.moves` — the segments that are steps;
* `Wiring.Path.namesFile` — a path that can be that of a file, by its last segment;
* `Wiring.Disk.Rooted` — everything on the disk stands in a folder;
* `Wiring.Disk.goal?` — the place that a path names;
* `Wiring.Disk.Clear` — no file stands at a place or above it.

Main results:

* `Wiring.Path.isAbove_folderFor` — the folder for a path's entry;
* `Wiring.Disk.Rooted.followed` — **what following a path comes to**, by what stands at its place and above;
* `Wiring.Disk.find_eq_of_sameAt` — what a path leads to depends on nothing else;
* `Wiring.Disk.Rooted.read_eq_ok_iff` — which paths can be read.
-/

import Mathlib.Data.List.DropRight
import Wiring.Proofs.Disk.Folders

set_option autoImplicit false

namespace Wiring

/-! ### The steps of a path -/

namespace Path

variable {p : Path} {segments rest : List String} {first name : String}

/-- The segments that are steps. -/
def moves (p : Path) : List String :=
  p.segments.filter fun s => !isIdle s

/-- Whether the last segment is a proper name. -/
def namesFile (p : Path) : Bool :=
  p.segments.getLast?.any Disk.isName

theorem segments_ne_nil (p : Path) : p.segments ≠ [] := by
  rw [segments, Text.fields, ne_eq, List.map_eq_nil_iff]
  exact Text.cut_ne_nil _ _

theorem text_eq_empty_iff_segments : p.text = "" ↔ p.segments = [""] := by
  have hempty : (⟨""⟩ : Path).segments = [""] := by decide
  constructor
  · intro h
    obtain ⟨text⟩ := p
    obtain rfl : text = "" := h
    exact hempty
  · intro h
    rw [eq_of_segments (h.trans hempty.symm)]

/-- A path starts at the root if there is nothing before its first slash. -/
theorem isAbsolute_iff : p.isAbsolute = true ↔ ∃ rest, rest ≠ [] ∧ p.segments = "" :: rest := by
  cases hchars : p.text.toList with
  | nil =>
      have hone : p.segments = [""] := by
        rw [segments, Text.fields, hchars]
        rfl
      refine iff_of_false (by simp [isAbsolute, hchars]) ?_
      rintro ⟨rest, hne, hrest⟩
      exact hne (List.cons.inj (hrest.symm.trans hone)).2
  | cons c rest =>
      by_cases hslash : c = '/'
      · subst hslash
        refine iff_of_true (by simp [isAbsolute, hchars])
          ⟨(Text.cut '/' rest).map String.ofList, ?_, ?_⟩
        · rw [ne_eq, List.map_eq_nil_iff]
          exact Text.cut_ne_nil _ _
        · rw [segments, Text.fields, hchars, Text.cut, if_pos rfl]
          rfl
      · refine iff_of_false (by simp [isAbsolute, hchars, hslash]) ?_
        rintro ⟨more, -, hmore⟩
        obtain ⟨piece, others, hpiece⟩ := segments_eq_cons hchars hslash
        have hfirst : String.ofList (c :: piece) = "" := (List.cons.inj (hpiece.symm.trans hmore)).1
        cases String.toList_ofList.symm.trans (congrArg String.toList hfirst)

theorem filter_trimIdle (segments : List String) :
    ((trimIdle segments).filter fun s => !isIdle s) = segments.filter fun s => !isIdle s := by
  change ((segments.rdropWhile isIdle).filter _) = _
  induction segments using List.reverseRecOn with
  | nil => rfl
  | append_singleton front last ih =>
      by_cases hidle : isIdle last = true
      · rw [List.rdropWhile_concat_pos _ _ _ hidle, ih, List.filter_append,
          List.filter_cons_of_neg (by simp [hidle]), List.filter_nil, List.append_nil]
      · rw [List.rdropWhile_concat_neg _ _ _ hidle]

/-- What is left without idle segments at the end ends with a step. -/
theorem not_idle_of_getLast?_trimIdle (h : (trimIdle segments).getLast? = some name) :
    isIdle name = false := by
  have hne : trimIdle segments ≠ [] := by
    intro hnil
    rw [hnil] at h
    cases h
  rw [List.getLast?_eq_some_getLast hne] at h
  rw [← Option.some.inj h, ← Bool.not_eq_true]
  exact List.rdropWhile_last_not isIdle segments hne

theorem trimIdle_subset (segments : List String) : trimIdle segments ⊆ segments :=
  (List.rdropWhile_prefix isIdle segments).subset

/-- A step at the end is the last of the steps. -/
theorem getLast?_filter (h : segments.getLast? = some name) (hstep : isIdle name = false) :
    (segments.filter fun s => !isIdle s).getLast? = some name := by
  obtain ⟨front, rfl⟩ := List.getLast?_eq_some_iff.1 h
  rw [List.filter_append, List.filter_cons_of_pos (by rw [hstep]; rfl), List.filter_nil,
    List.getLast?_concat]

/-- The segments of a path that is put together from some. -/
theorem segments_ofSegments (hne : segments ≠ []) (hfree : ∀ s ∈ segments, '/' ∉ s.toList) :
    (ofSegments segments).segments = if segments = [""] then ["", ""] else segments := by
  unfold ofSegments
  split
  · decide
  · exact Text.fields_join hne hfree

theorem moves_ofSegments (hne : segments ≠ []) (hfree : ∀ s ∈ segments, '/' ∉ s.toList) :
    (ofSegments segments).moves = segments.filter fun s => !isIdle s := by
  rw [moves, segments_ofSegments hne hfree]
  split
  next hroot =>
    rw [hroot]
    decide
  · rfl

theorem text_ofSegments (hne : segments ≠ []) (hfree : ∀ s ∈ segments, '/' ∉ s.toList) :
    (ofSegments segments).text ≠ "" := by
  rw [ne_eq, text_eq_empty_iff_segments, segments_ofSegments hne hfree]
  split
  · decide
  · assumption

theorem isAbsolute_ofSegments (hfree : ∀ s ∈ first :: segments, '/' ∉ s.toList) :
    (ofSegments (first :: segments)).isAbsolute = true ↔ first = "" := by
  rw [isAbsolute_iff, segments_ofSegments (List.cons_ne_nil _ _) hfree]
  split
  next hroot => exact iff_of_true ⟨[""], by decide, rfl⟩ (List.cons.inj hroot).1
  next hmany =>
    constructor
    · rintro ⟨more, -, hmore⟩
      exact (List.cons.inj hmore).1
    · rintro rfl
      exact ⟨segments, fun hnil => hmany (by rw [hnil]), rfl⟩

/-- Nothing idle follows the last step. -/
def Trimmed (p : Path) : Prop :=
  p.moves ≠ [] → p.segments.getLast? = p.moves.getLast?

/-- What the folder for the entry of a path has in common with the path. -/
structure IsAbove (f p : Path) : Prop where
  text : f.text ≠ ""
  absolute : f.isAbsolute = p.isAbsolute
  moves : f.moves = p.moves.dropLast
  trimmed : f.Trimmed

/-- Only a relative path with one step has its entry in the folder it starts from. -/
theorem isAbove_here (hmoves : p.moves.dropLast = []) (hrelative : p.isAbsolute = false) :
    IsAbove ⟨"."⟩ p where
  text := by decide
  absolute := hrelative.symm
  moves := hmoves.symm
  trimmed := fun hne => absurd (by decide) hne

/-- The folder at the front of some segments, of which the first is the front of the path. -/
theorem isAbove_ofSegments (hp : p.segments = first :: rest)
    (hrest : trimIdle rest = segments ++ [name]) : IsAbove (ofSegments (first :: trimIdle segments)) p := by
  have hname : isIdle name = false :=
    not_idle_of_getLast?_trimIdle (by rw [hrest, List.getLast?_concat])
  have hfree : ∀ s ∈ first :: trimIdle segments, '/' ∉ s.toList := by
    intro s hs
    have hmem : s ∈ p.segments := by
      rw [hp]
      rcases List.mem_cons.1 hs with rfl | hs
      · exact List.mem_cons_self
      · refine List.mem_cons_of_mem _ (trimIdle_subset rest ?_)
        rw [hrest]
        exact List.mem_append_left _ (trimIdle_subset segments hs)
    exact Text.not_mem_of_mem_fields hmem
  have hfront := segments_ofSegments (List.cons_ne_nil _ _) hfree
  have hmoves := moves_ofSegments (List.cons_ne_nil _ _) hfree
  refine ⟨?_, ?_, ?_, ?_⟩
  · exact text_ofSegments (List.cons_ne_nil _ _) hfree
  · have hmore : rest ≠ [] := by
      rintro rfl
      exact absurd ((List.rdropWhile_nil isIdle).symm.trans hrest) (by simp)
    rw [Bool.eq_iff_iff, isAbsolute_ofSegments hfree, isAbsolute_iff, hp]
    constructor
    · rintro rfl
      exact ⟨rest, hmore, rfl⟩
    · rintro ⟨others, -, hothers⟩
      exact (List.cons.inj hothers).1
  · have hwhole := filter_trimIdle rest
    rw [hrest, List.filter_append, List.filter_cons_of_pos (by rw [hname]; rfl), List.filter_nil] at hwhole
    rw [hmoves, moves, hp, List.filter_cons, List.filter_cons, ← hwhole, filter_trimIdle]
    split
    · rw [← List.cons_append, List.dropLast_concat]
    · rw [List.dropLast_concat]
  · intro hne
    have hsome : first :: trimIdle segments ≠ [""] := by
      intro hroot
      rw [hmoves, hroot] at hne
      exact hne (by decide)
    rw [hmoves] at hne ⊢
    rw [hfront, if_neg hsome]
    cases hlast : (trimIdle segments).getLast? with
    | none =>
        rw [List.getLast?_eq_none_iff.1 hlast] at hne ⊢
        rw [List.filter_cons, List.filter_nil] at hne ⊢
        split at hne
        next hfirst => rw [if_pos hfirst]
        · exact absurd rfl hne
    | some last =>
        have hend : (first :: trimIdle segments).getLast? = some last := by
          rw [List.getLast?_cons, hlast]
          rfl
        rw [hend, getLast?_filter hend (not_idle_of_getLast?_trimIdle hlast)]

/-- **The folder for the entry of a path** has the steps of the path without the last. -/
theorem isAbove_folderFor (h : p.moves ≠ []) : IsAbove (Disk.folderFor p) p := by
  obtain ⟨first, rest, hp⟩ := List.exists_cons_of_ne_nil (segments_ne_nil p)
  cases hlast : (trimIdle rest).getLast? with
  | none =>
      have hnil := List.getLast?_eq_none_iff.1 hlast
      have hmoves : p.moves = [first].filter fun s => !isIdle s := by
        rw [moves, hp, List.filter_cons, ← filter_trimIdle rest, hnil, List.filter_cons]
      have hfirst : first ≠ "" := by
        rintro rfl
        exact h (hmoves.trans (by decide))
      have hhere : Disk.folderFor p = ⟨"."⟩ := by
        simp only [Disk.folderFor, parent?, hp, hnil, if_neg hfirst, if_true]
      rw [hhere]
      refine isAbove_here ?_ ?_
      · rw [hmoves, List.filter_cons]
        split <;> rfl
      · rw [Bool.eq_false_iff, ne_eq, isAbsolute_iff]
        rintro ⟨more, -, hmore⟩
        exact hfirst (List.cons.inj (hp.symm.trans hmore)).1
  | some last =>
      obtain ⟨steps, hsteps⟩ := List.getLast?_eq_some_iff.1 hlast
      have habove := isAbove_ofSegments hp hsteps
      have hsome : p.parent? = some (ofSegments (first :: trimIdle steps)) := by
        simp only [parent?, hp, hsteps]
        split
        next hnil => exact absurd hnil (by simp)
        · rw [List.dropLast_concat]
      have hfolder : Disk.folderFor p = ofSegments (first :: trimIdle steps) := by
        rw [Disk.folderFor, hsome]
        exact if_neg habove.text
      rw [hfolder]
      exact habove

/-- A path without steps has its entry, if it had one, in the working folder. -/
theorem folderFor_of_moves_eq_nil (h : p.moves = []) : Disk.folderFor p = ⟨"."⟩ := by
  obtain ⟨first, rest, hp⟩ := List.exists_cons_of_ne_nil (segments_ne_nil p)
  have hnil : trimIdle rest = [] := by
    rw [moves, hp, List.filter_eq_nil_iff] at h
    refine List.rdropWhile_eq_nil_iff.2 fun s hs => ?_
    simpa using h s (List.mem_cons_of_mem _ hs)
  by_cases hfirst : first = "" <;> simp only [Disk.folderFor, parent?, hp, hnil, hfirst, if_true, if_false]

/-- Above a path with several steps there is another path. -/
theorem parent?_eq_folderFor (h : (Disk.folderFor p).moves ≠ []) : p.parent? = some (Disk.folderFor p) := by
  have hhere : (⟨"."⟩ : Path).moves = [] := by decide
  unfold Disk.folderFor at h ⊢
  cases hparent : p.parent? with
  | none =>
      rw [hparent] at h
      exact absurd hhere h
  | some q =>
      rw [hparent] at h
      dsimp only at h ⊢
      split at h
      · exact absurd hhere h
      next htext => rw [if_neg htext]

theorem exists_of_namesFile (h : p.namesFile = true) :
    ∃ front name, p.segments = front ++ [name] ∧ Disk.isName name = true := by
  unfold namesFile at h
  rw [Option.any_eq_true] at h
  obtain ⟨name, hlast, hname⟩ := h
  obtain ⟨front, hfront⟩ := List.getLast?_eq_some_iff.1 hlast
  exact ⟨front, name, hfront, hname⟩

theorem namesFile_of_segments {front : List String} (h : p.segments = front ++ [name])
    (hname : Disk.isName name = true) : p.namesFile = true := by
  rw [namesFile, h, List.getLast?_concat]
  exact hname

theorem text_ne_empty_of_segments {front : List String} (h : p.segments = front ++ [name]) (hname : name ≠ "") :
    p.text ≠ "" := by
  rw [ne_eq, text_eq_empty_iff_segments, h]
  intro hempty
  have hlast := congrArg List.getLast? hempty
  rw [List.getLast?_concat] at hlast
  exact hname (Option.some.inj hlast)

end Path

namespace Disk

variable {disk before after : Disk} {loc place above : Location} {segments front : List String}
  {name : String} {p : Path}

theorem isName_iff : isName name = true ↔ Path.isIdle name = false ∧ name ≠ ".." := by
  rw [isName, Bool.and_eq_true, Bool.not_eq_true', decide_eq_true_eq]

theorem isName_ne_empty (h : isName name = true) : name ≠ "" := by
  rintro rfl
  cases h

theorem not_folder_of_none (h : disk.node? loc = none) : disk.node? loc ≠ some .folder := by
  intro hfolder
  cases h.symm.trans hfolder

theorem not_folder_of_file {bytes : List UInt8} {modified : Nat}
    (h : disk.node? loc = some (.file bytes modified)) : disk.node? loc ≠ some .folder := by
  intro hfolder
  cases h.symm.trans hfolder

/-! ### Everything stands in a folder -/

/-- The working folder is there, and everything stands in a folder. -/
structure Rooted (disk : Disk) : Prop where
  here : disk.node? disk.here = some .folder
  above : ∀ {loc : Location} {name : String} {node : Node}, disk.node? (loc ++ [name]) = some node →
    disk.node? loc = some .folder

/-- It is enough to look at what is on the disk. -/
theorem Rooted.of_entries (hhere : disk.node? disk.here = some .folder)
    (h : ∀ e ∈ disk.nodes.entries, disk.node? e.1.dropLast = some .folder) : disk.Rooted := by
  refine ⟨hhere, fun {loc name node} hnode => ?_⟩
  rw [node?, if_neg (by simp)] at hnode
  have hfolder := h _ (Table.mem_of_get? hnode)
  rwa [List.dropLast_concat] at hfolder

theorem Rooted.folder_of_prefix (h : disk.Rooted) (hwithin : above <+: place)
    (hfolder : disk.node? place = some .folder) : disk.node? above = some .folder := by
  obtain ⟨rest, rfl⟩ := hwithin
  induction rest using List.reverseRecOn with
  | nil => rwa [List.append_nil] at hfolder
  | append_singleton rest name ih =>
      rw [← List.append_assoc] at hfolder
      exact ih (h.above hfolder)

theorem Rooted.dropLast (h : disk.Rooted) (hfolder : disk.node? loc = some .folder) :
    disk.node? loc.dropLast = some .folder :=
  h.folder_of_prefix (List.dropLast_prefix loc) hfolder

theorem Rooted.start (h : disk.Rooted) (p : Path) : disk.node? (disk.start p) = some .folder := by
  unfold Disk.start
  split
  · rfl
  · exact h.here

/-- No file stands at a place or above it. -/
def Clear (disk : Disk) (place : Location) : Prop :=
  ∀ above, above <+: place → ∀ bytes modified, disk.node? above ≠ some (.file bytes modified)

theorem Rooted.clear (h : disk.Rooted) (hfolder : disk.node? place = some .folder) : disk.Clear place := by
  intro above habove bytes modified hfile
  cases hfile.symm.trans (h.folder_of_prefix habove hfolder)

theorem Clear.of_prefix (h : disk.Clear place) (hwithin : above <+: place) : disk.Clear above :=
  fun top htop => h top (htop.trans hwithin)

/-- Below a place where nothing stands nothing is in the way but what is in the way of that place. -/
theorem Rooted.clear_of_missing (h : disk.Rooted) (hclear : disk.Clear loc)
    (hnone : disk.node? (loc ++ [name]) = none) (more : Location) : disk.Clear (loc ++ [name] ++ more) ∧
      disk.node? (loc ++ [name] ++ more) = none := by
  induction more using List.reverseRecOn with
  | nil =>
      rw [List.append_nil]
      refine ⟨fun above habove bytes modified hfile => ?_, hnone⟩
      rcases List.prefix_concat_iff.1 habove with rfl | habove
      · cases hfile.symm.trans hnone
      · exact hclear above habove bytes modified hfile
  | append_singleton more last ih =>
      rw [← List.append_assoc]
      have hlast : disk.node? (loc ++ [name] ++ more ++ [last]) = none := by
        cases hnode : disk.node? (loc ++ [name] ++ more ++ [last]) with
        | none => rfl
        | some node => cases ih.2.symm.trans (h.above hnode)
      refine ⟨fun above habove bytes modified hfile => ?_, hlast⟩
      rcases List.prefix_concat_iff.1 habove with rfl | habove
      · cases hfile.symm.trans hlast
      · exact ih.1 above habove bytes modified hfile

/-! ### The place that a path names -/

/-- Two paths start from the same place if both are absolute or both are not. -/
theorem start_eq {q : Path} (h : p.isAbsolute = q.isAbsolute) : disk.start p = disk.start q := by
  rw [start, start, h]

/-- The place that segments name from another place, whether or not anything stands there.  A step up has
to start from a folder. -/
def goalFrom (disk : Disk) (loc : Location) : List String → Option Location
  | [] => some loc
  | segment :: rest =>
    if Path.isIdle segment then disk.goalFrom loc rest
    else if segment = ".." then
      if disk.node? loc = some .folder then disk.goalFrom loc.dropLast rest else none
    else disk.goalFrom (loc ++ [segment]) rest

/-- The place that a path names. -/
def goal? (disk : Disk) (p : Path) : Option Location :=
  disk.goalFrom (disk.start p) p.segments

theorem goalFrom_append (disk : Disk) (loc : Location) (segments more : List String) :
    disk.goalFrom loc (segments ++ more) =
      (disk.goalFrom loc segments).bind fun place => disk.goalFrom place more := by
  induction segments generalizing loc with
  | nil => rfl
  | cons segment rest ih =>
      rw [List.cons_append, goalFrom, goalFrom]
      split
      · exact ih loc
      split
      · split
        · exact ih loc.dropLast
        · rfl
      · exact ih (loc ++ [segment])

theorem goalFrom_filter (disk : Disk) (loc : Location) (segments : List String) :
    disk.goalFrom loc (segments.filter fun s => !Path.isIdle s) = disk.goalFrom loc segments := by
  induction segments generalizing loc with
  | nil => rfl
  | cons segment rest ih =>
      by_cases hidle : Path.isIdle segment = true
      · rw [List.filter_cons_of_neg (by simp [hidle]), goalFrom, if_pos hidle, ih]
      · rw [List.filter_cons_of_pos (by simpa using hidle), goalFrom, goalFrom, if_neg hidle, if_neg hidle,
          ih, ih]

theorem goalFrom_moves (disk : Disk) (p : Path) : disk.goalFrom (disk.start p) p.moves = disk.goal? p :=
  goalFrom_filter disk _ _

theorem goalFrom_name (hname : isName name = true) : disk.goalFrom loc [name] = some (loc ++ [name]) := by
  rw [isName_iff] at hname
  rw [goalFrom, if_neg (by rw [hname.1]; decide), if_neg hname.2, goalFrom]

/-- What can be followed leads to the place that is named. -/
theorem goalFrom_of_follow (h : disk.follow loc segments = .ok place) :
    disk.goalFrom loc segments = some place := by
  induction segments generalizing loc with
  | nil =>
      cases h
      rfl
  | cons segment rest ih =>
      rw [follow] at h
      rw [goalFrom]
      split at h
      · cases h
      next hfolder =>
        split at h
        next hidle => rw [if_pos hidle, ih h]
        next hidle =>
          rw [if_neg hidle]
          split at h
          next hup => rw [if_pos hup, if_pos (not_not.1 hfolder), ih h]
          next hup =>
            rw [if_neg hup]
            split at h
            · cases h
            · exact ih h

theorem goal?_of_locate (h : disk.locate p = .ok place) : disk.goal? p = some place := by
  unfold locate at h
  split at h
  · cases h
  · exact goalFrom_of_follow h

theorem Grows.goalFrom (h : Grows before after) (hgoal : before.goalFrom loc segments = some place) :
    after.goalFrom loc segments = some place := by
  induction segments generalizing loc with
  | nil => exact hgoal
  | cons segment rest ih =>
      rw [Disk.goalFrom] at hgoal ⊢
      split at hgoal
      next hidle => rw [if_pos hidle, ih hgoal]
      next hidle =>
        rw [if_neg hidle]
        split at hgoal
        next hup =>
          split at hgoal
          next hfolder => rw [if_pos hup, if_pos (h.folder hfolder), ih hgoal]
          · cases hgoal
        next hup => rw [if_neg hup, ih hgoal]

/-- Paths go on naming their places. -/
theorem Grows.goal? (h : Grows before after) (hgoal : before.goal? p = some place) :
    after.goal? p = some place := by
  rw [Disk.goal?, h.start]
  exact h.goalFrom hgoal

/-! ### Following a path to its place -/

/-- Only from a folder a folder is named. -/
theorem Rooted.follow_folder (h : disk.Rooted) (hgoal : disk.goalFrom loc segments = some place)
    (hfolder : disk.node? place = some .folder) :
    disk.node? loc = some .folder ∧ disk.follow loc segments = .ok place := by
  induction segments generalizing loc with
  | nil =>
      cases hgoal
      exact ⟨hfolder, rfl⟩
  | cons segment rest ih =>
      rw [goalFrom] at hgoal
      rw [follow]
      split at hgoal
      next hidle =>
        obtain ⟨hloc, hfollow⟩ := ih hgoal
        exact ⟨hloc, by rw [if_neg (not_not.2 hloc), if_pos hidle, hfollow]⟩
      next hidle =>
        split at hgoal
        next hup =>
          split at hgoal
          next hloc =>
            obtain ⟨-, hfollow⟩ := ih hgoal
            exact ⟨hloc, by rw [if_neg (not_not.2 hloc), if_neg hidle, if_pos hup, hfollow]⟩
          · cases hgoal
        next hup =>
          obtain ⟨hnext, hfollow⟩ := ih hgoal
          have hloc := h.above hnext
          refine ⟨hloc, ?_⟩
          rw [if_neg (not_not.2 hloc), if_neg hidle, if_neg hup, hnext]
          exact hfollow

/-- From a place where no folder stands only places below are named. -/
theorem Rooted.goalFrom_eq_append (h : disk.Rooted) (hloc : disk.node? loc ≠ some .folder)
    (hgoal : disk.goalFrom loc segments = some place) : ∃ more, place = loc ++ more := by
  induction segments generalizing loc with
  | nil =>
      cases hgoal
      exact ⟨[], (List.append_nil _).symm⟩
  | cons segment rest ih =>
      rw [goalFrom] at hgoal
      split at hgoal
      · exact ih hloc hgoal
      split at hgoal
      · cases hgoal
      · obtain ⟨more, rfl⟩ := ih (fun hnext => hloc (h.above hnext)) hgoal
        exact ⟨segment :: more, by rw [List.append_assoc, List.singleton_append]⟩

/-- **What following a path comes to**, by what stands at the place that it names and above. -/
inductive Followed (disk : Disk) (segments : List String) (place : Location) :
    Except DiskFault Location → Prop
  /-- A folder is reached. -/
  | folder (h : disk.node? place = some .folder) : Followed disk segments place (.ok place)
  /-- Nothing is in the way, but nothing is there. -/
  | missing (hclear : disk.Clear place) (h : disk.node? place = none) :
      Followed disk segments place (.error .notFound)
  /-- A file is reached, by its name at the end. -/
  | file {front : List String} {name : String} {bytes : List UInt8} {modified : Nat}
      (hsegments : segments = front ++ [name]) (hname : isName name = true)
      (h : disk.node? place = some (.file bytes modified)) : Followed disk segments place (.ok place)
  /-- A file is in the way. -/
  | blocked (h : ¬ disk.Clear place) : Followed disk segments place (.error .notFolder)

theorem Followed.cons {result : Except DiskFault Location} (h : Followed disk segments place result)
    (segment : String) : Followed disk (segment :: segments) place result := by
  cases h with
  | folder h => exact .folder h
  | missing hclear h => exact .missing hclear h
  | file hsegments hname h =>
      rw [hsegments, ← List.cons_append]
      exact .file rfl hname h
  | blocked h => exact .blocked h

/-- From a folder a path can be followed as far as there are folders. -/
theorem Rooted.followed (h : disk.Rooted) (hloc : disk.node? loc = some .folder)
    (hgoal : disk.goalFrom loc segments = some place) :
    Followed disk segments place (disk.follow loc segments) := by
  induction segments generalizing loc with
  | nil =>
      cases hgoal
      exact .folder hloc
  | cons segment rest ih =>
      rw [goalFrom] at hgoal
      rw [follow, if_neg (not_not.2 hloc)]
      split at hgoal
      next hidle =>
        rw [if_pos hidle]
        exact (ih hloc hgoal).cons segment
      next hidle =>
        rw [if_neg hidle]
        split at hgoal
        next hup =>
          rw [if_pos hup]
          exact (ih (h.dropLast hloc) hgoal).cons segment
        next hup =>
          rw [if_neg hup]
          cases hnode : disk.node? (loc ++ [segment]) with
          | none =>
              obtain ⟨more, rfl⟩ := h.goalFrom_eq_append (not_folder_of_none hnode) hgoal
              obtain ⟨hclear, hnone⟩ := h.clear_of_missing (h.clear hloc) hnode more
              exact .missing hclear hnone
          | some node =>
              cases node with
              | folder => exact (ih hnode hgoal).cons segment
              | file bytes modified =>
                  have hname : isName segment = true := isName_iff.2 ⟨by simpa using hidle, hup⟩
                  cases rest with
                  | nil =>
                      cases hgoal
                      have hsegments : [segment] = [] ++ [segment] := rfl
                      exact .file hsegments hname hnode
                  | cons next others =>
                      obtain ⟨more, rfl⟩ := h.goalFrom_eq_append (not_folder_of_file hnode) hgoal
                      dsimp only
                      rw [follow, if_pos (not_folder_of_file hnode)]
                      exact .blocked fun hclear => hclear _ (List.prefix_append _ _) _ _ hnode

/-! ### What a path leads to -/

/-- **What a path leads to**, by what stands at the place that it names and above. -/
inductive Found (disk : Disk) (p : Path) (place : Location) : Except DiskFault Node → Prop
  | folder (h : disk.node? place = some .folder) : Found disk p place (.ok .folder)
  | missing (hclear : disk.Clear place) (h : disk.node? place = none) : Found disk p place (.error .notFound)
  | file {bytes : List UInt8} {modified : Nat} (hname : p.namesFile = true)
      (h : disk.node? place = some (.file bytes modified)) : Found disk p place (.ok (.file bytes modified))
  | blocked (h : ¬ disk.Clear place)
      (hname : p.namesFile = true → ∀ bytes modified, disk.node? place ≠ some (.file bytes modified)) :
      Found disk p place (.error .notFolder)

/-- The place of a path with a proper name at its end. -/
theorem goal?_of_namesFile (hname : p.namesFile = true) (hgoal : disk.goal? p = some place) :
    ∃ front name up, p.segments = front ++ [name] ∧ isName name = true ∧
      disk.goalFrom (disk.start p) front = some up ∧ place = up ++ [name] := by
  obtain ⟨front, name, hsegments, hname⟩ := Path.exists_of_namesFile hname
  rw [goal?, hsegments, goalFrom_append] at hgoal
  cases hup : disk.goalFrom (disk.start p) front with
  | none =>
      rw [hup] at hgoal
      cases hgoal
  | some up =>
      rw [hup, Option.bind_some, goalFrom_name hname] at hgoal
      exact ⟨front, name, up, hsegments, hname, hup, (Option.some.inj hgoal).symm⟩

theorem Rooted.found (h : disk.Rooted) (hgoal : disk.goal? p = some place) (htext : p.text ≠ "") :
    Found disk p place (disk.find p) := by
  have hfollowed := h.followed (h.start p) hgoal
  rw [find, locate, if_neg htext]
  cases hfollow : disk.follow (disk.start p) p.segments with
  | ok place' =>
      obtain rfl : place = place' :=
        Option.some.inj (hgoal.symm.trans (goalFrom_of_follow hfollow))
      rw [hfollow] at hfollowed
      simp only [bind, Except.bind]
      cases hfollowed with
      | folder hnode =>
          rw [hnode]
          exact .folder hnode
      | file hsegments hname hnode =>
          rw [hnode]
          exact .file (Path.namesFile_of_segments hsegments hname) hnode
  | error fault =>
      rw [hfollow] at hfollowed
      cases hfollowed with
      | missing hclear hnode => exact .missing hclear hnode
      | blocked hblocked =>
          refine .blocked hblocked fun hname bytes modified hnode => ?_
          -- the file stands in a folder, which can be reached, and so can the file
          obtain ⟨front, name, up, hsegments, hname, hup, rfl⟩ := goal?_of_namesFile hname hgoal
          have hfolder := h.above hnode
          rw [hsegments, follow_append, (h.follow_folder hup hfolder).2] at hfollow
          cases hfollow.symm.trans (follow_name hname hfolder hnode)

/-- There is no file in the way of one disk but those in the way of the other, and the same stands at the
place. -/
structure SameAt (before after : Disk) (place : Location) : Prop where
  node : after.node? place = before.node? place
  file : ∀ above, above <+: place → ∀ bytes modified,
    after.node? above = some (.file bytes modified) ↔ before.node? above = some (.file bytes modified)

theorem SameAt.refl (disk : Disk) (place : Location) : SameAt disk disk place :=
  ⟨rfl, fun _ _ _ _ => Iff.rfl⟩

theorem SameAt.trans {later : Disk} (h : SameAt before after place) (h' : SameAt after later place) :
    SameAt before later place :=
  ⟨h'.node.trans h.node, fun above habove bytes modified =>
    (h'.file above habove bytes modified).trans (h.file above habove bytes modified)⟩

theorem SameAt.clear_iff (h : SameAt before after place) (hwithin : above <+: place) :
    after.Clear above ↔ before.Clear above := by
  constructor
  · exact fun hclear top htop bytes modified hfile =>
      hclear top htop bytes modified ((h.file top (htop.trans hwithin) bytes modified).2 hfile)
  · exact fun hclear top htop bytes modified hfile =>
      hclear top htop bytes modified ((h.file top (htop.trans hwithin) bytes modified).1 hfile)

theorem Found.of_sameAt {result : Except DiskFault Node} (h : Found before p place result)
    (hsame : SameAt before after place) : Found after p place result := by
  cases h with
  | folder h => exact .folder (hsame.node.trans h)
  | missing hclear h => exact .missing ((hsame.clear_iff List.prefix_rfl).2 hclear) (hsame.node.trans h)
  | file hname h => exact .file hname (hsame.node.trans h)
  | blocked h hname =>
      refine .blocked (fun hclear => h ((hsame.clear_iff List.prefix_rfl).1 hclear)) ?_
      rw [hsame.node]
      exact hname

theorem Found.unique {result other : Except DiskFault Node} (hrooted : disk.Rooted)
    (h : Found disk p place result) (h' : Found disk p place other) : result = other := by
  cases h with
  | folder h =>
      cases h' with
      | folder => rfl
      | missing _ h' => cases h.symm.trans h'
      | file _ h' => cases h.symm.trans h'
      | blocked h' => exact absurd (hrooted.clear h) h'
  | missing hclear h =>
      cases h' with
      | folder h' => cases h.symm.trans h'
      | missing => rfl
      | file _ h' => cases h.symm.trans h'
      | blocked h' => exact absurd hclear h'
  | file hname h =>
      cases h' with
      | folder h' => cases h.symm.trans h'
      | missing _ h' => cases h.symm.trans h'
      | file _ h' =>
          cases h.symm.trans h'
          rfl
      | blocked _ h' => exact absurd h (h' hname _ _)
  | blocked hblocked hname =>
      cases h' with
      | folder h' => exact absurd (hrooted.clear h') hblocked
      | missing hclear => exact absurd hclear hblocked
      | file hname' h' => exact absurd h' (hname hname' _ _)
      | blocked => rfl

/-- **A path leads to the same thing** on disks with the same at its place. -/
theorem find_eq_of_sameAt (hbefore : before.Rooted) (hafter : after.Rooted)
    (hgoal : before.goal? p = some place) (hgoal' : after.goal? p = some place)
    (hsame : SameAt before after place) : after.find p = before.find p := by
  by_cases htext : p.text = ""
  · rw [find, find, locate, locate, if_pos htext, if_pos htext]
    rfl
  · exact (hafter.found hgoal' htext).unique hafter ((hbefore.found hgoal htext).of_sameAt hsame)

/-- A path can be read if it ends with the name of a file that stands at its place. -/
theorem Rooted.read_eq_ok_iff (h : disk.Rooted) (hgoal : disk.goal? p = some place) {bytes : List UInt8} :
    disk.read p = .ok bytes ↔
      p.namesFile = true ∧ ∃ modified, disk.node? place = some (.file bytes modified) := by
  constructor
  · intro hread
    have htext : p.text ≠ "" := by
      intro htext
      rw [read, find, locate, if_pos htext] at hread
      cases hread
    have hfound := h.found hgoal htext
    rw [read] at hread
    cases hfind : disk.find p with
    | error fault =>
        rw [hfind] at hread
        cases hread
    | ok node =>
        rw [hfind] at hread hfound
        cases hfound with
        | folder => cases hread
        | file hname hnode =>
            cases hread
            exact ⟨hname, _, hnode⟩
  · rintro ⟨hname, modified, hnode⟩
    obtain ⟨front, name, hsegments, hlast⟩ := Path.exists_of_namesFile hname
    have htext : p.text ≠ "" := Path.text_ne_empty_of_segments hsegments (isName_ne_empty hlast)
    rw [read, (h.found hgoal htext).unique h (.file hname hnode)]
    rfl

end Disk

end Wiring
