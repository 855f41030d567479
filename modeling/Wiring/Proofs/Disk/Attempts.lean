/-
**Writing one file.**

An attempt to write a file makes the folders that are missing on the way to its place and puts the file
there.  It fits if the path ends with a proper name, no file stands above the place and no folder at it.
What does not fit, or what the system refuses, is left as it is, and the attempt fails with a problem that
says what could not be done.

Main definitions:

* `Wiring.Disk.Paved` — folders have been made at a place and above it, and nothing else has changed;
* `Wiring.Disk.Fits`, `Wiring.Disk.Takes` — a file can be put at the place of a path, and is;
* `Wiring.Disk.Ready` — the folder for a file is there;
* `Wiring.Disk.Attempt` — what one attempt comes to.

Main results:

* `Wiring.Disk.Rooted.createAlong_clear` — the folders that are missing are made where no file is in the way;
* `Wiring.Disk.Rooted.checkTemporary_iff` — when a temporary file can be put beside the file;
* `Wiring.Disk.Rooted.attempt` — **one attempt**, whatever it is that stands in its way.
-/

import Wiring.Proofs.Disk.Goals

set_option autoImplicit false

namespace Wiring.Disk

variable {disk before after made : Disk} {loc place up other : Location} {name : String} {p : Path}
  {bytes : List UInt8}

/-! ### Everything goes on standing in folders -/

theorem Rooted.putNode {node : Node} (h : disk.Rooted) (hfolder : disk.node? loc = some .folder)
    (hfree : disk.node? (loc ++ [name]) = some .folder → node = .folder) :
    (disk.putNode (loc ++ [name]) node).Rooted := by
  have hgrows : Grows disk (disk.putNode (loc ++ [name]) node) := grows_putNode hfree
  refine ⟨hgrows.folder h.here, fun {above last held} hnode => ?_⟩
  by_cases hsame : above ++ [last] = loc ++ [name]
  · rw [(List.append_inj' hsame rfl).1]
    exact hgrows.folder hfolder
  · rw [node?_putNode_of_ne hsame] at hnode
    exact hgrows.folder (h.above hnode)

theorem Rooted.makeFolder (h : disk.Rooted) (hmade : disk.makeFolder p = .ok made) : made.Rooted := by
  obtain ⟨loc, name, hfolder, -, rfl⟩ := makeFolder_cases hmade
  exact h.putNode hfolder fun _ => rfl

theorem Rooted.writeAtomic (h : disk.Rooted) (p : Path) (bytes : List UInt8) :
    (disk.writeAtomic p bytes).1.Rooted := by
  refine writeAtomic_induction (P := Rooted) Rooted.makeFolder ?_ h
  intro disk after h hinstall
  obtain ⟨-, name, loc, -, -, -, hfolder, hfree, rfl⟩ := install_cases hinstall
  exact h.putNode hfolder fun hnode => absurd hnode hfree

/-! ### The folder for an entry -/

/-- Where a new entry would stand, if its path ends with a segment that is not empty. -/
theorem target_of_segments {front : List String} (hsegments : p.segments = front ++ [name])
    (hname : name ≠ "") : disk.target p = (disk.follow (disk.start p) front).bind fun loc =>
      if disk.node? loc ≠ some .folder then .error .notFolder else .ok (loc, name, false) := by
  have htext := Path.text_ne_empty_of_segments hsegments hname
  have hplain : (p.segments.reverse.dropWhile (· = "")).reverse = p.segments := by
    rw [hsegments, List.reverse_concat, List.dropWhile_cons_of_neg (by simpa using hname),
      List.reverse_cons, List.reverse_reverse]
  unfold target
  rw [if_neg htext]
  dsimp only
  rw [hplain, hsegments, List.getLast?_concat, List.dropLast_concat]
  cases disk.follow (disk.start p) front with
  | error fault => rfl
  | ok loc =>
      simp only [bind, Except.bind, pure, Except.pure, Option.some.injEq, hname, decide_false]
      split <;> rfl

theorem Rooted.target_of_folder (h : disk.Rooted) {front : List String}
    (hsegments : p.segments = front ++ [name]) (hname : name ≠ "")
    (hup : disk.goalFrom (disk.start p) front = some up) (hfolder : disk.node? up = some .folder) :
    disk.target p = .ok (up, name, false) := by
  rw [target_of_segments hsegments hname, (h.follow_folder hup hfolder).2]
  exact if_neg (not_not.2 hfolder)

theorem Rooted.target_of_missing (h : disk.Rooted) {front : List String}
    (hsegments : p.segments = front ++ [name]) (hname : name ≠ "")
    (hup : disk.goalFrom (disk.start p) front = some up) (hclear : disk.Clear up)
    (hnone : disk.node? up = none) : disk.target p = .error .notFound := by
  rw [target_of_segments hsegments hname]
  have hfollowed := h.followed (h.start p) hup
  cases hfollow : disk.follow (disk.start p) front with
  | ok place =>
      rw [hfollow] at hfollowed
      cases hfollowed with
      | folder h => cases hnone.symm.trans h
      | file _ _ h => cases hnone.symm.trans h
  | error fault =>
      rw [hfollow] at hfollowed
      cases hfollowed with
      | missing => rfl
      | blocked h => exact absurd hclear h

theorem Rooted.target_of_blocked (h : disk.Rooted) {front : List String}
    (hsegments : p.segments = front ++ [name]) (hname : name ≠ "")
    (hup : disk.goalFrom (disk.start p) front = some up) (hblocked : ¬ disk.Clear up) :
    disk.target p = .error .notFolder := by
  rw [target_of_segments hsegments hname]
  have hfollowed := h.followed (h.start p) hup
  cases hfollow : disk.follow (disk.start p) front with
  | ok place =>
      rw [hfollow] at hfollowed
      refine if_pos fun hfolder => hblocked (h.clear ?_)
      obtain rfl : up = place := Option.some.inj (hup.symm.trans (goalFrom_of_follow hfollow))
      exact hfolder
  | error fault =>
      rw [hfollow] at hfollowed
      cases hfollowed with
      | missing hclear => exact absurd hclear hblocked
      | blocked => rfl

/-- A path that names a place without a folder has steps. -/
theorem Rooted.moves_ne_nil (h : disk.Rooted) (hgoal : disk.goal? p = some place)
    (hfree : disk.node? place ≠ some .folder) : p.moves ≠ [] := by
  intro hnil
  rw [← goalFrom_moves, hnil] at hgoal
  obtain rfl : disk.start p = place := Option.some.inj hgoal
  exact hfree (h.start p)

/-- The last step of a path goes down by a name, or up from a folder. -/
theorem goal?_of_moves {front : List String} {last : String} (hmoves : p.moves = front ++ [last])
    (hgoal : disk.goal? p = some place) : ∃ up, disk.goalFrom (disk.start p) front = some up ∧
      (isName last = true ∧ place = up ++ [last] ∨ disk.node? up = some .folder ∧ place = up.dropLast) := by
  have hidle : Path.isIdle last = false := by
    have hmem : last ∈ p.moves := hmoves ▸ List.mem_append_right _ List.mem_cons_self
    simpa using (List.mem_filter.1 hmem).2
  rw [← goalFrom_moves, hmoves, goalFrom_append] at hgoal
  cases hup : disk.goalFrom (disk.start p) front with
  | none =>
      rw [hup] at hgoal
      cases hgoal
  | some up =>
      rw [hup, Option.bind_some] at hgoal
      refine ⟨up, rfl, ?_⟩
      by_cases hname : isName last = true
      · rw [goalFrom_name hname] at hgoal
        exact .inl ⟨hname, (Option.some.inj hgoal).symm⟩
      · have hback : last = ".." := by
          by_contra hne
          exact hname (isName_iff.2 ⟨hidle, hne⟩)
        rw [goalFrom, if_neg (by rw [hidle]; decide), if_pos hback] at hgoal
        split at hgoal
        next hfolder => exact .inr ⟨hfolder, (Option.some.inj hgoal).symm⟩
        · cases hgoal

/-- A path that names a place without a folder ends with a name, but for idle segments. -/
theorem Rooted.namesFile_of_goal (h : disk.Rooted) (hgoal : disk.goal? p = some place)
    (hfree : disk.node? place ≠ some .folder) (htrim : p.Trimmed) : p.namesFile = true := by
  have hsteps := h.moves_ne_nil hgoal hfree
  obtain ⟨front, last, hmoves⟩ : ∃ front last, p.moves = front ++ [last] :=
    ⟨_, _, (List.dropLast_append_getLast hsteps).symm⟩
  obtain ⟨up, -, ⟨hname, -⟩ | ⟨hfolder, rfl⟩⟩ := goal?_of_moves hmoves hgoal
  · rw [Path.namesFile, htrim hsteps, hmoves, List.getLast?_concat]
    exact hname
  · exact absurd (h.dropLast hfolder) hfree

/-- The place of the folder for the entry of a path. -/
theorem goal?_folderFor {front : List String} (hsegments : p.segments = front ++ [name])
    (hname : Path.isIdle name = false) :
    disk.goal? (folderFor p) = disk.goalFrom (disk.start p) front := by
  have hmoves : p.moves = (front.filter fun s => !Path.isIdle s) ++ [name] := by
    rw [Path.moves, hsegments, List.filter_append, List.filter_cons_of_pos (by rw [hname]; rfl),
      List.filter_nil]
  have habove := Path.isAbove_folderFor (p := p) (by rw [hmoves]; simp)
  rw [← goalFrom_moves, habove.moves, hmoves, List.dropLast_concat, start_eq habove.absolute,
    goalFrom_filter]

theorem goalFrom_of_folderFor (hname : p.namesFile = true) (hgoal : disk.goal? p = some place)
    (hgoal' : disk.goal? (folderFor p) = some up) :
    ∃ front name, p.segments = front ++ [name] ∧ isName name = true ∧
      disk.goalFrom (disk.start p) front = some up ∧ place = up ++ [name] := by
  obtain ⟨front, name, top, hsegments, hname, hfront, rfl⟩ := goal?_of_namesFile hname hgoal
  rw [goal?_folderFor hsegments (isName_iff.1 hname).1, hfront] at hgoal'
  obtain rfl : top = up := Option.some.inj hgoal'
  exact ⟨front, name, hsegments, hname, hfront, rfl⟩

/-- Folders have been made at a place and above it, and nothing else has changed. -/
structure Paved (disk : Disk) (place : Location) (made : Disk) : Prop where
  writes : Writes disk made []
  rooted : made.Rooted
  on : ∀ loc, loc <+: place → made.node? loc = some .folder
  off : ∀ loc, ¬ loc <+: place → made.node? loc = disk.node? loc

theorem Paved.refl (h : disk.Rooted) (hfolder : disk.node? place = some .folder) : Paved disk place disk :=
  ⟨.refl _ _, h, fun _ hloc => h.folder_of_prefix hloc hfolder, fun _ _ => rfl⟩

/-- What stands in the folder is as it was. -/
theorem Paved.child (h : Paved disk up made) (name : String) :
    made.node? (up ++ [name]) = disk.node? (up ++ [name]) :=
  h.off _ fun hwithin => absurd hwithin.length_le (by simp)

/-- One more folder below. -/
theorem Paved.concat (h : Paved disk up made) (hnone : disk.node? (up ++ [name]) = none) :
    Paved disk (up ++ [name]) (made.putNode (up ++ [name]) .folder) := by
  have hup := h.on up List.prefix_rfl
  have hnew : made.node? (up ++ [name]) = none := by
    rwa [h.child name]
  have hput : ∀ loc, loc ≠ up ++ [name] →
      (made.putNode (up ++ [name]) .folder).node? loc = made.node? loc :=
    fun loc hne => node?_putNode_of_ne hne
  refine ⟨⟨h.writes.here, fun loc => ?_⟩, h.rooted.putNode hup fun _ => rfl, ?_, ?_⟩
  · by_cases hloc : loc = up ++ [name]
    · subst hloc
      exact .made hnone (node?_putNode_self _ _ _)
    · cases h.writes.changes loc with
      | kept hkept => exact .kept ((hput loc hloc).trans hkept)
      | made hfresh hfolder => exact .made hfresh ((hput loc hloc).trans hfolder)
      | written hfile => cases hfile
  · intro loc hloc
    rcases List.prefix_concat_iff.1 hloc with rfl | hloc
    · exact node?_putNode_self _ _ _
    · by_cases hsame : loc = up ++ [name]
      · rw [hsame]
        exact node?_putNode_self _ _ _
      · exact (hput loc hsame).trans (h.on loc hloc)
  · intro loc hloc
    rw [List.prefix_concat_iff, not_or] at hloc
    exact (hput loc hloc.1).trans (h.off loc hloc.2)

/-- A folder is made in a folder, under a name that is not taken. -/
theorem Rooted.makeFolder_of_folder (h : disk.Rooted) {front : List String}
    (hsegments : p.segments = front ++ [name]) (hname : isName name = true)
    (hup : disk.goalFrom (disk.start p) front = some up) (hfolder : disk.node? up = some .folder)
    (hnone : disk.node? (up ++ [name]) = none) :
    disk.makeFolder p = .ok (disk.putNode (up ++ [name]) .folder) := by
  rw [Disk.makeFolder, h.target_of_folder hsegments (isName_ne_empty hname) hup hfolder]
  exact if_neg (by simp [hname, hnone])

/-- **Where no file is in the way, the folders that are missing are made.**  The folder above is made
first, and so on up to one that is there. -/
theorem Rooted.createAlong_clear (h : disk.Rooted) {count : Nat} (hgoal : disk.goal? p = some place)
    (hclear : disk.Clear place) (hnone : disk.node? place = none) (htrim : p.Trimmed)
    (hcount : p.moves.length < count) :
    ∃ made, disk.createAlong (Path.ancestorsUpTo count p) = (made, .ok ()) ∧ Paved disk place made := by
  induction count generalizing p place with
  | zero => exact absurd hcount (Nat.not_lt_zero _)
  | succ count ih =>
      have hfile := h.namesFile_of_goal hgoal (not_folder_of_none hnone) htrim
      obtain ⟨front, name, up, hsegments, hname, hup, rfl⟩ := goal?_of_namesFile hfile hgoal
      have htext := Path.text_ne_empty_of_segments hsegments (isName_ne_empty hname)
      have hclear' : disk.Clear up := hclear.of_prefix (List.prefix_append _ _)
      rw [Path.ancestorsUpTo, createAlong, if_neg htext]
      cases hnode : disk.node? up with
      | some node =>
          cases node with
          | file bytes modified => exact absurd hnode (hclear' up List.prefix_rfl _ _)
          | folder =>
              rw [h.makeFolder_of_folder hsegments hname hup hnode hnone]
              exact ⟨_, rfl, (Paved.refl h hnode).concat hnone⟩
      | none =>
          have hmissing : disk.makeFolder p = .error .notFound := by
            rw [Disk.makeFolder, h.target_of_missing hsegments (isName_ne_empty hname) hup hclear' hnode]
          have hgoal' : disk.goal? (folderFor p) = some up :=
            (goal?_folderFor hsegments (isName_iff.1 hname).1).trans hup
          have hmoves : p.moves ≠ [] := h.moves_ne_nil hgoal (not_folder_of_none hnone)
          have hsteps : (folderFor p).moves ≠ [] := h.moves_ne_nil hgoal' (not_folder_of_none hnode)
          have habove := Path.isAbove_folderFor hmoves
          have hshort : (folderFor p).moves.length < count := by
            rw [habove.moves, List.length_dropLast]
            have := List.length_pos_of_ne_nil hmoves
            omega
          obtain ⟨made, hmade, hpaved⟩ := ih hgoal' hclear' hnode habove.trimmed hshort
          rw [hmissing, Path.parent?_eq_folderFor hsteps]
          dsimp only
          rw [hmade]
          dsimp only
          have hlater : made.makeFolder p = .ok (made.putNode (up ++ [name]) .folder) := by
            refine hpaved.rooted.makeFolder_of_folder hsegments hname ?_ (hpaved.on up List.prefix_rfl) ?_
            · rw [hpaved.writes.grows.start]
              exact hpaved.writes.grows.goalFrom hup
            · rwa [hpaved.child name]
          rw [hlater]
          exact ⟨_, rfl, hpaved.concat hnone⟩

/-- The place of the folder for an entry is above that of the entry, unless the folder is there. -/
theorem Rooted.exists_goal_folderFor (h : disk.Rooted) (hgoal : disk.goal? p = some place) :
    ∃ up, disk.goal? (folderFor p) = some up ∧ (folderFor p).text ≠ "" ∧ (folderFor p).Trimmed ∧
      (disk.node? up = some .folder ∨ ∃ name, place = up ++ [name]) := by
  by_cases hsteps : p.moves = []
  · have hhere : disk.goal? ⟨"."⟩ = some disk.here := by
      rw [← goalFrom_moves]
      have hmoves : (⟨"."⟩ : Path).moves = [] := by decide
      have hrelative : (⟨"."⟩ : Path).isAbsolute = false := by decide
      rw [hmoves, Disk.start, hrelative]
      rfl
    rw [Path.folderFor_of_moves_eq_nil hsteps]
    exact ⟨disk.here, hhere, by decide, fun hne => absurd (by decide) hne, .inl h.here⟩
  · obtain ⟨front, last, hmoves⟩ : ∃ front last, p.moves = front ++ [last] :=
      ⟨_, _, (List.dropLast_append_getLast hsteps).symm⟩
    obtain ⟨up, hup, hlast⟩ := goal?_of_moves hmoves hgoal
    have habove := Path.isAbove_folderFor hsteps
    refine ⟨up, ?_, habove.text, habove.trimmed, ?_⟩
    · rw [← goalFrom_moves, habove.moves, hmoves, List.dropLast_concat, start_eq habove.absolute, hup]
    · rcases hlast with ⟨-, rfl⟩ | ⟨hfolder, -⟩
      · exact .inr ⟨last, rfl⟩
      · exact .inl hfolder

/-- Only a file that stands at a place itself is in its way but not in that of the folder above. -/
theorem Clear.concat (h : disk.Clear up)
    (hfree : ∀ bytes modified, disk.node? (up ++ [name]) ≠ some (.file bytes modified)) :
    disk.Clear (up ++ [name]) := by
  intro above habove bytes modified hfile
  rcases List.prefix_concat_iff.1 habove with rfl | habove
  · exact hfree bytes modified hfile
  · exact h above habove bytes modified hfile

theorem Rooted.ensureFolder_clear (h : disk.Rooted) (hgoal : disk.goal? p = some place) (htext : p.text ≠ "")
    (htrim : p.Trimmed) (hclear : disk.Clear place) :
    ∃ made, disk.ensureFolder p = (made, .ok ()) ∧ Paved disk place made := by
  have hfound := h.found hgoal htext
  rw [ensureFolder, Disk.exists]
  cases hfind : disk.find p with
  | ok node =>
      rw [hfind] at hfound
      cases hfound with
      | folder hfolder => exact ⟨disk, rfl, .refl h hfolder⟩
      | file _ hfile => exact absurd hfile (hclear place List.prefix_rfl _ _)
  | error fault =>
      rw [hfind] at hfound
      cases hfound with
      | missing _ hnone =>
          obtain ⟨made, hmade, hpaved⟩ := h.createAlong_clear hgoal hclear hnone htrim
            (Nat.lt_succ_of_le (List.length_filter_le _ p.segments))
          refine ⟨made, ?_, hpaved⟩
          rw [createFolders, Path.ancestors, hmade]
          rfl
      | blocked hblocked => exact absurd hclear hblocked

/-- Where a file is in the way, no folder is made. -/
theorem Rooted.ensureFolder_blocked (h : disk.Rooted) (hgoal : disk.goal? p = some place) (htext : p.text ≠ "")
    (htrim : p.Trimmed) (hblocked : ¬ disk.Clear place) : (disk.ensureFolder p).1 = disk := by
  have hfile := h.namesFile_of_goal hgoal (fun hfolder => hblocked (h.clear hfolder)) htrim
  obtain ⟨front, name, up, hsegments, hname, hup, rfl⟩ := goal?_of_namesFile hfile hgoal
  have hmake : ∃ fault, fault ≠ .notFound ∧ disk.makeFolder p = .error fault := by
    by_cases hclear : disk.Clear up
    · obtain ⟨bytes, modified, hnode⟩ :
          ∃ bytes modified, disk.node? (up ++ [name]) = some (.file bytes modified) := by
        by_contra hnone
        exact hblocked (hclear.concat fun bytes modified hnode => hnone ⟨bytes, modified, hnode⟩)
      refine ⟨.alreadyThere, by decide, ?_⟩
      rw [Disk.makeFolder, h.target_of_folder hsegments (isName_ne_empty hname) hup (h.above hnode)]
      exact if_pos (by rw [hnode, Option.isSome_some, Bool.or_true])
    · refine ⟨.notFolder, by decide, ?_⟩
      rw [Disk.makeFolder, h.target_of_blocked hsegments (isName_ne_empty hname) hup hclear]
  obtain ⟨fault, hfault, hmake⟩ := hmake
  have hcreate : (disk.createFolders p).1 = disk := by
    rw [createFolders, Path.ancestors, Path.ancestorsUpTo, createAlong, if_neg htext, hmake]
    cases fault with
    | notFound => exact absurd rfl hfault
    | _ => rfl
  rw [ensureFolder]
  split
  · rfl
  · split
    next made hdone =>
      rw [hdone] at hcreate
      exact hcreate
    next made fault hfailed =>
      rw [hfailed] at hcreate
      exact hcreate

/-! ### The temporary file -/

/-- The path of the temporary file: its segments end with the name, and it names a place in the folder. -/
theorem exists_segments_temporary (htext : p.text ≠ "") (hgoal : disk.goal? p = some place) :
    ∃ front, (p.join ⟨temporaryName⟩).segments = front ++ [temporaryName] ∧
      disk.goalFrom (disk.start (p.join ⟨temporaryName⟩)) front = some place := by
  have hone : (⟨temporaryName⟩ : Path).segments = [temporaryName] := by decide
  have hrelative : (⟨temporaryName⟩ : Path).isAbsolute = false := by decide
  have habsolute : (p.join ⟨temporaryName⟩).isAbsolute = p.isAbsolute := by
    obtain ⟨c, rest, hchars⟩ := List.exists_cons_of_ne_nil
      (fun hnil => htext (String.toList_eq_nil_iff.1 hnil) : p.text.toList ≠ [])
    rw [Path.join, if_neg (by rw [hrelative]; decide)]
    split <;> simp [Path.isAbsolute, hchars]
  refine ⟨_, (Path.segments_join hrelative).trans (by rw [hone]), ?_⟩
  rw [start_eq habsolute]
  split
  next hslash =>
    -- an empty segment at the end is idle
    obtain ⟨front, hfront⟩ := List.getLast?_eq_some_iff.1 hslash
    rw [goal?, hfront, goalFrom_append] at hgoal
    rw [hfront, List.dropLast_concat]
    cases hplace : disk.goalFrom (disk.start p) front with
    | none =>
        rw [hplace] at hgoal
        cases hgoal
    | some other =>
        rw [hplace] at hgoal
        exact hgoal
  · exact hgoal

/-- A temporary file can be put in a folder that is there, and nowhere else. -/
theorem Rooted.checkTemporary_iff (h : disk.Rooted) (hgoal : disk.goal? p = some place) (htext : p.text ≠ "") :
    disk.checkTemporary p = .ok () ↔ disk.node? place = some .folder := by
  obtain ⟨front, hsegments, hplace⟩ := exists_segments_temporary htext hgoal
  have hname : isName temporaryName = true := by decide
  have hne : temporaryName ≠ "" := by decide
  have hgoal' : disk.goal? (p.join ⟨temporaryName⟩) = some (place ++ [temporaryName]) := by
    rw [goal?, hsegments, goalFrom_append, hplace, Option.bind_some, goalFrom_name hname]
  have hfound := h.found hgoal' (Path.text_ne_empty_of_segments hsegments hne)
  have htarget := h.target_of_folder hsegments hne hplace
  constructor
  · intro hcheck
    by_contra hfolder
    rw [checkTemporary] at hcheck
    cases hfind : disk.find (p.join ⟨temporaryName⟩) with
    | ok node =>
        rw [hfind] at hfound
        cases hfound with
        | folder hnode => exact hfolder (h.above hnode)
        | file _ hnode => exact hfolder (h.above hnode)
    | error fault =>
        rw [hfind] at hfound hcheck
        cases hfound with
        | missing hclear =>
            have hclear' : disk.Clear place := hclear.of_prefix (List.prefix_append _ _)
            have hnone : disk.node? place = none := by
              cases hnode : disk.node? place with
              | none => rfl
              | some node =>
                  cases node with
                  | folder => exact absurd hnode hfolder
                  | file bytes modified => exact absurd hnode (hclear' place List.prefix_rfl _ _)
            rw [h.target_of_missing hsegments hne hplace hclear' hnone] at hcheck
            cases hcheck
        | blocked => cases hcheck
  · intro hfolder
    rw [checkTemporary, htarget hfolder]
    cases hfind : disk.find (p.join ⟨temporaryName⟩) with
    | ok node => rfl
    | error fault =>
        rw [hfind] at hfound
        cases hfound with
        | missing => rfl
        | blocked hblocked hfree =>
            have hfile := Path.namesFile_of_segments hsegments hname
            exact absurd ((h.clear hfolder).concat (hfree hfile)) hblocked

/-- Where no file is in the way, the folder is there in the end, and takes a temporary file. -/
theorem Rooted.prepare_clear (h : disk.Rooted) (hgoal : disk.goal? p = some place) (htext : p.text ≠ "")
    (htrim : p.Trimmed) (hclear : disk.Clear place) :
    ∃ made, disk.ensureFolder p = (made, .ok ()) ∧ made.checkTemporary p = .ok () ∧ Paved disk place made := by
  obtain ⟨made, hmade, hpaved⟩ := h.ensureFolder_clear hgoal htext htrim hclear
  have hcheck := hpaved.rooted.checkTemporary_iff (hpaved.writes.grows.goal? hgoal) htext
  exact ⟨made, hmade, hcheck.2 (hpaved.on place List.prefix_rfl), hpaved⟩

/-- Where a file is in the way, the folder cannot be made, or is that file. -/
theorem Rooted.prepare_blocked (h : disk.Rooted) (hgoal : disk.goal? p = some place) (htext : p.text ≠ "")
    (htrim : p.Trimmed) (hblocked : ¬ disk.Clear place) :
    (∃ problem, disk.ensureFolder p = (disk, .error problem)) ∨
      disk.ensureFolder p = (disk, .ok ()) ∧ ∃ problem, disk.checkTemporary p = .error problem := by
  have hstays := h.ensureFolder_blocked hgoal htext htrim hblocked
  cases hensure : disk.ensureFolder p with
  | mk made result =>
      obtain rfl : made = disk := by rwa [hensure] at hstays
      cases result with
      | error problem => exact .inl ⟨problem, rfl⟩
      | ok _ =>
          cases hcheck : made.checkTemporary p with
          | error problem => exact .inr ⟨rfl, problem, rfl⟩
          | ok _ => exact absurd (h.clear ((h.checkTemporary_iff hgoal htext).1 hcheck)) hblocked

/-! ### The file -/

/-- A file can be put at the place of a path: the path ends with a proper name, no file stands above the
place, and no folder at it. -/
structure Fits (disk : Disk) (p : Path) (place : Location) : Prop where
  named : p.namesFile = true
  clear : disk.Clear place.dropLast
  free : disk.node? place ≠ some .folder

/-- What fits stands in the folder for the entry. -/
theorem Fits.exists_name (h : disk.Fits p place) (hgoal : disk.goal? p = some place)
    (hgoal' : disk.goal? (folderFor p) = some up) : disk.Clear up ∧ ∃ name, place = up ++ [name] := by
  obtain ⟨front, name, -, -, -, rfl⟩ := goalFrom_of_folderFor h.named hgoal hgoal'
  have hclear := h.clear
  rw [List.dropLast_concat] at hclear
  exact ⟨hclear, name, rfl⟩

theorem namesFile_of_install (h : disk.install p bytes = .ok after) : p.namesFile = true := by
  obtain ⟨front, name, -, hsegments, hname, -⟩ := install_cases h
  exact Path.namesFile_of_segments hsegments hname

theorem Rooted.install_of_folder (h : disk.Rooted) {front : List String}
    (hsegments : p.segments = front ++ [name]) (hname : isName name = true)
    (hup : disk.goalFrom (disk.start p) front = some up) (hfolder : disk.node? up = some .folder) :
    disk.install p bytes =
      if disk.node? (up ++ [name]) = some .folder then .error .isFolder
      else .ok (disk.putNode (up ++ [name]) (.file bytes disk.now)) := by
  rw [install, h.target_of_folder hsegments (isName_ne_empty hname) hup hfolder]
  simp only [bind, Except.bind, hname, Bool.not_true, Bool.false_eq_true, if_false]
  rfl

/-- Where no file is in the way of the folder, a file fits unless its path ends otherwise or a folder stands at
its place. -/
theorem fits_iff_of_clear (hgoal : disk.goal? p = some place) (hgoal' : disk.goal? (folderFor p) = some up)
    (hclear : disk.Clear up) : disk.Fits p place ↔ p.namesFile = true ∧ disk.node? place ≠ some .folder := by
  refine ⟨fun hfits => ⟨hfits.named, hfits.free⟩, fun ⟨hnamed, hfree⟩ => ⟨hnamed, ?_, hfree⟩⟩
  obtain ⟨front, name, -, -, -, rfl⟩ := goalFrom_of_folderFor hnamed hgoal hgoal'
  rwa [List.dropLast_concat]

/-- The folder for a file is there. -/
structure Ready (disk : Disk) (p : Path) (place up : Location) : Prop where
  rooted : disk.Rooted
  goal : disk.goal? p = some place
  folder : disk.goal? (folderFor p) = some up
  there : disk.node? up = some .folder

theorem Paved.ready (h : Paved disk up made) (hgoal : disk.goal? p = some place)
    (hgoal' : disk.goal? (folderFor p) = some up) : Ready made p place up where
  rooted := h.rooted
  goal := h.writes.grows.goal? hgoal
  folder := h.writes.grows.goal? hgoal'
  there := h.on up List.prefix_rfl

theorem Ready.fits_iff (h : Ready disk p place up) :
    disk.Fits p place ↔ p.namesFile = true ∧ disk.node? place ≠ some .folder :=
  fits_iff_of_clear h.goal h.folder (h.rooted.clear h.there)

/-- In the folder that is there, what fits is installed. -/
theorem Ready.install_of_fits (h : Ready disk p place up) (hfits : disk.Fits p place) (bytes : List UInt8) :
    disk.install p bytes = .ok (disk.putNode place (.file bytes disk.now)) := by
  obtain ⟨front, name, hsegments, hname, hfront, rfl⟩ := goalFrom_of_folderFor hfits.named h.goal h.folder
  rw [h.rooted.install_of_folder hsegments hname hfront h.there, if_neg hfits.free]

/-- In the folder that is there, nothing else is installed. -/
theorem Ready.install_of_unfit (h : Ready disk p place up) (hunfit : ¬ disk.Fits p place) (bytes : List UInt8) :
    ∃ fault, disk.install p bytes = .error fault := by
  cases hinstall : disk.install p bytes with
  | error fault => exact ⟨fault, rfl⟩
  | ok after =>
      have hnamed := namesFile_of_install hinstall
      refine absurd (h.fits_iff.2 ⟨hnamed, ?_⟩) hunfit
      obtain ⟨front, name, hsegments, hname, hfront, rfl⟩ := goalFrom_of_folderFor hnamed h.goal h.folder
      rw [h.rooted.install_of_folder hsegments hname hfront h.there] at hinstall
      split at hinstall
      · cases hinstall
      next hfree => exact hfree

/-- Making the folder does not change what fits. -/
theorem Paved.fits_iff (hpaved : Paved disk up made) (hgoal : disk.goal? p = some place)
    (hgoal' : disk.goal? (folderFor p) = some up) (hclear : disk.Clear up) :
    made.Fits p place ↔ disk.Fits p place := by
  rw [(hpaved.ready hgoal hgoal').fits_iff, fits_iff_of_clear hgoal hgoal' hclear]
  refine and_congr_right fun hnamed => ?_
  obtain ⟨front, name, -, -, -, rfl⟩ := goalFrom_of_folderFor hnamed hgoal hgoal'
  rw [hpaved.child name]

theorem holds_iff : disk.holds p bytes = true ↔ disk.read p = .ok bytes := by
  unfold holds
  cases disk.read p with
  | error fault => exact ⟨nofun, nofun⟩
  | ok held => simp

/-! ### One attempt -/

/-- A file can be written: it fits, and the system does not refuse it, unless it holds its bytes already. -/
structure Takes (disk : Disk) (p : Path) (bytes : List UInt8) (place : Location) : Prop where
  fits : disk.Fits p place
  granted : disk.read p = .ok bytes ∨ disk.refuses p bytes = none

/-- What the problems of an attempt say first. -/
def complaints (p : Path) : List String :=
  ["Failed to create directory: " ++ (folderFor p).text,
    "Failed to create temp file in: " ++ (folderFor p).text,
    "Failed to write to temp file for: " ++ p.text,
    "Failed to sync file to disk",
    "Failed to rename temp file to: " ++ p.text]

/-- What an attempt may have made of a place on the disk. -/
inductive AttemptAt (before after : Disk) (bytes : List UInt8) (place : Location)
    (result : Except Problem WriteStatus) (loc : Location) : Prop
  /-- It is as it was. -/
  | kept (h : after.node? loc = before.node? loc)
  /-- It is above the place of the file, and a folder where nothing was. -/
  | made (habove : loc <+: place) (hne : loc ≠ place) (hnew : before.node? loc = none)
    (h : after.node? loc = some .folder)
  /-- It is the place of the file, which has been written. -/
  | written {modified : Nat} (hplace : loc = place) (hresult : result = .ok .written)
    (h : after.node? loc = some (.file bytes modified))

/-- **What an attempt comes to.** -/
structure Attempt (before : Disk) (p : Path) (bytes : List UInt8) (place : Location) (after : Disk)
    (result : Except Problem WriteStatus) : Prop where
  able : (∃ status, result = .ok status) ↔ before.Takes p bytes place
  unchanged : result = .ok .unchanged ↔ before.read p = .ok bytes
  complains : ∀ problem, result = .error problem → ∃ message ∈ complaints p,
    problem.chain.head? = some message
  changes : ∀ loc, AttemptAt before after bytes place result loc

/-- What can be read fits. -/
theorem Rooted.fits_of_read (h : disk.Rooted) (hgoal : disk.goal? p = some place)
    (hread : disk.read p = .ok bytes) : disk.Fits p place := by
  obtain ⟨hname, modified, hnode⟩ := (h.read_eq_ok_iff hgoal).1 hread
  obtain ⟨front, name, up, -, -, -, rfl⟩ := goal?_of_namesFile hname hgoal
  refine ⟨hname, ?_, not_folder_of_file hnode⟩
  rw [List.dropLast_concat]
  exact h.clear (h.above hnode)

theorem chain_ensureFolder {problem : Problem} (h : disk.ensureFolder p = (made, .error problem)) :
    problem.chain.head? = some ("Failed to create directory: " ++ p.text) := by
  unfold ensureFolder at h
  split at h
  · cases h
  · split at h
    · cases h
    · cases h
      rfl

theorem chain_checkTemporary {problem : Problem} (h : disk.checkTemporary p = .error problem) :
    problem.chain.head? = some ("Failed to create temp file in: " ++ p.text) := by
  unfold checkTemporary at h
  split at h
  · cases h
  · cases h
  · cases h
    rfl
  · cases h
    rfl

theorem chain_refusalProblem (p : Path) (refusal : WriteRefusal) : ∃ message ∈ complaints p,
    (refusalProblem p refusal).chain.head? = some message := by
  unfold refusalProblem
  cases refusal.stage <;> exact ⟨_, by simp [complaints], rfl⟩

theorem Attempt.of_error {problem : Problem} (hread : disk.read p ≠ .ok bytes)
    (hunfit : ¬ disk.Takes p bytes place)
    (hmessage : ∃ message ∈ complaints p, problem.chain.head? = some message)
    (hchanges : ∀ loc, AttemptAt disk after bytes place (.error problem) loc) :
    Attempt disk p bytes place after (.error problem) := by
  refine ⟨iff_of_false (fun ⟨_, hstatus⟩ => nomatch hstatus) hunfit, iff_of_false nofun hread, ?_, hchanges⟩
  intro other hother
  rwa [← Except.error.inj hother]

/-- The folders that an attempt makes are above the place of the file. -/
theorem Paved.attemptAt {result : Except Problem WriteStatus} (hpaved : Paved disk up made)
    (h : disk.Rooted) (hup : disk.node? up = some .folder ∨ ∃ name, place = up ++ [name]) (loc : Location) :
    AttemptAt disk made bytes place result loc := by
  by_cases hloc : loc <+: up
  · cases hpaved.writes.changes loc with
    | kept hkept => exact .kept hkept
    | made hnew hfolder =>
        rcases hup with hup | ⟨name, rfl⟩
        · cases hnew.symm.trans (h.folder_of_prefix hloc hup)
        · refine .made (hloc.trans (List.prefix_append _ _)) ?_ hnew hfolder
          rintro rfl
          exact absurd hloc.length_le (by simp)
    | written hfile => cases hfile
  · exact .kept (hpaved.off loc hloc)

/-- An attempt that puts the file in its place, once the folder is there. -/
theorem Paved.attempt (hpaved : Paved disk up made) (h : disk.Rooted)
    (htakes : disk.Takes p bytes (up ++ [name])) (hread : disk.read p ≠ .ok bytes) :
    Attempt disk p bytes (up ++ [name]) (made.putNode (up ++ [name]) (.file bytes made.now))
      (.ok .written) := by
  refine ⟨iff_of_true ⟨_, rfl⟩ htakes, iff_of_false nofun hread, nofun, fun loc => ?_⟩
  by_cases hloc : loc = up ++ [name]
  · subst hloc
    exact .written rfl rfl (node?_putNode_self _ _ _)
  · have hput : ∀ node, (made.putNode (up ++ [name]) node).node? loc = made.node? loc :=
      fun _ => node?_putNode_of_ne hloc
    cases @Paved.attemptAt disk made (up ++ [name]) up bytes (.ok .written) hpaved h (.inr ⟨name, rfl⟩) loc with
    | kept hkept => exact .kept ((hput _).trans hkept)
    | made habove hne hnew hfolder => exact .made habove hne hnew ((hput _).trans hfolder)
    | written hplace => exact absurd hplace hloc

/-- **One attempt**, whatever it is that stands in its way. -/
theorem Rooted.attempt (h : disk.Rooted) (hgoal : disk.goal? p = some place) (bytes : List UInt8) :
    Attempt disk p bytes place (disk.writeAtomic p bytes).1 (disk.writeAtomic p bytes).2 := by
  by_cases hread : disk.read p = .ok bytes
  · rw [Disk.writeAtomic, if_pos (holds_iff.2 hread)]
    exact ⟨iff_of_true ⟨_, rfl⟩ ⟨h.fits_of_read hgoal hread, .inl hread⟩, iff_of_true rfl hread, nofun,
      fun _ => .kept rfl⟩
  rw [Disk.writeAtomic, if_neg fun hholds => hread (holds_iff.1 hholds)]
  dsimp only
  obtain ⟨up, hgoal', htext, htrim, hup⟩ := h.exists_goal_folderFor hgoal
  by_cases hclear : disk.Clear up
  · obtain ⟨made, hmade, hcheck, hpaved⟩ := h.prepare_clear hgoal' htext htrim hclear
    have hready := hpaved.ready hgoal hgoal'
    have hfits_iff := hpaved.fits_iff hgoal hgoal' hclear
    have hrefuses : made.refuses = disk.refuses := by
      rw [← refuses_ensureFolder disk (folderFor p), hmade]
    rw [hmade]
    dsimp only
    rw [hcheck]
    dsimp only
    rw [hrefuses]
    cases hrefused : disk.refuses p bytes with
    | some refusal =>
        have huntaken : ¬ disk.Takes p bytes place := by
          rintro ⟨-, hheld | hgranted⟩
          · exact hread hheld
          · cases hrefused.symm.trans hgranted
        exact .of_error hread huntaken (chain_refusalProblem p refusal) (hpaved.attemptAt h hup)
    | none =>
        dsimp only
        by_cases hfits : disk.Fits p place
        · rw [hready.install_of_fits (hfits_iff.2 hfits)]
          obtain ⟨-, name, rfl⟩ := hfits.exists_name hgoal hgoal'
          exact hpaved.attempt h ⟨hfits, .inr hrefused⟩ hread
        · obtain ⟨fault, hinstall⟩ := hready.install_of_unfit (mt hfits_iff.1 hfits) bytes
          rw [hinstall]
          exact .of_error hread (fun htakes => hfits htakes.fits) ⟨_, by simp [complaints], rfl⟩
            (hpaved.attemptAt h hup)
  · have hunfit : ¬ disk.Takes p bytes place := fun htakes =>
      hclear (htakes.fits.exists_name hgoal hgoal').1
    rcases h.prepare_blocked hgoal' htext htrim hclear with ⟨problem, hensure⟩ | ⟨hensure, problem, hcheck⟩
    · rw [hensure]
      exact .of_error hread hunfit ⟨_, by simp [complaints], chain_ensureFolder hensure⟩ fun _ => .kept rfl
    · rw [hensure]
      dsimp only
      rw [hcheck]
      exact .of_error hread hunfit ⟨_, by simp [complaints], chain_checkTemporary hcheck⟩
        fun _ => .kept rfl

end Wiring.Disk
