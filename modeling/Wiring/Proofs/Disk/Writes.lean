/-
**What writing files changes on a disk.**

Writing files makes folders where nothing was and puts bytes at the places that the paths of the files lead
to.  Every other place stays as it is, whichever of the writes fail.  Since no folder and no file goes away,
a path that has been written goes on leading to its place, and what it holds in the end has been written
there for it, or for another path that leads to the same place.

Main definitions:

* `Wiring.Disk.Grows` — nothing goes away, and folders stay folders;
* `Wiring.Disk.ChangesAt`, `Wiring.Disk.Writes` — what writing some files may change;
* `Wiring.Disk.Holds` — a path leads to the bytes of one of the files.

Main results:

* `Wiring.Disk.Grows.locate` — paths go on leading to their places;
* `Wiring.Disk.Writes.trans` — one write after another;
* `Wiring.Disk.writes_writeAtomic`, `Wiring.Disk.holds_writeAtomic` — one file;
* `Wiring.Disk.writes_writeAll`, `Wiring.Disk.holds_writeAll` — **several files**.
-/

import Mathlib.Data.List.Forall2
import Wiring.Disk.AtomicWrite

set_option autoImplicit false

namespace Wiring

namespace Disk

variable {before after later disk made : Disk} {files more : List (Path × List UInt8)} {p : Path}
  {bytes : List UInt8} {loc place : Location}

/-! ### Growing -/

/-- Nothing goes away, and folders stay folders. -/
structure Grows (before after : Disk) : Prop where
  here : after.here = before.here
  folder : ∀ {loc}, before.node? loc = some .folder → after.node? loc = some .folder
  node : ∀ {loc node}, before.node? loc = some node → ∃ node', after.node? loc = some node'

theorem Grows.refl (disk : Disk) : Grows disk disk :=
  ⟨rfl, id, fun h => ⟨_, h⟩⟩

/-- What can be followed can still be followed. -/
theorem Grows.follow (h : Grows before after) {segments : List String}
    (hfollow : before.follow loc segments = .ok place) : after.follow loc segments = .ok place := by
  induction segments generalizing loc with
  | nil => exact hfollow
  | cons segment rest ih =>
      rw [Disk.follow] at hfollow ⊢
      split at hfollow
      · cases hfollow
      next hfolder =>
        rw [if_neg (fun hne => hne (h.folder (not_not.1 hfolder)))]
        split at hfollow
        next hidle => rw [if_pos hidle]; exact ih hfollow
        next hidle =>
          rw [if_neg hidle]
          split at hfollow
          next hup => rw [if_pos hup]; exact ih hfollow
          next hup =>
            rw [if_neg hup]
            cases hnode : before.node? (loc ++ [segment]) with
            | none => rw [hnode] at hfollow; cases hfollow
            | some node =>
                rw [hnode] at hfollow
                obtain ⟨node', hnode'⟩ := h.node hnode
                rw [hnode']
                exact ih hfollow

theorem Grows.start (h : Grows before after) (p : Path) : after.start p = before.start p := by
  rw [Disk.start, Disk.start, h.here]

/-- Paths go on leading to their places. -/
theorem Grows.locate (h : Grows before after) (hplace : before.locate p = .ok place) :
    after.locate p = .ok place := by
  unfold Disk.locate at hplace ⊢
  split at hplace
  · cases hplace
  next htext =>
    rw [if_neg htext, h.start]
    exact h.follow hplace

theorem follow_append (disk : Disk) (loc : Location) (segments more : List String) :
    disk.follow loc (segments ++ more) =
      (disk.follow loc segments).bind fun place => disk.follow place more := by
  induction segments generalizing loc with
  | nil => rfl
  | cons segment rest ih =>
      rw [List.cons_append, follow, follow]
      split
      · rfl
      split
      · exact ih loc
      split
      · exact ih loc.dropLast
      · split
        · rfl
        · exact ih (loc ++ [segment])

theorem read_eq_ok : disk.read p = .ok bytes ↔
    ∃ place modified, disk.locate p = .ok place ∧ disk.node? place = some (.file bytes modified) := by
  unfold read find
  cases hplace : disk.locate p with
  | error fault =>
      constructor
      · intro h
        cases h
      · rintro ⟨place, modified, h, -⟩
        cases h
  | ok place =>
      cases hnode : disk.node? place with
      | none =>
          constructor
          · intro h
            simp only [bind, Except.bind, hnode] at h
            cases h
          · rintro ⟨place', modified, h, hfile⟩
            cases h
            cases hnode.symm.trans hfile
      | some node =>
          simp only [bind, Except.bind, hnode]
          cases node with
          | folder =>
              constructor
              · intro h
                cases h
              · rintro ⟨place', modified, h, hfile⟩
                cases h
                cases hnode.symm.trans hfile
          | file held modified =>
              constructor
              · intro h
                cases h
                exact ⟨place, modified, rfl, hnode⟩
              · rintro ⟨place', modified', h, hfile⟩
                cases h
                cases hnode.symm.trans hfile
                rfl

/-! ### Putting one thing in one place -/

/-- A disk with something else at a place. -/
def putNode (disk : Disk) (loc : Location) (node : Node) : Disk :=
  { disk with nodes := disk.nodes.put loc node }

theorem node?_putNode (disk : Disk) (loc : Location) (node : Node) (place : Location) :
    (disk.putNode (loc) node).node? place =
      if place = [] then some .folder else if place = loc then some node else disk.node? place := by
  unfold node? putNode
  split
  · rfl
  · rw [Table.get?_put]

theorem node?_putNode_self {name : String} (disk : Disk) (loc : Location) (node : Node) :
    (disk.putNode (loc ++ [name]) node).node? (loc ++ [name]) = some node := by
  rw [node?_putNode, if_neg (by simp), if_pos rfl]

theorem node?_putNode_of_ne {node : Node} (h : place ≠ loc) :
    (disk.putNode loc node).node? place = disk.node? place := by
  rw [node?_putNode, if_neg h]
  split
  next hroot => rw [node?, if_pos hroot]
  · rfl

theorem grows_putNode {name : String} {node : Node}
    (h : disk.node? (loc ++ [name]) = some .folder → node = .folder) :
    Grows disk (disk.putNode (loc ++ [name]) node) := by
  refine ⟨rfl, ?_, ?_⟩
  · intro place hfolder
    by_cases hplace : place = loc ++ [name]
    · subst hplace
      rw [node?_putNode_self, h hfolder]
    · rwa [node?_putNode_of_ne hplace]
  · intro place held hnode
    by_cases hplace : place = loc ++ [name]
    · subst hplace
      exact ⟨node, node?_putNode_self _ _ _⟩
    · exact ⟨held, by rwa [node?_putNode_of_ne hplace]⟩

/-! ### What writing may change -/

/-- What may have become of a place while files were written. -/
inductive ChangesAt (before after : Disk) (files : List (Path × List UInt8)) (place : Location) : Prop
  /-- It is as it was. -/
  | kept (h : after.node? place = before.node? place)
  /-- It is a folder where nothing was. -/
  | made (hnew : before.node? place = none) (h : after.node? place = some .folder)
  /-- It holds the bytes of a file whose path leads there. -/
  | written {p : Path} {bytes : List UInt8} {modified : Nat} (hfile : (p, bytes) ∈ files)
      (hplace : after.locate p = .ok place) (hfree : before.node? place ≠ some .folder)
      (h : after.node? place = some (.file bytes modified))

/-- One disk has become another while files were written. -/
structure Writes (before after : Disk) (files : List (Path × List UInt8)) : Prop where
  here : after.here = before.here
  changes : ∀ place, ChangesAt before after files place

theorem Writes.refl (disk : Disk) (files : List (Path × List UInt8)) : Writes disk disk files :=
  ⟨rfl, fun _ => .kept rfl⟩

theorem Writes.grows (h : Writes before after files) : Grows before after := by
  refine ⟨h.here, ?_, ?_⟩
  · intro loc hfolder
    cases h.changes loc with
    | kept hkept => rwa [hkept]
    | made hnew => cases hnew.symm.trans hfolder
    | written _ _ hfree => exact absurd hfolder hfree
  · intro loc node hnode
    cases h.changes loc with
    | kept hkept => exact ⟨node, hkept.trans hnode⟩
    | made _ hmade => exact ⟨_, hmade⟩
    | written _ _ _ hwritten => exact ⟨_, hwritten⟩

theorem Writes.mono (h : Writes before after files) (hsub : files ⊆ more) : Writes before after more := by
  refine ⟨h.here, fun place => ?_⟩
  cases h.changes place with
  | kept hkept => exact .kept hkept
  | made hnew hmade => exact .made hnew hmade
  | written hfile hplace hfree hwritten => exact .written (hsub hfile) hplace hfree hwritten

/-- **One write after another** changes what the two may change. -/
theorem Writes.trans (h : Writes before after files) (h' : Writes after later more) :
    Writes before later (files ++ more) := by
  refine ⟨h'.here.trans h.here, fun place => ?_⟩
  cases h'.changes place with
  | kept hkept' =>
      cases h.changes place with
      | kept hkept => exact .kept (hkept'.trans hkept)
      | made hnew hmade => exact .made hnew (hkept'.trans hmade)
      | written hfile hplace hfree hwritten =>
          exact .written (List.mem_append_left _ hfile) (h'.grows.locate hplace) hfree
            (hkept'.trans hwritten)
  | made hnew' hmade' =>
      cases h.changes place with
      | kept hkept => exact .made (hkept.symm.trans hnew') hmade'
      | made _ hmade => cases hnew'.symm.trans hmade
      | written _ _ _ hwritten => cases hnew'.symm.trans hwritten
  | written hfile' hplace' hfree' hwritten' =>
      refine .written (List.mem_append_right _ hfile') hplace' ?_ hwritten'
      exact fun hfolder => hfree' (h.grows.folder hfolder)

/-! ### Folders -/

/-- Where a new entry at the end of a path would stand, if the path does not demand a folder. -/
theorem target_cases {name : String} {wantsFolder : Bool}
    (h : disk.target p = .ok (loc, name, wantsFolder)) :
    p.text ≠ "" ∧ disk.node? loc = some .folder ∧
      (wantsFolder = false → ∃ front, p.segments = front ++ [name] ∧
        disk.follow (disk.start p) front = .ok loc) := by
  unfold target at h
  split at h
  · cases h
  next htext =>
    simp only [pure, Except.pure, bind, Except.bind] at h
    split at h
    · cases h
    next last hlast =>
      cases hparent : disk.follow (disk.start p)
          ((p.segments.reverse.dropWhile fun s => s = "").reverse).dropLast with
      | error fault => rw [hparent] at h; cases h
      | ok parent =>
          rw [hparent] at h
          dsimp only at h
          split at h
          · cases h
          next hfolder =>
            obtain ⟨rfl, rfl, rfl⟩ : parent = loc ∧ last = name ∧
                decide (p.segments.getLast? = some "") = wantsFolder := by
              simpa only [Except.ok.injEq, Prod.mk.injEq] using h
            refine ⟨htext, not_not.1 hfolder, fun hplain => ?_⟩
            -- no empty segment at the end, so none is taken off
            have hwhole : (p.segments.reverse.dropWhile fun s => s = "").reverse = p.segments := by
              rw [decide_eq_false_iff_not, ← List.head?_reverse] at hplain
              cases hreverse : p.segments.reverse with
              | nil => rw [List.reverse_eq_nil_iff.1 hreverse]; rfl
              | cons first rest =>
                  rw [hreverse, List.head?_cons, Option.some.injEq] at hplain
                  rw [List.dropWhile_cons_of_neg (by simpa using hplain), ← hreverse,
                    List.reverse_reverse]
            rw [hwhole] at hlast hparent
            obtain ⟨front, hfront⟩ := List.getLast?_eq_some_iff.1 hlast
            rw [hfront, List.dropLast_concat] at hparent
            exact ⟨front, hfront, hparent⟩

/-- A folder is made under a new name in a folder. -/
theorem makeFolder_cases (h : disk.makeFolder p = .ok made) :
    ∃ loc name, disk.node? loc = some .folder ∧ disk.node? (loc ++ [name]) = none ∧
      made = disk.putNode (loc ++ [name]) .folder := by
  unfold makeFolder at h
  split at h
  · cases h
  · cases h
  next loc name _ htarget =>
    split at h
    · cases h
    next hfree =>
      cases h
      rw [Bool.or_eq_true, not_or] at hfree
      exact ⟨loc, name, (target_cases htarget).2.1, by simpa using hfree.2, rfl⟩

theorem writes_makeFolder (h : disk.makeFolder p = .ok made) : Writes disk made [] := by
  obtain ⟨loc, name, -, hnew, rfl⟩ := makeFolder_cases h
  refine ⟨rfl, fun place => ?_⟩
  by_cases hplace : place = loc ++ [name]
  · subst hplace
    exact .made hnew (node?_putNode_self disk loc .folder)
  · exact .kept (@node?_putNode_of_ne disk _ place .folder hplace)

/-- What each folder that is made preserves is preserved by all of them, also when one cannot be made. -/
theorem createAlong_induction {P : Disk → Prop}
    (hstep : ∀ {disk made p}, P disk → disk.makeFolder p = .ok made → P made) (h : P disk)
    (paths : List Path) : P (disk.createAlong paths).1 := by
  induction paths generalizing disk with
  | nil => exact h
  | cons p above ih =>
      rw [createAlong]
      split
      · exact h
      split
      next made hmade => exact hstep h hmade
      · have habove := ih h
        split
        next made fault hfailed =>
          rw [hfailed] at habove
          exact habove
        next made hdone =>
          rw [hdone] at habove
          split
          next more hmore => exact hstep habove hmore
          · exact habove
      · exact h

theorem ensureFolder_induction {P : Disk → Prop}
    (hstep : ∀ {disk made p}, P disk → disk.makeFolder p = .ok made → P made) (h : P disk) (p : Path) :
    P (disk.ensureFolder p).1 := by
  have hcreate : P (disk.createFolders p).1 := createAlong_induction hstep h p.ancestors
  unfold ensureFolder
  split
  · exact h
  · split
    next made hdone =>
      rw [hdone] at hcreate
      exact hcreate
    next made fault hfailed =>
      rw [hfailed] at hcreate
      exact hcreate

/-! ### Files -/

/-- A path leads to the bytes of one of some files, and that file's path leads there as well. -/
def Holds (disk : Disk) (files : List (Path × List UInt8)) (p : Path) : Prop :=
  ∃ q bytes, (q, bytes) ∈ files ∧ disk.read p = .ok bytes ∧ ∃ place, disk.locate p = .ok place ∧
    disk.locate q = .ok place

theorem Holds.mono (h : disk.Holds files p) (hsub : files ⊆ more) : disk.Holds more p := by
  obtain ⟨q, bytes, hfile, hheld⟩ := h
  exact ⟨q, bytes, hsub hfile, hheld⟩

/-- What a path holds stays, or has been replaced by what another path was to hold. -/
theorem Holds.writes (h : before.Holds files p) (hwrites : Writes before after more) :
    after.Holds (files ++ more) p := by
  obtain ⟨q, bytes, hfile, hread, place, hplace, hsame⟩ := h
  obtain ⟨place', modified, hplace', hnode⟩ := read_eq_ok.1 hread
  obtain rfl : place = place' := Except.ok.inj (hplace.symm.trans hplace')
  have hstays := hwrites.grows.locate hplace
  cases hwrites.changes place with
  | kept hkept =>
      exact ⟨q, bytes, List.mem_append_left _ hfile, read_eq_ok.2 ⟨place, modified, hstays,
        hkept.trans hnode⟩, place, hstays, hwrites.grows.locate hsame⟩
  | made hnew => cases hnew.symm.trans hnode
  | written hfile' hplace' _ hwritten =>
      exact ⟨_, _, List.mem_append_right _ hfile', read_eq_ok.2 ⟨place, _, hstays, hwritten⟩, place,
        hstays, hplace'⟩

theorem follow_name {name : String} (hname : isName name = true) (hfolder : disk.node? loc = some .folder)
    {node : Node} (hnode : disk.node? (loc ++ [name]) = some node) :
    disk.follow loc [name] = .ok (loc ++ [name]) := by
  rw [isName, Bool.and_eq_true, Bool.not_eq_true', decide_eq_true_eq] at hname
  rw [Disk.follow, if_neg (fun hne => hne hfolder), if_neg (by simp [hname.1]), if_neg hname.2, hnode]
  rfl

/-- A file is put under the last segment of its path in the folder that the others lead to. -/
theorem install_cases (h : disk.install p bytes = .ok after) :
    ∃ front name loc, p.segments = front ++ [name] ∧ isName name = true ∧
      disk.follow (disk.start p) front = .ok loc ∧ disk.node? loc = some .folder ∧
      disk.node? (loc ++ [name]) ≠ some .folder ∧
      after = disk.putNode (loc ++ [name]) (.file bytes disk.now) := by
  unfold install at h
  cases htarget : disk.target p with
  | error fault => rw [htarget] at h; cases h
  | ok target =>
      obtain ⟨loc, name, wantsFolder⟩ := target
      rw [htarget] at h
      simp only [pure, Except.pure, bind, Except.bind] at h
      split at h
      · cases h
      next hname =>
        split at h
        · cases h
        next hplain =>
          split at h
          · cases h
          next hfree =>
            rw [Bool.not_eq_true, Bool.not_eq_false'] at hname
            obtain ⟨-, hfolder, hfollow⟩ := target_cases htarget
            obtain ⟨front, hsegments, hfront⟩ := hfollow (by simpa using hplain)
            cases h
            exact ⟨front, name, loc, hsegments, hname, hfront, hfolder, hfree, rfl⟩

/-- Putting a file in its place changes nothing else, and the path leads to it from then on. -/
theorem writes_install (h : disk.install p bytes = .ok after) :
    Writes disk after [(p, bytes)] ∧ after.Holds [(p, bytes)] p := by
  have htext : p.text ≠ "" := by
    intro htext
    rw [install, target, if_pos htext] at h
    cases h
  obtain ⟨front, name, loc, hsegments, hname, hfront, hfolder, hfree, rfl⟩ := install_cases h
  have hgrows : Grows disk (disk.putNode (loc ++ [name]) (.file bytes disk.now)) :=
    grows_putNode fun hnode => absurd hnode hfree
  have hnode : (disk.putNode (loc ++ [name]) (.file bytes disk.now)).node? (loc ++ [name]) =
      some (.file bytes disk.now) := node?_putNode_self _ _ _
  have hplace : (disk.putNode (loc ++ [name]) (.file bytes disk.now)).locate p = .ok (loc ++ [name]) := by
    have hthere := hgrows.follow hfront
    rw [locate, if_neg htext, hsegments, follow_append]
    have hstart : (disk.putNode (loc ++ [name]) (.file bytes disk.now)).start p = disk.start p := rfl
    rw [hstart, hthere]
    exact follow_name hname (hgrows.folder hfolder) hnode
  constructor
  · refine ⟨rfl, fun place => ?_⟩
    by_cases hsame : place = loc ++ [name]
    · subst hsame
      exact .written (List.mem_singleton.2 rfl) hplace hfree hnode
    · exact .kept (node?_putNode_of_ne hsame)
  · exact ⟨p, bytes, List.mem_singleton.2 rfl, read_eq_ok.2 ⟨_, _, hplace, hnode⟩, _, hplace, hplace⟩

/-- What making a folder and putting the file in its place preserve is preserved by writing the file. -/
theorem writeAtomic_induction {P : Disk → Prop}
    (hfolder : ∀ {disk made q}, P disk → disk.makeFolder q = .ok made → P made)
    (hfile : ∀ {disk after}, P disk → disk.install p bytes = .ok after → P after) (h : P disk) :
    P (disk.writeAtomic p bytes).1 := by
  have hmade := ensureFolder_induction hfolder h (folderFor p)
  unfold writeAtomic
  split
  · exact h
  · dsimp only
    split
    next made problem hfailed =>
      rw [hfailed] at hmade
      exact hmade
    next made hdone =>
      rw [hdone] at hmade
      split
      · exact hmade
      split
      · exact hmade
      · split
        next after hinstall => exact hfile hmade hinstall
        · exact hmade

/-- What the system refuses stays as it is. -/
theorem refuses_makeFolder (h : disk.makeFolder p = .ok made) : made.refuses = disk.refuses := by
  obtain ⟨_, _, -, -, rfl⟩ := makeFolder_cases h
  rfl

theorem refuses_ensureFolder (disk : Disk) (p : Path) : (disk.ensureFolder p).1.refuses = disk.refuses :=
  ensureFolder_induction (P := fun made => made.refuses = disk.refuses)
    (fun h hmade => (refuses_makeFolder hmade).trans h) rfl p

theorem refuses_writeAtomic (disk : Disk) (p : Path) (bytes : List UInt8) :
    (disk.writeAtomic p bytes).1.refuses = disk.refuses := by
  refine writeAtomic_induction (P := fun after => after.refuses = disk.refuses) ?_ ?_ rfl
  · exact fun h hmade => (refuses_makeFolder hmade).trans h
  · intro mid after h hinstall
    obtain ⟨_, _, _, -, -, -, -, -, rfl⟩ := install_cases hinstall
    exact h

/-- **Writing a file changes nothing but its place**, and folders on the way to it, also when it fails. -/
theorem writes_writeAtomic (disk : Disk) (p : Path) (bytes : List UInt8) :
    Writes disk (disk.writeAtomic p bytes).1 [(p, bytes)] := by
  refine writeAtomic_induction (P := fun after => Writes disk after [(p, bytes)]) ?_ ?_ (.refl _ _)
  · intro mid made q h hmade
    exact (h.trans (writes_makeFolder hmade)).mono (by simp)
  · intro mid after h hinstall
    exact (h.trans (writes_install hinstall).1).mono (by simp)

/-- A file that has been written can be read. -/
theorem holds_writeAtomic {status : WriteStatus} (h : (disk.writeAtomic p bytes).2 = .ok status) :
    (disk.writeAtomic p bytes).1.Holds [(p, bytes)] p := by
  unfold writeAtomic at h ⊢
  split
  next hheld =>
    unfold holds at hheld
    cases hread : disk.read p with
    | error fault => rw [hread] at hheld; cases hheld
    | ok held =>
        rw [hread] at hheld
        obtain rfl : held = bytes := of_decide_eq_true hheld
        obtain ⟨place, modified, hplace, -⟩ := read_eq_ok.1 hread
        exact ⟨p, held, List.mem_singleton.2 rfl, hread, place, hplace, hplace⟩
  next hmissing =>
    rw [if_neg hmissing] at h
    dsimp only at h ⊢
    split at h
    · cases h
    split at h
    · cases h
    split at h
    · cases h
    · split at h
      next after hinstall => exact (writes_install hinstall).2
      · cases h

/-! ### Several files -/

/-- **Writing several files changes nothing but their places**, and folders on the way to them. -/
theorem writes_writeEach (disk : Disk) (files : List (Path × List UInt8)) :
    Writes disk (disk.writeEach files).1 files := by
  induction files generalizing disk with
  | nil => exact .refl _ _
  | cons file rest ih =>
      obtain ⟨p, bytes⟩ := file
      exact (writes_writeAtomic disk p bytes).trans (ih _)

/-- Every file that has been written can be read in the end, whatever became of the others. -/
theorem holds_writeEach (disk : Disk) (files : List (Path × List UInt8)) :
    List.Forall₂ (fun file result => ∀ status, result = .ok status →
      (disk.writeEach files).1.Holds files file.1) files (disk.writeEach files).2 := by
  induction files generalizing disk with
  | nil => exact .nil
  | cons file rest ih =>
      obtain ⟨p, bytes⟩ := file
      refine .cons ?_ ((ih (disk.writeAtomic p bytes).1).imp ?_)
      · intro status hstatus
        exact (holds_writeAtomic hstatus).writes (writes_writeEach _ rest)
      · intro file result h status hstatus
        exact (h status hstatus).mono (List.subset_cons_self _ _)

theorem writes_writeAll (disk : Disk) (files : List (Path × List UInt8)) :
    Writes disk (disk.writeAll files).1 files := by
  have h := writes_writeEach disk files
  unfold writeAll
  dsimp only
  split <;> exact h

/-- **When all files have been written, each of them can be read.** -/
theorem holds_writeAll {statuses : List WriteStatus} (h : (disk.writeAll files).2 = .ok statuses) :
    ∀ file ∈ files, (disk.writeAll files).1.Holds files file.1 := by
  have hall := holds_writeEach disk files
  unfold writeAll at h ⊢
  dsimp only at h ⊢
  split at h
  next hnone =>
    dsimp only
    intro file hfile
    obtain ⟨⟨i, hi⟩, rfl⟩ := List.mem_iff_get.1 hfile
    have hi' : i < (disk.writeEach files).2.length := hall.length_eq ▸ hi
    cases hresult : (disk.writeEach files).2.get ⟨i, hi'⟩ with
    | ok status => exact hall.get hi hi' status hresult
    | error problem =>
        have hproblem : problem ∈ problemsOf (disk.writeEach files).2 :=
          List.mem_filterMap.2 ⟨_, List.mem_iff_get.2 ⟨⟨i, hi'⟩, rfl⟩, by rw [hresult]⟩
        rw [hnone] at hproblem
        cases hproblem
  · cases h

end Disk

end Wiring
