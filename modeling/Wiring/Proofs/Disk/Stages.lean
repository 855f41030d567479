/-
**No reader sees half a file.**

A file is written by way of a temporary file beside it, which is filled bit by bit and then takes the file's
name, or is removed if it cannot or if the system refuses on the way.  Whenever a reader looks, everything but
the temporary file is as it was before or as it will be in the end; and in the end there is no temporary file.
So a write can be taken as one step, as it is in `Wiring.Disk.writeAtomic`.

Main definitions:

* `Wiring.Disk.rename` — a file takes another name;
* `Wiring.Disk.fillings` — what the temporary file holds, one after the other;
* `Wiring.Disk.stages` — what a reader may come upon while a file is written;
* `Wiring.Disk.AtOnce` — stages that cannot be told from a single step.

Main results:

* `Wiring.Disk.Ready.rename_of_fits`, `Wiring.Disk.Ready.rename_of_unfit` — the temporary file takes the name
  exactly where the file can be put;
* `Wiring.Disk.Rooted.stages_atOnce` — **a write goes unseen until it is done**.
-/

import Wiring.Proofs.Disk.Attempts

set_option autoImplicit false

namespace Wiring.Disk

variable {disk made before after : Disk} {place temporary up : Location} {name : String} {p : Path}
  {bytes : List UInt8}

/-! ### Writing in stages -/

/-- The disk with a temporary file that holds what has been written so far. -/
def holding (made : Disk) (temporary : Location) (front : List UInt8) : Disk :=
  made.putNode temporary (.file front made.now)

/-- The file at a place takes the name that a path ends with, in the place of a file of that name. -/
def rename (disk : Disk) (source : Location) (p : Path) : Except DiskFault Disk :=
  match disk.node? source with
  | some (.file bytes _) => (disk.install p bytes).map fun moved => moved.removeAt source
  | _ => .error .notFound

/-- What the temporary file holds, one after the other, until all is written or the system refuses. -/
def fillings (bytes : List UInt8) (refusal? : Option WriteRefusal) : List (List UInt8) :=
  match refusal?.map WriteRefusal.stage with
  | some .creating => []
  | some (.filling count) => (bytes.take count).inits
  | some .syncing | some .renaming | none => bytes.inits

/-- What a reader may come upon while a file is written by way of a temporary file at a place: the folders
are made, the temporary file is put there and filled, and takes the name of the file or is removed. -/
def stages (disk : Disk) (temporary : Location) (p : Path) (bytes : List UInt8) : List Disk :=
  if disk.holds p bytes then [disk]
  else match disk.ensureFolder (folderFor p) with
    | (made, .error _) => [disk, made]
    | (made, .ok ()) =>
      match made.checkTemporary (folderFor p) with
      | .error _ => [disk, made]
      | .ok () =>
        let filled := (fillings bytes (made.refuses p bytes)).map (made.holding temporary)
        let reached := filled.getLast?.getD made
        let last := match made.refuses p bytes with
          | some _ => reached.removeAt temporary
          | none =>
            match reached.rename temporary p with
            | .ok moved => moved
            | .error _ => reached.removeAt temporary
        disk :: made :: filled ++ [last]

/-- Stages at which everything is as it was before or as it is after, but for what stands at the place of the
temporary file, and which end in one way. -/
structure AtOnce (before after done : Disk) (temporary : Location) (stages : List Disk) : Prop where
  between : ∀ stage ∈ stages, ∀ loc ≠ temporary,
    stage.node? loc = before.node? loc ∨ stage.node? loc = after.node? loc
  ends : ∃ last ∈ stages.getLast?, ∀ loc, last.node? loc = done.node? loc

/-- What goes unseen within a longer time goes unseen. -/
theorem AtOnce.widen {first last done : Disk} {stages : List Disk}
    (h : AtOnce before after done temporary stages)
    (hbefore : ∀ loc, before.node? loc = first.node? loc ∨ before.node? loc = last.node? loc)
    (hafter : ∀ loc, after.node? loc = first.node? loc ∨ after.node? loc = last.node? loc) :
    AtOnce first last done temporary stages where
  between := by
    intro stage hstage loc hloc
    rcases h.between stage hstage loc hloc with hsame | hsame <;> rw [hsame]
    · exact hbefore loc
    · exact hafter loc
  ends := h.ends

theorem atOnce_self (disk : Disk) (temporary : Location) : AtOnce disk disk disk temporary [disk] where
  between := by
    intro stage hstage loc _
    rw [List.mem_singleton.1 hstage]
    exact .inl rfl
  ends := ⟨disk, rfl, fun _ => rfl⟩

theorem atOnce_pair (before after : Disk) (temporary : Location) :
    AtOnce before after after temporary [before, after] where
  between := by
    intro stage hstage loc _
    rcases List.mem_pair.1 hstage with rfl | rfl
    · exact .inl rfl
    · exact .inr rfl
  ends := ⟨after, rfl, fun _ => rfl⟩

/-! ### The temporary file -/

/-- Once the temporary file is gone, everything is as if it had never been there. -/
theorem Rooted.node?_removeAt (h : made.Rooted) (hup : made.node? up = some .folder)
    (hfresh : made.node? (up ++ [name]) = none)
    (hsame : ∀ loc, loc ≠ up ++ [name] → after.node? loc = made.node? loc) (loc : Location) :
    (after.removeAt (up ++ [name])).node? loc = made.node? loc := by
  rw [Disk.node?_removeAt]
  split
  next hbelow =>
    obtain ⟨more, rfl⟩ := List.isPrefixOf_iff_prefix.1 hbelow.2
    exact ((h.clear_of_missing (h.clear hup) hfresh more).2).symm
  next habove =>
    refine hsame loc ?_
    rintro rfl
    exact habove ⟨by simp, List.isPrefixOf_iff_prefix.2 List.prefix_rfl⟩

/-- A folder that is there is still there with a temporary file in it. -/
theorem Ready.holding (h : Ready made p place up) (hfresh : made.node? (up ++ [name]) = none)
    (front : List UInt8) : Ready (made.holding (up ++ [name]) front) p place up := by
  have hfree : made.node? (up ++ [name]) = some .folder → Node.file front made.now = .folder := by
    intro hfolder
    cases hfresh.symm.trans hfolder
  have hgrows : Grows made (made.holding (up ++ [name]) front) := grows_putNode hfree
  exact ⟨h.rooted.putNode h.there hfree, hgrows.goal? h.goal, hgrows.goal? h.folder, hgrows.folder h.there⟩

/-- What fits still fits once the temporary file is there, if this stands elsewhere. -/
theorem Ready.fits_holding_iff (h : Ready made p place up) (hfresh : made.node? (up ++ [name]) = none)
    (hother : place ≠ up ++ [name]) (front : List UInt8) :
    (made.holding (up ++ [name]) front).Fits p place ↔ made.Fits p place := by
  rw [(h.holding hfresh front).fits_iff, h.fits_iff, Disk.holding, node?_putNode_of_ne hother]

theorem rename_holding (made : Disk) (up : Location) (name : String) (p : Path) (bytes : List UInt8) :
    (made.holding (up ++ [name]) bytes).rename (up ++ [name]) p =
      ((made.holding (up ++ [name]) bytes).install p bytes).map fun moved => moved.removeAt (up ++ [name]) := by
  have hnode : (made.holding (up ++ [name]) bytes).node? (up ++ [name]) = some (.file bytes made.now) :=
    node?_putNode_self _ _ _
  rw [rename, hnode]

/-- The temporary file takes the name of a file that fits. -/
theorem Ready.rename_of_fits (h : Ready made p place up) (hfresh : made.node? (up ++ [name]) = none)
    (hother : place ≠ up ++ [name]) (hfits : made.Fits p place) (bytes : List UInt8) :
    ∃ moved, (made.holding (up ++ [name]) bytes).rename (up ++ [name]) p = .ok moved ∧
      ∀ loc, moved.node? loc = (made.putNode place (.file bytes made.now)).node? loc := by
  have hready := h.holding hfresh bytes
  have hfull := (h.fits_holding_iff hfresh hother bytes).2 hfits
  obtain ⟨-, last, rfl⟩ := hfits.exists_name h.goal h.folder
  have hfree : made.node? (up ++ [last]) = some .folder → Node.file bytes made.now = .folder :=
    fun hfolder => absurd hfolder hfits.free
  have hgrows : Grows made (made.putNode (up ++ [last]) (.file bytes made.now)) := grows_putNode hfree
  rw [rename_holding, hready.install_of_fits hfull]
  refine ⟨_, rfl, (h.rooted.putNode h.there hfree).node?_removeAt (hgrows.folder h.there) ?_ ?_⟩
  · rwa [node?_putNode_of_ne hother.symm]
  · intro loc hloc
    -- the two files are put one after the other, in different places
    by_cases hplace : loc = up ++ [last]
    · rw [hplace, node?_putNode_self, node?_putNode_self]
      rfl
    · rw [node?_putNode_of_ne hplace, node?_putNode_of_ne hplace, Disk.holding, node?_putNode_of_ne hloc]

/-- Where the file does not fit, the temporary file cannot take its name. -/
theorem Ready.rename_of_unfit (h : Ready made p place up) (hfresh : made.node? (up ++ [name]) = none)
    (hother : place ≠ up ++ [name]) (hunfit : ¬ made.Fits p place) (bytes : List UInt8) :
    ∃ fault, (made.holding (up ++ [name]) bytes).rename (up ++ [name]) p = .error fault := by
  have hready := h.holding hfresh bytes
  have hfull := mt (h.fits_holding_iff hfresh hother bytes).1 hunfit
  obtain ⟨fault, hinstall⟩ := hready.install_of_unfit hfull bytes
  rw [rename_holding, hinstall]
  exact ⟨fault, rfl⟩

/-! ### What a reader may come upon -/

theorem reached_of_granted (made : Disk) (temporary : Location) (bytes : List UInt8) :
    (((fillings bytes none).map (made.holding temporary)).getLast?.getD made) =
      made.holding temporary bytes := by
  have hlast : bytes.inits.getLast? = some bytes := by
    rw [List.getLast?_eq_getElem?, List.length_inits, Nat.add_sub_cancel,
      List.getElem?_eq_getElem (by simp), List.getElem_inits, List.take_length]
  rw [fillings, Option.map_none, List.getLast?_map, hlast]
  rfl

/-- Whatever has been reached of the temporary file, nothing else has changed. -/
theorem node?_reached {fronts : List (List UInt8)} {loc : Location} (hloc : loc ≠ temporary) :
    ((fronts.map (made.holding temporary)).getLast?.getD made).node? loc = made.node? loc := by
  rw [List.getLast?_map]
  cases fronts.getLast? with
  | none => rfl
  | some front => exact node?_putNode_of_ne hloc

/-- While the temporary file is filled nothing else changes. -/
theorem atOnce_of_last {last : Disk} {fronts : List (List UInt8)}
    (hmade : ∀ loc, made.node? loc = before.node? loc ∨ made.node? loc = after.node? loc)
    (hlast : ∀ loc, last.node? loc = after.node? loc) :
    AtOnce before after after temporary
      (before :: made :: fronts.map (made.holding temporary) ++ [last]) where
  between := by
    intro stage hstage loc hloc
    rcases List.mem_append.1 hstage with hstage | hstage
    · rcases List.mem_cons.1 hstage with rfl | hstage
      · exact .inl rfl
      rcases List.mem_cons.1 hstage with rfl | hstage
      · exact hmade loc
      · obtain ⟨front, -, rfl⟩ := List.mem_map.1 hstage
        rw [holding, node?_putNode_of_ne hloc]
        exact hmade loc
    · rw [List.mem_singleton.1 hstage]
      exact .inr (hlast loc)
  ends := ⟨last, List.getLast?_concat, hlast⟩

/-- **A write goes unseen until it is done**: at every stage, every place but that of the temporary file is as
it was before or as it is in the end, and at the last stage every place is as `writeAtomic` leaves it. -/
theorem Rooted.stages_atOnce (h : disk.Rooted) (hgoal : disk.goal? p = some place)
    (hgoal' : disk.goal? (folderFor p) = some up) (hfresh : disk.node? (up ++ [name]) = none)
    (hother : place ≠ up ++ [name]) (bytes : List UInt8) :
    AtOnce disk (disk.writeAtomic p bytes).1 (disk.writeAtomic p bytes).1 (up ++ [name])
      (disk.stages (up ++ [name]) p bytes) := by
  rw [stages, Disk.writeAtomic]
  split
  · exact atOnce_self disk _
  dsimp only
  obtain ⟨other, hother', htext, htrim, -⟩ := h.exists_goal_folderFor hgoal
  cases hgoal'.symm.trans hother'
  by_cases hclear : disk.Clear up
  · obtain ⟨made, hmade, hcheck, hpaved⟩ := h.prepare_clear hgoal' htext htrim hclear
    have hready := hpaved.ready hgoal hgoal'
    have hfresh' : made.node? (up ++ [name]) = none := (hpaved.child name).trans hfresh
    rw [hmade]
    dsimp only
    rw [hcheck]
    dsimp only
    cases made.refuses p bytes with
    | some refusal =>
        refine atOnce_of_last (fun loc => .inr rfl) ?_
        exact hready.rooted.node?_removeAt hready.there hfresh' fun loc => node?_reached
    | none =>
        rw [reached_of_granted]
        by_cases hfits : made.Fits p place
        · obtain ⟨moved, hmoved, hsame⟩ := hready.rename_of_fits hfresh' hother hfits bytes
          rw [hmoved, hready.install_of_fits hfits]
          refine atOnce_of_last (fun loc => ?_) hsame
          by_cases hloc : loc = place
          · obtain ⟨-, last, rfl⟩ := hfits.exists_name hready.goal hready.folder
            rw [hloc]
            exact .inl (hpaved.child last)
          · exact .inr (node?_putNode_of_ne hloc).symm
        · obtain ⟨fault, hmoved⟩ := hready.rename_of_unfit hfresh' hother hfits bytes
          obtain ⟨fault', hinstall⟩ := hready.install_of_unfit hfits bytes
          rw [hmoved, hinstall]
          refine atOnce_of_last (fun loc => .inr rfl) ?_
          exact hready.rooted.node?_removeAt hready.there hfresh' fun loc hloc => node?_putNode_of_ne hloc
  · rcases h.prepare_blocked hgoal' htext htrim hclear with ⟨problem, hensure⟩ | ⟨hensure, problem, hcheck⟩
    · rw [hensure]
      exact atOnce_pair disk disk _
    · rw [hensure]
      dsimp only
      rw [hcheck]
      exact atOnce_pair disk disk _

end Wiring.Disk
