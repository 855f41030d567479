/-
**Two runs in step.**

Two runs with the same input, one with kept sets from earlier runs and one without, go on in step: what
the one does the other does too, in whatever order the tasks go on, and when both are over they make the
same report.  The invariant that carries this is that the two differ in their kept sets only and that
both keep nothing but sets of packages that have been served.

Main definitions:

* `Wiring.Crew.Alike`, `Wiring.Schedule.Alike` — two runs that differ in their kept sets only.

Main results:

* `Wiring.Crew.Alike.move`, `Wiring.Schedule.Alike.step` — such runs stay alike;
* `Wiring.RunInput.Reaches.alike`, `Wiring.RunInput.Follows.alike` — whatever the one can do, the other
  can do;
* `Wiring.Schedule.Alike.ends` — where the schedule of the one ends, that of the other ends alike.
-/

import Wiring.Proofs.Run.Crews
import Wiring.Proofs.Run.Orders
import Wiring.Proofs.Run.Provenance

set_option autoImplicit false

namespace Wiring

variable {served : Package → Disk → Prop}

/-! ### The start -/

section Start

variable {input : RunInput} {a b : World} {roots : LoadOutcome}

/-- Everything that a call answers with has been served. -/
theorem Loader.Draws.call {loader : Loader} {given : Package → Prop} (hdraws : loader.Draws given)
    (world : World) (request : LoadRequest) : ∀ p ∈ (world.call loader request).2.packages, given p :=
  hdraws request world.cancelled

/-- Two runs load their imports alike. -/
theorem World.Alike.loadImports (h : a.Alike served input.disk b)
    (hdraws : input.loader.Draws fun p => served p input.disk) (packages : List Package) :
    (Wiring.loadImports input a packages).1.Alike served input.disk
        (Wiring.loadImports input b packages).1 ∧
      (Wiring.loadImports input a packages).2 = (Wiring.loadImports input b packages).2 ∧
      ∀ p ∈ (Wiring.loadImports input a packages).2.packages, served p input.disk := by
  unfold Wiring.loadImports
  cases missingImports packages with
  | nil => exact ⟨h, rfl, nofun⟩
  | cons first rest =>
      let request : LoadRequest :=
        { input.rootRequest with patterns := first :: rest, mode := .withDeps }
      obtain ⟨halike, hsame⟩ := h.call input.loader request
      refine ⟨halike, ?_, ?_⟩
      · simp only [hsame, request]
      · intro p hp
        exact hdraws.call a request p (List.mem_filter.1 hp).1

/-- Two runs fill their caches of packages alike. -/
theorem World.Alike.fillPackages (h : a.Alike served input.disk b)
    (hdraws : input.loader.Draws fun p => served p input.disk)
    (hroots : ∀ p ∈ roots.packages, served p input.disk) :
    (Wiring.fillPackages input a roots).Alike served input.disk
      (Wiring.fillPackages input b roots) := by
  unfold Wiring.fillPackages
  split
  · exact h.withPackages (PackageCache.drawn_empty.seed hroots)
  · obtain ⟨halike, hsame, hdeps⟩ := h.loadImports hdraws roots.packages
    have hfilled : PackageCache.Drawn (fun p => served p input.disk)
        ((PackageCache.seed {} roots).seed (Wiring.loadImports input a roots.packages).2) :=
      (PackageCache.drawn_empty.seed hroots).seed hdeps
    dsimp only
    rw [← hsame]
    exact halike.withPackages hfilled

/-- A task that has not been started has not found anything. -/
theorem Task.drawn_discover {options : Options} {packages : List Package} {given : Package → Prop} :
    ∀ t ∈ discover options packages, t.Drawn given := by
  intro t ht errand lookup hstage
  obtain ⟨-, -, -, -, hopening⟩ := of_mem_discover ht
  cases hopening.symm.trans hstage

end Start

/-! ### Every order -/

/-- Two states of a run that differ in their kept sets only. -/
structure Crew.Alike (served : Package → Disk → Prop) (disk : Disk) (a b : Crew) : Prop where
  same : b = { a with world := b.world }
  world : a.world.Alike served disk b.world
  drawn : ∀ t ∈ a.remaining, t.Drawn fun p => served p disk

namespace Crew.Alike

variable {setting : Setting} {workers : Nat} {turn : Turn} {turns : List Turn} {disk : Disk}
  {a b a' : Crew}

/-- Two states stay alike when the tasks of both change in the same way. -/
theorem intro {w : World} (hworld : a.world.Alike served disk w)
    (hdrawn : ∀ t ∈ a.remaining, t.Drawn fun p => served p disk) :
    a.Alike served disk { a with world := w } :=
  ⟨rfl, hworld, hdrawn⟩

/-- **What the one does the other does too**, and they stay alike. -/
theorem move (h : a.Alike served setting.disk b) (htell : Telling served)
    (hdraws : setting.site.loader.Draws fun p => served p setting.disk)
    (hmove : Move setting workers turn a a') :
    ∃ b', Move setting workers turn b b' ∧ a'.Alike served setting.disk b' := by
  obtain ⟨hsame, hworld, hdrawn⟩ := h
  rw [hsame]
  generalize b.world = w at hworld
  cases hmove with
  | @start _ t rest hgoing ht hroom =>
      refine ⟨_, .start hgoing ht hroom, .intro hworld ?_⟩
      intro u hu
      refine hdrawn u ?_
      rw [remaining, ht, Multiset.cons_add, ← Multiset.add_cons]
      exact hu
  | @advance _ t rest delay hgoing ht hopen =>
      have hdelayed : (setting.delayed delay).site.loader.Draws fun p =>
          served p (setting.delayed delay).disk := hdraws
      obtain ⟨halike, hstep, hnew⟩ := Task.step_alike htell hdelayed hworld (hdrawn t (mem_remaining ht))
      -- both take the same step, and only what they keep may differ
      refine ⟨_, .advance hgoing ht hopen, ?_, halike, ?_⟩
      · rw [hstep]
      · intro u hu
        rw [remaining_of_underWay rfl, Multiset.mem_cons] at hu
        rcases hu with rfl | hu
        · exact hnew
        · refine hdrawn u ?_
          rw [remaining_of_underWay ht]
          exact Multiset.mem_cons_of_mem hu
  | @deliver _ t rest result hgoing ht hr =>
      refine ⟨_, .deliver hgoing ht hr, .intro hworld ?_⟩
      intro u hu
      refine hdrawn u ?_
      rw [remaining_of_underWay ht]
      exact Multiset.mem_cons_of_mem hu
  | fire hgoing =>
      have hfired := hworld.fire true
      rw [World.fire, World.fire, Bool.or_true, Bool.or_true] at hfired
      exact ⟨_, .fire hgoing, rfl, hfired, hdrawn⟩
  | stop hgoing hc =>
      have hc' : w.cancelled = true := hworld.cancelled_eq.symm.trans hc
      exact ⟨_, .stop hgoing hc', .intro hworld hdrawn⟩

theorem moves (h : a.Alike served setting.disk b) (htell : Telling served)
    (hdraws : setting.site.loader.Draws fun p => served p setting.disk)
    (hmoves : Moves setting workers turns a a') :
    ∃ b', Moves setting workers turns b b' ∧ a'.Alike served setting.disk b' := by
  induction hmoves generalizing b with
  | nil => exact ⟨b, .nil, h⟩
  | cons hmove _ ih =>
      obtain ⟨middle, hfirst, halike⟩ := h.move htell hdraws hmove
      obtain ⟨b', hrest, halike'⟩ := ih halike
      exact ⟨b', .cons hfirst hrest, halike'⟩

theorem outset {input : RunInput} {a b : World} {roots : LoadOutcome}
    (h : a.Alike served input.disk b) (hdraws : input.loader.Draws fun p => served p input.disk)
    (hroots : ∀ p ∈ roots.packages, served p input.disk) :
    (Crew.outset input a roots).Alike served input.disk (Crew.outset input b roots) := by
  refine ⟨rfl, h.fillPackages hdraws hroots, ?_⟩
  intro t ht
  rw [remaining, Crew.outset, add_zero, Multiset.mem_coe] at ht
  exact Task.drawn_discover t ht

/-- A report does not tell which sets have been kept. -/
theorem reports {input : RunInput} {roots : LoadOutcome} {r : Report}
    (h : a.Alike served disk b) (hr : a.Reports input roots r) : b.Reports input roots r := by
  obtain ⟨finished, hall, rfl⟩ := hr
  rw [h.same]
  refine ⟨finished, hall, ?_⟩
  simp only [reportOn, h.world.packages_eq]

theorem isOver (h : a.Alike served disk b) (hover : a.Over) : b.Over := by
  rw [h.same]
  rcases hover with hstopped | ⟨hupcoming, hunderWay, hlive⟩
  · exact Or.inl hstopped
  · exact Or.inr ⟨hupcoming, hunderWay, h.world.cancelled_eq.symm.trans hlive⟩

end Crew.Alike

namespace RunInput

variable {input : RunInput} {course : Course} {a b a' : World} {roots : LoadOutcome} {s : Crew}
  {r : Report}

/-- Whatever the one can reach the other can reach alike. -/
theorem Reaches.alike (hreach : input.Reaches course a roots s) (htell : Telling served)
    (hdraws : input.loader.Draws fun p => served p input.disk) (h : a.Alike served input.disk b) :
    ∃ s', input.Reaches course b roots s' ∧ s.Alike served input.disk s' := by
  cases hreach with
  | @intro opened _ _ hlive hroots hmoves =>
      obtain ⟨hopened, hsame⟩ := (h.fire course.beforeRoots).call input.loader input.rootRequest
      have hgiven := hdraws.call (a.fire course.beforeRoots) input.rootRequest
      rw [hroots] at hopened hsame hgiven
      have halike := Crew.Alike.outset (hopened.fire course.beforeImports) hdraws hgiven
      have hsetting : input.setting.site.loader.Draws fun p => served p input.setting.disk := hdraws
      obtain ⟨s', hmoves', hs'⟩ := halike.moves htell hsetting hmoves
      refine ⟨s', .intro (h.cancelled_eq.symm.trans hlive) ?_ hmoves', hs'⟩
      exact Prod.ext rfl hsame.symm

/-- Whatever the one can report the other can report. -/
theorem Follows.alike (hfollows : input.Follows course a a' r) (htell : Telling served)
    (hdraws : input.loader.Draws fun p => served p input.disk) (h : a.Alike served input.disk b) :
    ∃ b', input.Follows course b b' r := by
  cases hfollows with
  | refused hcancelled => exact ⟨b, .refused (h.cancelled_eq.symm.trans hcancelled)⟩
  | done hreach hover hr =>
      obtain ⟨s', hreach', hs'⟩ := hreach.alike htell hdraws h
      exact ⟨s'.world, .done hreach' (hs'.isOver hover) (hs'.reports hr)⟩

end RunInput

/-! ### The order of the schedule -/

/-- Two states of a schedule that differ in their kept sets only. -/
structure Schedule.Alike (served : Package → Disk → Prop) (disk : Disk) (a b : Schedule) : Prop where
  same : b = { a with world := b.world }
  world : a.world.Alike served disk b.world
  drawn : ∀ t ∈ a.crew.remaining, t.Drawn fun p => served p disk

namespace Schedule

variable {s : Schedule} {others : List Task} {t t' u : Task} {pace : Pace}

theorem remaining_check (s : Schedule) : s.check.crew.remaining = s.crew.remaining := by
  unfold check
  split
  · rfl
  · obtain ⟨more, hmore, -, -, hcrew⟩ := s.crew_fill
    rw [show s.fill.begin.crew = s.fill.crew from rfl, hcrew, Crew.remaining, Crew.remaining, hmore]
    dsimp only
    ac_rfl

/-- When a task is put back there are no tasks but it and those that there were. -/
theorem mem_remaining_place (hready : s.ready = t :: others)
    (hu : u ∈ (s.place others t' pace).crew.remaining) : u = t' ∨ u ∈ s.crew.remaining := by
  have hothers : ∀ u ∈ ({ s with ready := others } : Schedule).crew.remaining,
      u ∈ s.crew.remaining := by
    intro u hu
    rw [Crew.remaining_of_underWay (underWay_of_ready hready)]
    exact Multiset.mem_cons_of_mem hu
  by_cases hpace : pace = .closed
  · subst hpace
    refine Or.inr (hothers u ?_)
    unfold place at hu
    dsimp only at hu
    split at hu
    · rwa [crew_takeResult] at hu
    · exact hu
  · rw [crew_place others hpace, Crew.remaining, Multiset.add_cons, Multiset.mem_cons] at hu
    exact hu.imp_right (hothers u)

theorem place_world (s : Schedule) (others : List Task) (t : Task) (pace : Pace) (world : World) :
    ({ s with world } : Schedule).place others t pace =
      { s.place others t pace with world } := by
  cases pace with
  | going => rfl
  | resting => rfl
  | asleep => rfl
  | closed =>
      unfold place
      cases t.result? <;> rfl

theorem world_place (s : Schedule) (others : List Task) (t : Task) (pace : Pace) :
    (s.place others t pace).world = s.world := by
  cases pace with
  | going => rfl
  | resting => rfl
  | asleep => rfl
  | closed =>
      unfold place
      cases t.result? <;> rfl

/-- Which tasks wait for a marker depends on the packages alone. -/
theorem wake_world (s : Schedule) {world : World} (h : world.packages = s.world.packages) :
    ({ s with world } : Schedule).wake = { s.wake with world } := by
  have hblocked : ∀ t : Task, t.isBlocked world = t.isBlocked s.world := by
    intro t
    unfold Task.isBlocked
    rw [h]
  simp only [wake, hblocked]

namespace Alike

variable {setting : Setting} {disk : Disk} {a b last : Schedule}

theorem check (h : a.Alike served disk b) : a.check.Alike served disk b.check := by
  obtain ⟨hsame, hworld, hdrawn⟩ := h
  rw [← a.remaining_check] at hdrawn
  rw [hsame]
  generalize b.world = w at hworld
  unfold Schedule.check at hdrawn ⊢
  dsimp only
  rw [← hworld.cancelled_eq]
  split at hdrawn
  next hcancelled =>
    rw [if_pos hcancelled, if_pos hcancelled]
    exact ⟨rfl, hworld, hdrawn⟩
  next hlive =>
    rw [if_neg hlive, if_neg hlive]
    exact ⟨rfl, hworld, hdrawn⟩

theorem turn (h : a.Alike served disk b) : a.turn.Alike served disk b.turn := by
  obtain ⟨hsame, hworld, hdrawn⟩ := h
  have hcrew := a.crew_turn
  rw [hsame]
  generalize b.world = w at hworld
  rw [← hcrew] at hdrawn
  unfold Schedule.turn at hdrawn ⊢
  dsimp only
  split at hdrawn
  next hnobody =>
    rw [if_pos hnobody, if_pos hnobody]
    exact ⟨rfl, hworld, hdrawn⟩
  next hsomebody =>
    rw [if_neg hsomebody, if_neg hsomebody]
    exact ⟨rfl, hworld, hdrawn⟩

theorem wake (h : a.Alike served disk b) : a.wake.Alike served disk b.wake := by
  obtain ⟨hsame, hworld, hdrawn⟩ := h
  rw [hsame]
  generalize b.world = w at hworld
  rw [wake_world a hworld.packages_eq.symm]
  refine ⟨rfl, hworld, ?_⟩
  rwa [crew_wake]

/-- The same task is put back in both. -/
theorem place (h : a.Alike served disk b) (hready : a.ready = t :: others)
    (ht' : t'.Drawn fun p => served p disk) (pace : Pace) :
    (a.place others t' pace).Alike served disk (b.place others t' pace) := by
  obtain ⟨hsame, hworld, hdrawn⟩ := h
  rw [hsame]
  generalize b.world = w at hworld
  rw [a.place_world others t' pace w]
  refine ⟨rfl, ?_, ?_⟩
  · rw [world_place]
    exact hworld
  · intro u hu
    rcases mem_remaining_place hready hu with rfl | hu
    · exact ht'
    · exact hdrawn u hu

/-- The worlds of both change. -/
theorem withWorld (h : a.Alike served disk b) {w w' : World} (hworld : w.Alike served disk w') :
    ({ a with world := w } : Schedule).Alike served disk { b with world := w' } := by
  rw [h.same]
  exact ⟨rfl, hworld, h.drawn⟩

/-- **The schedules of both go on in step.** -/
theorem step (h : a.Alike served setting.disk b) (htell : Telling served)
    (hdraws : setting.site.loader.Draws fun p => served p setting.disk) :
    (a.step setting).Alike served setting.disk (b.step setting) := by
  obtain ⟨w, rfl⟩ : ∃ w, b = { a with world := w } := ⟨b.world, h.same⟩
  rcases a.step_cases with
    hended | ⟨hended, hchecking | ⟨hchecking, hover | ⟨t, others, hready, hleft⟩⟩⟩
  · rw [step_of_ended hended, step_of_ended (s := { a with world := w }) hended]
    exact h
  · rw [step_of_checking hended hchecking,
      step_of_checking (s := { a with world := w }) hended hchecking]
    exact h.check
  · rw [step_of_left hended hchecking hover,
      step_of_left (s := { a with world := w }) hended hchecking hover]
    exact h.turn
  · have hmem : t ∈ a.crew.remaining := Crew.mem_remaining (underWay_of_ready hready)
    obtain ⟨halike, hstep, hnew⟩ := Task.step_alike htell hdraws h.world (h.drawn t hmem)
    rw [step_of_ready hended hchecking hready hleft,
      step_of_ready (s := { a with world := w }) hended hchecking hready hleft, ← hstep]
    exact ((h.withWorld halike).place hready hnew _).wake

/-- Where the schedule of the one ends, that of the other ends alike. -/
theorem ends (h : a.Alike served setting.disk b) (htell : Telling served)
    (hdraws : setting.site.loader.Draws fun p => served p setting.disk)
    (hends : a.Ends setting last) :
    ∃ last', b.Ends setting last' ∧ last.Alike served setting.disk last' := by
  induction hends generalizing b with
  | ended hended =>
      refine ⟨b, .ended ?_, h⟩
      rw [h.same]
      exact hended
  | step hended _ ih =>
      obtain ⟨last', hlast', halike⟩ := ih (h.step htell hdraws)
      refine ⟨last', .step ?_ hlast', halike⟩
      rw [h.same]
      exact hended

end Alike

end Schedule

end Wiring
