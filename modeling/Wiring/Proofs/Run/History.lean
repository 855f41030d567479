/-
**The cache of sets does not show in the reports.**

One cache of sets may serve many runs, one after the other, while the packages change between them in
any way.  A run may follow any strategy and any order, it may be cancelled, and it may be given up at any
moment; whatever it leaves in the cache was extracted from a package that it was served.  So as long as
fingerprints tell packages with different declarations apart, a run with such a cache makes the same
report as one that starts without any sets.

Main definitions:

* `Wiring.SetCache.History` — the caches that runs may leave behind, one after the other;
* `Wiring.RunInput.Returns` — a run that comes to an end in the order of its schedule.

Main results:

* `Wiring.SetCache.History.sound` — such a cache is sound;
* `Wiring.SetCache.History.transparent` — **a run makes the same report with it and without it, and no
  set is taken from an older version of a package**.
-/

import Wiring.Proofs.Run.Agreement
import Wiring.Proofs.Run.Lockstep

set_option autoImplicit false

namespace Wiring

variable {served : Package → Disk → Prop} {input : RunInput} {world a b : World}

/-! ### Runs that return -/

/-- A run comes to an end in the order of its schedule.  One that is cancelled already does so at
once. -/
def RunInput.Returns (input : RunInput) (world : World) : Prop :=
  world.cancelled = false → ∃ last, (input.launch world).Ends input.setting last

theorem generate_of_cancelled (h : world.cancelled = true) :
    generate input world = (world, Report.cut {}) :=
  if_pos h

namespace World.Alike

/-- The schedules of two runs start alike. -/
theorem launch (h : a.Alike served input.disk b)
    (hdraws : input.loader.Draws fun p => served p input.disk) :
    (input.launch a).Alike served input.disk (input.launch b) := by
  obtain ⟨hopened, hsame⟩ := h.call input.loader input.rootRequest
  have hgiven := hdraws.call a input.rootRequest
  unfold RunInput.launch
  rw [← hsame]
  refine ⟨rfl, hopened.fillPackages hdraws hgiven, ?_⟩
  exact (Crew.Alike.outset hopened hdraws hgiven).drawn

/-- Of two runs that differ in their kept sets only, both return or neither. -/
theorem returns (h : a.Alike served input.disk b) (htell : Telling served)
    (hdraws : input.loader.Draws fun p => served p input.disk) (hreturns : input.Returns a) :
    input.Returns b := by
  intro hlive
  obtain ⟨last, hends⟩ := hreturns (h.cancelled_eq.trans hlive)
  obtain ⟨last', hends', -⟩ := (h.launch hdraws).ends htell hdraws hends
  exact ⟨last', hends'⟩

/-- **They make the same report.** -/
theorem generate_eq (h : a.Alike served input.disk b) (htell : Telling served)
    (hdraws : input.loader.Draws fun p => served p input.disk) (hreturns : input.Returns a) :
    (generate input a).2 = (generate input b).2 := by
  cases hcancelled : a.cancelled with
  | true =>
      rw [generate_of_cancelled hcancelled,
        generate_of_cancelled (h.cancelled_eq.symm.trans hcancelled)]
  | false =>
      obtain ⟨last, hends⟩ := hreturns hcancelled
      obtain ⟨last', hends', hlast⟩ := (h.launch hdraws).ends htell hdraws hends
      obtain ⟨-, hsame⟩ := h.call input.loader input.rootRequest
      rw [hends.generate_eq hcancelled, hends'.generate_eq (h.cancelled_eq.symm.trans hcancelled),
        ← hsame, hlast.same]
      simp only [reportOn, hlast.world.packages_eq]

end World.Alike

/-! ### Histories -/

namespace SetCache

/-- The caches that runs may leave behind, one after the other, when all packages are served. -/
inductive History (served : Package → Disk → Prop) : SetCache → Prop
  /-- There has been no run yet. -/
  | fresh : History served {}
  /-- There has been another run, which went on in any order and may have been given up. -/
  | ran {sets : SetCache} {input : RunInput} {course : Course} {roots : LoadOutcome} {s : Crew}
      (h : History served sets) (hdraws : input.loader.Draws fun p => served p input.disk)
      (hreach : input.Reaches course { sets } roots s) : History served s.world.sets

variable {sets sets' : SetCache}

/-- Two runs start alike, whatever sound caches they are given. -/
theorem Sound.alike (h : sets.Sound served) (h' : sets'.Sound served) (disk : Disk)
    (cancelled : Bool) : ({ sets, cancelled } : World).Alike served disk { sets := sets', cancelled } :=
  ⟨rfl, PackageCache.drawn_empty, h, h'⟩

namespace History

/-- **Whatever runs there have been, the cache is sound.** -/
theorem sound (h : History served sets) (htell : Telling served) : sets.Sound served := by
  induction h with
  | fresh => exact sound_empty
  | ran _ hdraws hreach ih =>
      -- a run is alike to itself, and that it stays so says that its cache stays sound
      obtain ⟨s', -, halike⟩ := hreach.alike htell hdraws (ih.alike ih _ false)
      exact halike.world.left

/-- A run that comes to an end in the order of its schedule leaves such a cache behind. -/
theorem of_generate (h : History served sets)
    (hdraws : input.loader.Draws fun p => served p input.disk) {cancelled : Bool}
    (hreturns : input.Returns { sets, cancelled }) :
    History served (generate input { sets, cancelled }).1.sets := by
  cases cancelled with
  | true => exact h
  | false =>
      obtain ⟨last, hends⟩ := hreturns rfl
      obtain ⟨course, stopped, hreach⟩ := RunInput.reaches_of_ends rfl hends
      rw [hends.generate_eq rfl]
      exact .ran h hdraws hreach

/-- **A run makes the same report with the cache of earlier runs as without it.**  In whatever order its
tasks go on it can report what it could report without the cache, in the order of its schedule it returns
if it would return without the cache, and then the report is the same.  And whenever a task takes a set
out of a package, it gets what an extraction from this very package gives. -/
theorem transparent (htell : Telling served) (h : History served sets)
    (hdraws : input.loader.Draws fun p => served p input.disk) (cancelled : Bool) :
    (∀ course r, (∃ world, input.Follows course { sets, cancelled } world r) ↔
        ∃ world, input.Follows course { cancelled } world r) ∧
      (input.Returns { sets, cancelled } ↔ input.Returns { cancelled }) ∧
      (input.Returns { cancelled } →
        (generate input { sets, cancelled }).2 = (generate input { cancelled }).2) ∧
      ∀ course roots s, input.Reaches course { sets, cancelled } roots s →
        ∀ t ∈ s.underWay, t.TakesAnew input.setting s.world := by
  -- the two runs start with nothing but their kept sets different
  have halike : World.Alike served input.disk { sets, cancelled } { cancelled } :=
    (h.sound htell).alike sound_empty input.disk cancelled
  refine ⟨?_, ?_, ?_, ?_⟩
  · intro course r
    constructor
    · rintro ⟨world, hfollows⟩
      exact hfollows.alike htell hdraws halike
    · rintro ⟨world, hfollows⟩
      exact hfollows.alike htell hdraws halike.symm
  · exact ⟨halike.returns htell hdraws, halike.symm.returns htell hdraws⟩
  · intro hreturns
    exact (halike.symm.generate_eq htell hdraws hreturns).symm
  · intro course roots s hreach t ht
    obtain ⟨s', -, hs⟩ := hreach.alike htell hdraws halike
    have hdrawn := hs.drawn t (Multiset.mem_add.2 (Or.inr ht))
    exact Task.Drawn.takesAnew hdrawn hs.world.left htell

/-- A library whose one set makes connections in a way that can be read from its files. -/
def toolkit (maker : String) : Package where
  path := "lib"
  providers := [{ name := maker, output := some "Conn" }]
  sets := [{ name := "Base", providers := [maker] }]
  fingerprint? := some ⟨maker, []⟩

/-- An application that stays the same, and every version of its library. -/
def Edition (p : Package) (_ : Disk) : Prop :=
  p = Preset.shopApp ∨ ∃ maker, p = toolkit maker

theorem telling_edition : Telling Edition := by
  rintro p q before now (rfl | ⟨maker, rfl⟩) (rfl | ⟨maker', rfl⟩) hpath hcontent
  · exact .refl _
  · exact absurd (show "app" = "lib" from hpath) (by decide)
  · exact absurd (show "lib" = "app" from hpath) (by decide)
  · have hmaker : maker = maker' := hcontent
    rw [hmaker]
    exact .refl _

/-- A run over the application and one version of its library. -/
def visit (p : Preset) (maker : String) : RunInput :=
  p.apply
    { loader := { answer := fun request cancelled =>
        ({ packages := [Preset.shopApp, toolkit maker].filter fun p =>
            request.patterns.contains p.path }, cancelled) }
      patterns := ["app"] }

theorem draws_visit (p : Preset) (maker : String) :
    (visit p maker).loader.Draws fun pkg => Edition pkg (visit p maker).disk := by
  have hloader : (visit p maker).loader = (visit .naive maker).loader := by
    cases p <;> rfl
  rw [hloader]
  intro request cancelled pkg hpkg
  have hmem := (List.mem_filter.1 hpkg).1
  rcases List.mem_cons.1 hmem with rfl | hmem
  · exact Or.inl rfl
  · exact Or.inr ⟨maker, List.mem_singleton.1 hmem⟩

/-- Between two runs the library has been edited.  The cache still holds the set of the older version, and
the report of the second run is that of a run without it. -/
theorem transparent_toolkit :
    (∃ set, (toolkit "Open").extractSet "Base" "app.Init" = .ok set ∧
        (generate (visit .lazy "Open") {}).1.sets.slots.get? ⟨"lib", "Base"⟩ =
          some (.ready ⟨set, ⟨"Open", []⟩⟩)) ∧
      (generate (visit (.parallelLazy 2) "Dial")
          { sets := (generate (visit .lazy "Open") {}).1.sets }).2 =
        (generate (visit (.parallelLazy 2) "Dial") {}).2 := by
  have hended : ((Schedule.step (visit .lazy "Open").setting)^[40]
      ((visit .lazy "Open").launch {})).ended = true := by
    decide +kernel
  have hended' : ((Schedule.step (visit (.parallelLazy 2) "Dial").setting)^[40]
      ((visit (.parallelLazy 2) "Dial").launch {})).ended = true := by
    decide +kernel
  have hreturns : (visit .lazy "Open").Returns {} := fun _ => ⟨_, .of_iterate 40 hended⟩
  have hreturns' : (visit (.parallelLazy 2) "Dial").Returns {} := fun _ => ⟨_, .of_iterate 40 hended'⟩
  have hhistory := of_generate .fresh (draws_visit .lazy "Open") hreturns
  refine ⟨?_, (transparent telling_edition hhistory (draws_visit _ _) false).2.2.1 hreturns'⟩
  rw [(Schedule.Ends.of_iterate 40 hended).generate_eq rfl]
  refine ⟨_, rfl, ?_⟩
  decide +kernel

end History

end SetCache

end Wiring
