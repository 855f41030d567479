/-
**All strategies agree.**

A run may extract sets anew or keep them, load packages before it starts or when they are needed, and
work on one injector at a time or on several.  As long as the loader answers from a collection whose
imports are complete, and nobody cancels, none of this shows in what the run produces: every injector
comes to the result that the collection settles, and the report is put together from the results in an
order of its own.

Main definitions:

* `Wiring.Report.SameAs` — the same outputs, the same errors in the same order, and the same flag;
* `Wiring.RunInput.Always` — what holds of the report of a run, in whatever order its tasks go on.

Main results:

* `Wiring.Crew.Steady.resultAt_of_over` — when a run is over every task has the result that the collection
  settles;
* `Wiring.Preset.agree` — **under every strategy, and in every order, the report is the same**.
-/

import Wiring.Proofs.Loading.Catalogues
import Wiring.Proofs.Run.Outset
import Wiring.Proofs.Run.Schedules

set_option autoImplicit false

namespace Wiring

/-! ### Reports -/

/-- The same outputs, the same errors in the same order, and the same flag. -/
structure Report.SameAs (r r' : Report) : Prop where
  outputs : r.outputs = r'.outputs
  errors : r.errors = r'.errors
  cancelled : r.cancelled = r'.cancelled

/-- In whatever order the tasks of a run go on, if nobody cancels it the run comes to its end, and
whatever report is made there has a property. -/
def RunInput.Always (input : RunInput) (world : World) (P : Report → Prop) : Prop :=
  Inevitably (Crew.Advances input.setting input.strategy.workers)
    (fun s => s.Over ∧
      ∀ r, s.Reports input (world.call input.loader input.rootRequest).2 r → P r)
    (Crew.outset input (world.call input.loader input.rootRequest).1
      (world.call input.loader input.rootRequest).2)

/-- The result of a task as the report looks for it. -/
def resultAt (results : List TaskReport) (index : Nat) : Option TaskResult :=
  (results.find? fun r => r.index = index).map TaskReport.result

namespace Report

variable {results results' : List TaskReport} {tasks : List Task} {make : FileMaker}
  {options : Options}

theorem resultsOf_congr (h : ∀ t ∈ tasks, resultAt results t.index = resultAt results' t.index) :
    resultsOf tasks results = resultsOf tasks results' := by
  unfold resultsOf
  refine List.filterMap_congr ?_
  intro t ht
  have hmap : ∀ results : List TaskReport,
      ((results.find? fun r => r.index = t.index).map fun r => (t, r.result)) =
        (resultAt results t.index).map fun r => (t, r) := by
    intro results
    rw [resultAt, Option.map_map]
    rfl
  rw [hmap, hmap, h t ht]

/-- Only the results of the tasks count, not the order in which they came. -/
theorem assemble_congr (h : ∀ t ∈ tasks, resultAt results t.index = resultAt results' t.index)
    (r : Report) : assemble make options r tasks results = assemble make options r tasks results' := by
  have hadd : ∀ (path : String) (r : Report),
      addPackage make options results r (tasks.filter fun t => t.pkg.path = path) =
        addPackage make options results' r (tasks.filter fun t => t.pkg.path = path) := by
    intro path r
    have hsub : ∀ t ∈ tasks.filter fun t => t.pkg.path = path,
        resultAt results t.index = resultAt results' t.index := fun t ht =>
      h t (List.mem_filter.1 ht).1
    unfold addPackage
    rw [resultsOf_congr hsub]
  simp only [assemble, hadd]

end Report

/-- When every task has a result, none is left to be completed. -/
theorem Schedule.complete_eq {options : Options} {packages : List Package} {cancelled : Bool}
    {results : List TaskReport}
    (h : ∀ t ∈ discover options packages, ∃ r, resultAt results t.index = some r) :
    Schedule.complete cancelled results (discover options packages).length = results := by
  have hnone : Schedule.unfinished results (discover options packages).length = [] := by
    unfold Schedule.unfinished
    rw [List.filter_eq_nil_iff]
    intro i hi
    -- the place of a task in the list is its index
    have ht := List.getElem?_eq_getElem (List.mem_range.1 hi)
    obtain ⟨r, hr⟩ := h _ (List.mem_of_getElem? ht)
    rw [(getElem?_discover ht).1, resultAt] at hr
    obtain ⟨report, hreport, -⟩ := Option.map_eq_some_iff.1 hr
    simpa using ⟨report, List.mem_of_find?_eq_some hreport, by simpa using List.find?_some hreport⟩
  unfold Schedule.complete
  rw [hnone, List.map_nil, List.append_nil, ite_self]

/-- Of the results, only those that the tasks have count for a report, and not the order in which they
came. -/
theorem reportOn_sameAs {input : RunInput} {roots : LoadOutcome} {cancelled : Bool}
    {results results' : List TaskReport} {world world' : World}
    (h : ∀ t ∈ discover input.options roots.packages,
      ∃ r, resultAt results t.index = some r ∧ resultAt results' t.index = some r) :
    (reportOn input roots cancelled results world).SameAs
      (reportOn input roots cancelled results' world') := by
  have hsame : ∀ t ∈ discover input.options roots.packages,
      resultAt results t.index = resultAt results' t.index := by
    intro t ht
    obtain ⟨r, hr, hr'⟩ := h t ht
    rw [hr, hr']
  have hassemble : ∀ r : Report,
      r.assemble input.makeFile input.options (discover input.options roots.packages)
          (Schedule.complete cancelled results (discover input.options roots.packages).length) =
        r.assemble input.makeFile input.options (discover input.options roots.packages)
          (Schedule.complete cancelled results' (discover input.options roots.packages).length) := by
    intro r
    rw [Schedule.complete_eq fun t ht => (h t ht).imp fun _ hr => hr.1,
      Schedule.complete_eq fun t ht => (h t ht).imp fun _ hr => hr.2]
    exact Report.assemble_congr hsame r
  unfold reportOn
  dsimp only
  rw [hassemble]
  exact ⟨rfl, rfl, rfl⟩

namespace Crew.Steady

variable {setting : Setting} {c : Collection} {roots : List Package} {tasks : List Task} {s : Crew}
  {t : Task} {finished : List TaskReport}

theorem remaining_of_over (h : s.Steady setting c roots tasks) (hover : s.Over) : s.remaining = 0 := by
  rcases hover with hstopped | ⟨hupcoming, hunderWay, -⟩
  · rw [h.going] at hstopped
    cases hstopped
  · rw [remaining, hupcoming, hunderWay, add_zero]

theorem exists_report (h : s.Steady setting c roots tasks) (hover : s.Over) (ht : t ∈ tasks) :
    ∃ report ∈ s.finished, report.index = t.index := by
  rcases h.covered t ht with ⟨u, hu, -⟩ | hreport
  · rw [h.remaining_of_over hover] at hu
    exact absurd hu (Multiset.notMem_zero u)
  · exact hreport

/-- **When a run is over every task has the result that the collection settles.** -/
theorem resultAt_of_over (h : s.Steady setting c roots tasks) (hover : s.Over)
    (hindex : ∀ t ∈ tasks, ∀ t' ∈ tasks, t.index = t'.index → t = t')
    (hfinished : (finished : Multiset TaskReport) = s.finished) (ht : t ∈ tasks) :
    ∃ r, t.Ends setting c r ∧ resultAt finished t.index = some (Schedule.counted r) := by
  obtain ⟨report, hreport, hplace⟩ := h.exists_report hover ht
  rw [← hfinished, Multiset.mem_coe] at hreport
  cases hfind : finished.find? fun r => r.index = t.index with
  | none =>
      rw [List.find?_eq_none] at hfind
      exact absurd (by simpa using hplace) (hfind report hreport)
  | some first =>
      have hmem : first ∈ s.finished := by
        rw [← hfinished, Multiset.mem_coe]
        exact List.mem_of_find?_eq_some hfind
      have hfirst : first.index = t.index := by simpa using List.find?_some hfind
      obtain ⟨t₀, ht₀, r, hr, rfl⟩ := h.results first hmem
      obtain rfl := hindex t₀ ht₀ t ht hfirst
      exact ⟨r, hr, by rw [resultAt, hfind]; rfl⟩

/-- When a run is over it has been found to be cancelled if some task comes to that. -/
theorem cancelled_of_over (h : s.Steady setting c roots tasks) (hover : s.Over)
    (hindex : ∀ t ∈ tasks, ∀ t' ∈ tasks, t.index = t'.index → t = t') :
    s.cancelled = true ↔
      ∃ t ∈ tasks, ∃ r, t.Ends setting c r ∧ Schedule.isCancelled r = true := by
  rw [h.cancelled]
  constructor
  · rintro ⟨report, hreport, hcancelled⟩
    obtain ⟨t, ht, r, hr, rfl⟩ := h.results report hreport
    exact ⟨t, ht, r, hr, (Schedule.isCancelled_counted r).symm.trans hcancelled⟩
  · rintro ⟨t, ht, r, hr, hcancelled⟩
    obtain ⟨report, hreport, hplace⟩ := h.exists_report hover ht
    obtain ⟨t₀, ht₀, r', hr', rfl⟩ := h.results report hreport
    obtain rfl := hindex t₀ ht₀ t ht hplace
    obtain rfl := hr.unique hr'
    exact ⟨_, hreport, (Schedule.isCancelled_counted r).trans hcancelled⟩

end Crew.Steady

theorem index_discover {options : Options} {packages : List Package} :
    ∀ t ∈ discover options packages, ∀ t' ∈ discover options packages,
      t.index = t'.index → t = t' := by
  intro t ht t' ht' hindex
  have hplace := (of_mem_discover ht).1
  have hplace' := (of_mem_discover ht').1
  rw [hindex, hplace', Option.some.injEq] at hplace
  exact hplace.symm

/-- Two runs that are over make the same report, if they follow the same policy. -/
theorem Crew.Steady.sameAs {c : Collection} {input : RunInput} {roots : LoadOutcome}
    {setting setting' : Setting} {s s' : Crew} {finished finished' : List TaskReport}
    (hpolicy : setting.policy = setting'.policy)
    (h : s.Steady setting c roots.packages (discover input.options roots.packages)) (hover : s.Over)
    (hfinished : (finished : Multiset TaskReport) = s.finished)
    (h' : s'.Steady setting' c roots.packages (discover input.options roots.packages))
    (hover' : s'.Over) (hfinished' : (finished' : Multiset TaskReport) = s'.finished) :
    (reportOn input roots s.cancelled finished s.world).SameAs
      (reportOn input roots s'.cancelled finished' s'.world) := by
  have h' := h'.congr hpolicy.symm
  have hcancelled : s.cancelled = s'.cancelled := by
    rw [Bool.eq_iff_iff, h.cancelled_of_over hover index_discover,
      h'.cancelled_of_over hover' index_discover]
  rw [hcancelled]
  refine reportOn_sameAs ?_
  intro t ht
  obtain ⟨r, hr, hresult⟩ := h.resultAt_of_over hover index_discover hfinished ht
  obtain ⟨r', hr', hresult'⟩ := h'.resultAt_of_over hover' index_discover hfinished' ht
  obtain rfl := hr.unique hr'
  exact ⟨_, hresult, hresult'⟩

/-! ### Strategies -/

namespace Preset

variable (p : Preset) (input : RunInput)

theorem site_apply : (p.apply input).site = input.site := by
  cases p <;> rfl

theorem call_apply (world : World) :
    world.call (p.apply input).loader (p.apply input).rootRequest =
      world.call input.loader input.rootRequest := by
  cases p <;> rfl

theorem policy_apply : (p.apply input).setting.policy = input.options.policy := by
  cases p <;> rfl

theorem discover_apply (packages : List Package) :
    discover (p.apply input).options packages = discover input.options packages := by
  cases p <;> rfl

theorem reportOn_apply (roots : LoadOutcome) (cancelled : Bool) (finished : List TaskReport)
    (world : World) : reportOn (p.apply input) roots cancelled finished world =
      reportOn input roots cancelled finished world := by
  cases p <;> rfl

theorem workers_apply : 0 < (p.apply input).strategy.workers := by
  cases p with
  | naive => exact Nat.one_pos
  | optimized => exact Nat.one_pos
  | parallel n => exact Nat.lt_of_lt_of_le Nat.one_pos (Nat.le_max_right n 1)
  | lazy => exact Nat.one_pos
  | parallelLazy n => exact Nat.lt_of_lt_of_le Nat.one_pos (Nat.le_max_right n 1)

variable {c : Collection} {input : RunInput} {world : World}

/-- A run under a preset starts as it will go on. -/
theorem steady_outset (p : Preset) {roots : LoadOutcome} (hserved : c.ServedAt input.site)
    (hlive : world.cancelled = false) (hsets : world.sets.Sound fun p _ => c.answer p.path = .ok p)
    (hroots : roots.Right c) :
    (Crew.outset (p.apply input) world roots).Steady (p.apply input).setting c roots.packages
      (discover input.options roots.packages) := by
  rw [← p.site_apply input] at hserved
  rw [← p.discover_apply input]
  exact Crew.steady_outset hserved hlive hsets hroots

/-- The schedule of a run under a preset comes to the end of the run. -/
theorem exists_ends (p : Preset) {roots : LoadOutcome} (hserved : c.ServedAt input.site)
    (himports : c.ImportsComplete) (hlive : world.cancelled = false)
    (hsets : world.sets.Sound fun p _ => c.answer p.path = .ok p) (hroots : roots.Right c) :
    ∃ last, ((p.apply input).start world roots).Ends (p.apply input).setting last ∧
      last.crew.Steady (p.apply input).setting c roots.packages
        (discover input.options roots.packages) ∧ last.crew.Over := by
  have hsteady := p.steady_outset hserved hlive hsets hroots
  have hsite : c.ServedAt (p.apply input).setting.site := by
    rwa [← p.site_apply input] at hserved
  have hfresh : ∀ t ∈ discover (p.apply input).options roots.packages, ¬ t.Sleeps := by
    rintro t ht ⟨errand, marker, hsleeps⟩
    obtain ⟨-, -, -, -, hstage⟩ := of_mem_discover ht
    cases hstage.symm.trans hsleeps
  have horderly := Schedule.orderly_start (fillPackages (p.apply input) world roots)
    (p.apply input).strategy.workers hfresh
  exact Schedule.exists_ends hsite himports hsteady horderly (p.workers_apply input)

/-- **Under every strategy, and in whatever order the tasks go on, a run that nobody cancels comes to its
end with the same outputs, the same errors in the same order and the same flag.** -/
theorem agree (c : Collection) (input : RunInput) (world : World) (hserved : c.ServedAt input.site)
    (himports : c.ImportsComplete) (hlive : world.cancelled = false) (hempty : world.sets = {})
    (p q : Preset) :
    (generate (p.apply input) world).2.SameAs (generate (q.apply input) world).2 ∧
      (p.apply input).Always world fun r => r.SameAs (generate (q.apply input) world).2 := by
  have hsite : c.ServedAt (p.apply input).setting.site := by
    rwa [← p.site_apply input] at hserved
  have hpolicy : (p.apply input).setting.policy = (q.apply input).setting.policy := by
    rw [p.policy_apply, q.policy_apply]
  have hasks : input.site.Asks input.rootRequest := ⟨rfl, rfl⟩
  have hcall : world.call input.loader input.rootRequest = _ := hserved.call_eq hlive hasks
  have hroots := hserved.right hasks
  have hsets : world.sets.Sound fun p _ => c.answer p.path = .ok p := hempty ▸ SetCache.sound_empty
  have hgenerate : ∀ p : Preset, generate (p.apply input) world =
      generateUnits (p.apply input) (world.call input.loader input.rootRequest).1
        (world.call input.loader input.rootRequest).2 := by
    intro p
    rw [generate, if_neg (by simp [hlive]), p.call_apply]
  rw [hgenerate, hgenerate, RunInput.Always, p.call_apply, hcall]
  -- both runs go on from what the loader has answered for the roots
  generalize (input.site.loader.answer input.rootRequest false).1 = roots at hroots
  generalize hopened : ({ world with calls := _ } : World) = opened
  have hlive' : opened.cancelled = false := hopened ▸ hlive
  have hsets' : opened.sets.Sound fun p _ => c.answer p.path = .ok p := hopened ▸ hsets
  obtain ⟨last, hends, hsteady, hover⟩ := p.exists_ends hserved himports hlive' hsets' hroots
  obtain ⟨last', hends', hsteady', hover'⟩ := q.exists_ends hserved himports hlive' hsets' hroots
  have hfinished : (last.finished : Multiset TaskReport) = last.crew.finished := rfl
  have hfinished' : (last'.finished : Multiset TaskReport) = last'.crew.finished := rfl
  rw [hends'.generateUnits_eq, q.reportOn_apply]
  constructor
  · have hsame := hsteady.sameAs hpolicy hover hfinished hsteady' hover' hfinished'
    rw [hends.generateUnits_eq, p.reportOn_apply]
    exact hsame
  · have hinevitable := (p.steady_outset hserved hlive' hsets' hroots).inevitably hsite himports
      (p.workers_apply input)
    refine hinevitable.mono ?_
    rintro s ⟨hs, hsover⟩
    refine ⟨hsover, ?_⟩
    rintro r ⟨finished, hall, rfl⟩
    have hsame := hs.sameAs hpolicy hsover hall hsteady' hover' hfinished'
    rw [p.reportOn_apply]
    exact hsame

/-- A package with an injector that can be made and one that draws from a package which does not load. -/
def shopApp : Package where
  path := "app"
  imports := ["lib", "lost"]
  injectors :=
    [{ name := "Init", outputs := ["Conn"], sets := ["lib.Base"] },
     { name := "Broken", outputs := ["Conn"], sets := ["lib.Base", "lost.Base"] }]

def shopLib : Package where
  path := "lib"
  providers := [{ name := "Open", output := some "Conn" }]
  sets := [{ name := "Base", providers := ["Open"] }]

/-- A slow service of both. -/
def shop : Service where
  catalog :=
    { packages := ⟨[("app", shopApp), ("lib", shopLib)]⟩, failures := [("lost", "disk error")] }
  pauses := 2

/-- Two injectors that wait for the same package, one of them in vain for another, come to the same report
one by one and at once. -/
theorem agree_shop :
    shop.catalog.collection.packages = [shopApp, shopLib] ∧
      (generate ((parallelLazy 2).apply { loader := shop.loader, patterns := ["app"] }) {}).2.SameAs
          (generate (naive.apply { loader := shop.loader, patterns := ["app"] }) {}).2 ∧
        ((parallelLazy 2).apply { loader := shop.loader, patterns := ["app"] }).Always {} fun r =>
          r.SameAs (generate (naive.apply { loader := shop.loader, patterns := ["app"] }) {}).2 := by
  have hfiled : shop.catalog.Filed := by
    unfold Catalog.Filed
    decide
  have himports : shop.catalog.collection.ImportsComplete := by
    unfold Collection.ImportsComplete
    decide +kernel
  refine ⟨by decide +kernel, ?_⟩
  exact agree shop.catalog.collection { loader := shop.loader, patterns := ["app"] } {}
    (Service.servedAt hfiled rfl rfl _ _) himports rfl rfl (parallelLazy 2) naive

end Preset

end Wiring
