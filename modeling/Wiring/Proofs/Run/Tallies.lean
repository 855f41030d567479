/-
**Every task comes to one result.**

Whatever a loader answers, in whatever order the tasks of a run go on and whenever it is cancelled, a task
is either waiting for its result to be taken or it has one, and never both.  What is missing when a run is
given up is made up for, so that in the end there is one result for every task, and it is one that the task
may come to.

Main definitions:

* `Wiring.Task.Fits` — the results that a task may come to;
* `Wiring.Crew.Tallied` — the tasks and the results of a run add up.

Main results:

* `Wiring.Job.ne_nil_of_resolve` — a resolution that fails has failures;
* `Wiring.Crew.Tallied.move` — a move keeps the tally;
* `Wiring.RunInput.Makes.perm_range` — **every task has exactly one result**;
* `Wiring.RunInput.Makes.exists_result` — and it fits the task.
-/

import Wiring.Proofs.Run.Discovery
import Wiring.Proofs.Run.Endings

set_option autoImplicit false

namespace Wiring

/-! ### Results that fit -/

/-- A resolution that fails has failures. -/
theorem Job.ne_nil_of_resolve {job : Job} {failures : List Failure}
    (h : job.resolve = .error failures) : failures ≠ [] := by
  unfold Job.resolve at h
  dsimp only at h
  split at h
  · cases h
  next hfailures =>
    cases h
    exact hfailures

theorem ne_nil_of_resolveRequest {policy : Policy} {graph : SetGraph} {request : Request}
    {failures : List Failure} (h : resolveRequest policy graph request = .error failures) :
    failures ≠ [] := by
  rcases resolveRequest_cases policy graph request with ⟨f, -, heq⟩ | ⟨candidates, -, heq⟩ <;> rw [heq] at h
  · cases h
    exact List.cons_ne_nil _ _
  · exact Job.ne_nil_of_resolve h

/-- Two tasks are about the same injector, in the same place of the run. -/
structure Task.Stems (t t₀ : Task) : Prop where
  index : t.index = t₀.index
  pkg : t.pkg = t₀.pkg
  decl : t.decl = t₀.decl

namespace Task

/-- The results that a task may come to: what it has made bears the name of its injector, and if it fails
there is a reason. -/
def Fits (t : Task) : TaskResult → Prop
  | .ok output => output.name = t.decl.name
  | .error failures => failures ≠ []

/-- A task that has a result has one that it may come to. -/
def Sincere (t : Task) : Prop :=
  ∀ r, t.result? = some r → t.Fits r

variable {setting : Setting} {world world' : World} {t t' t₀ : Task} {r : TaskResult}

theorem Stems.trans {u : Task} (h : t.Stems t') (h' : t'.Stems u) : t.Stems u :=
  ⟨h.index.trans h'.index, h.pkg.trans h'.pkg, h.decl.trans h'.decl⟩

theorem Stems.fits (h : t.Stems t₀) (hr : t.Fits r) : t₀.Fits r := by
  unfold Fits at *
  rwa [h.decl] at hr

theorem fits_compose (setting : Setting) (t : Task) : t.Fits (t.compose setting) := by
  rcases t.compose_cases setting with ⟨failures, hplan, heq⟩ | ⟨plan, -, ⟨f, -, heq⟩ | ⟨code, -, heq⟩⟩ <;>
    rw [heq]
  · exact ne_nil_of_resolveRequest hplan
  · exact List.cons_ne_nil _ _
  · rfl

theorem sincere_close (h : t.Fits r) : (t.close r).Sincere := by
  intro r' hr'
  cases hr'
  exact h

theorem sincere_of_open (h : t.result? = none) : t.Sincere := by
  intro r hr
  rw [h] at hr
  cases hr

/-- What a task does by itself keeps it about its injector, and sincere. -/
theorem stems_open (t : Task) : t.open.Stems t ∧ t.open.Sincere := by
  rcases t.open_cases with ⟨f, -, heq⟩ | ⟨request, -, heq⟩ <;> rw [heq]
  · exact ⟨⟨rfl, rfl, rfl⟩, sincere_close (List.cons_ne_nil _ _)⟩
  · exact ⟨⟨rfl, rfl, rfl⟩, sincere_of_open rfl⟩

theorem stems_takeNext (h : t.stage = .collecting) :
    (t.takeNext setting).Stems t ∧ (t.takeNext setting).Sincere := by
  rcases t.takeNext_cases setting with ⟨-, heq⟩ | ⟨_, _, -, ⟨-, heq⟩ | ⟨-, heq⟩⟩ <;> rw [heq]
  · refine ⟨⟨rfl, rfl, rfl⟩, sincere_close ?_⟩
    split
    · exact fits_compose setting t
    next hfailures => exact hfailures
  · exact ⟨⟨rfl, rfl, rfl⟩, sincere_of_open (by simp only [result?, h])⟩
  · exact ⟨⟨rfl, rfl, rfl⟩, sincere_of_open rfl⟩

theorem stems_receive (t : Task) (answer : Except Failure ProviderSet) :
    (t.receive answer).Stems t ∧ (t.receive answer).Sincere := by
  rcases t.receive_cases answer with ⟨set, -, heq⟩ | ⟨-, heq⟩ | ⟨f, -, -, heq⟩ <;> rw [heq]
  · exact ⟨⟨rfl, rfl, rfl⟩, sincere_of_open rfl⟩
  · exact ⟨⟨rfl, rfl, rfl⟩, sincere_close (List.cons_ne_nil _ _)⟩
  · exact ⟨⟨rfl, rfl, rfl⟩, sincere_of_open rfl⟩

theorem stems_arrive {errand : Errand} {result : Except Failure Package}
    (h : t.stage = .fetching errand (.done result)) :
    (arrive setting world t errand result).2.1.Stems t ∧
      (arrive setting world t errand result).2.1.Sincere := by
  cases result with
  | error f => exact stems_receive t _
  | ok pkg =>
      rcases arrive_cases setting world t errand pkg with ⟨answer, -, heq⟩ | ⟨-, heq⟩ <;> rw [heq]
      · exact stems_receive t answer
      · exact ⟨⟨rfl, rfl, rfl⟩, sincere_of_open (by simp only [result?, h])⟩

/-- **A small step keeps a task about its injector**, and if it comes to a result, to one that fits. -/
theorem Treads.stems (h : Treads setting (world, t) (world', t')) : t'.Stems t ∧ t'.Sincere := by
  cases h with
  | looks => exact ⟨⟨rfl, rfl, rfl⟩, sincere_of_open rfl⟩
  | reads => exact stems_open t
  | takes h => exact stems_takeNext h
  | arrives h => exact stems_arrive h

theorem stems_step (setting : Setting) (world : World) (h : t.Sincere) :
    (t.step setting world).2.1.Stems t ∧ (t.step setting world).2.1.Sincere := by
  have happly : ∀ x, Relation.ReflTransGen (Treads setting) (world, t) x →
      x.2.Stems t ∧ x.2.Sincere := by
    intro x hx
    induction hx with
    | refl => exact ⟨⟨rfl, rfl, rfl⟩, h⟩
    | tail _ hstep ih =>
        obtain ⟨hstems, hsincere⟩ := Treads.stems hstep
        exact ⟨hstems.trans ih.1, hsincere⟩
  exact happly _ (step_treads setting world t)

end Task

/-! ### The tally -/

namespace Crew

/-- The tasks and the results of a run add up: every place of a task is taken once, by a task that remains or
by a result. -/
structure Tallied (tasks : List Task) (s : Crew) : Prop where
  indices : s.remaining.map Task.index + s.finished.map TaskReport.index =
    (tasks.map Task.index : Multiset Nat)
  remaining : ∀ t ∈ s.remaining, t.Sincere ∧ ∃ t₀ ∈ tasks, t.Stems t₀
  finished : ∀ report ∈ s.finished, ∃ t₀ ∈ tasks, ∃ r, t₀.Fits r ∧
    report = ⟨t₀.index, Schedule.counted r⟩
  noticed : s.stopped = true → s.cancelled = true
  reported : ∀ report ∈ s.finished, Schedule.isCancelled report.result = true → s.cancelled = true

variable {setting : Setting} {workers : Nat} {turn : Turn} {tasks : List Task} {s s' : Crew}

theorem remaining_outset (input : RunInput) (world : World) (roots : LoadOutcome) :
    (Crew.outset input world roots).remaining =
      (discover input.options roots.packages : Multiset Task) :=
  add_zero _

theorem tallied_outset (input : RunInput) (world : World) (roots : LoadOutcome) :
    (Crew.outset input world roots).Tallied (discover input.options roots.packages) := by
  refine ⟨?_, ?_, nofun, nofun, nofun⟩
  · rw [remaining_outset]
    exact add_zero _
  · intro t ht
    rw [remaining_outset, Multiset.mem_coe] at ht
    obtain ⟨-, -, -, -, hstage⟩ := of_mem_discover ht
    exact ⟨Task.sincere_of_open (by rw [Task.result?, hstage]), t, ht, rfl, rfl, rfl⟩

/-! What holds of all remaining tasks holds of them after a move, if it holds of the one that has moved. -/

section Remaining

variable {t t' : Task} {rest : Multiset Task} {P : Task → Prop}

theorem remaining_start (ht : s.upcoming = t ::ₘ rest) :
    ({ s with upcoming := rest, underWay := t ::ₘ s.underWay } : Crew).remaining = s.remaining := by
  simp only [Crew.remaining, ht, Multiset.add_cons, Multiset.cons_add]

theorem forall_remaining_advance (ht : s.underWay = t ::ₘ rest) (h : ∀ u ∈ s.remaining, P u)
    (ht' : P t') (world : World) :
    ∀ u ∈ ({ s with world, underWay := t' ::ₘ rest } : Crew).remaining, P u := by
  intro u hu
  rw [remaining_of_underWay rfl, Multiset.mem_cons] at hu
  rcases hu with rfl | hu
  · exact ht'
  · refine h u ?_
    rw [remaining_of_underWay ht]
    exact Multiset.mem_cons_of_mem hu

theorem forall_remaining_deliver (ht : s.underWay = t ::ₘ rest) (h : ∀ u ∈ s.remaining, P u)
    (finished : Multiset TaskReport) (cancelled : Bool) :
    ∀ u ∈ ({ s with underWay := rest, finished, cancelled } : Crew).remaining, P u := by
  intro u hu
  refine h u ?_
  rw [remaining_of_underWay ht]
  exact Multiset.mem_cons_of_mem hu

end Remaining

/-- **A move keeps the tally.** -/
theorem Tallied.move (h : s.Tallied tasks) (hmove : Move setting workers turn s s') :
    s'.Tallied tasks := by
  cases hmove with
  | start _ ht =>
      exact ⟨remaining_start ht ▸ h.indices, remaining_start ht ▸ h.remaining, h.finished, h.noticed,
        h.reported⟩
  | @advance _ t rest delay _ ht =>
      have hmem := mem_remaining ht
      obtain ⟨hsincere, t₀, ht₀, hstems⟩ := h.remaining t hmem
      obtain ⟨hstems', hsincere'⟩ := Task.stems_step (setting.delayed delay) s.world hsincere
      refine ⟨?_, ?_, h.finished, h.noticed, h.reported⟩
      · rw [remaining_of_underWay rfl, Multiset.map_cons, hstems'.index, ← h.indices,
          remaining_of_underWay ht, Multiset.map_cons]
      · exact forall_remaining_advance ht h.remaining ⟨hsincere', t₀, ht₀, hstems'.trans hstems⟩ _
  | @deliver _ t rest result _ ht hr =>
      have hmem := mem_remaining ht
      obtain ⟨hsincere, t₀, ht₀, hstems⟩ := h.remaining t hmem
      refine ⟨?_, forall_remaining_deliver ht h.remaining _ _, ?_,
        fun hstopped => by rw [h.noticed hstopped, Bool.true_or], ?_⟩
      · rw [← h.indices, remaining_of_underWay ht, Multiset.map_cons, Multiset.map_cons,
          Multiset.cons_add, Multiset.add_cons]
        rfl
      · intro report hreport
        rcases Multiset.mem_cons.1 hreport with rfl | hreport
        · exact ⟨t₀, ht₀, result, hstems.fits (hsincere result hr), by rw [hstems.index]⟩
        · exact h.finished report hreport
      · intro report hreport hcancelled
        rw [Bool.or_eq_true]
        rcases Multiset.mem_cons.1 hreport with rfl | hreport
        · exact Or.inr ((Schedule.isCancelled_counted result).symm.trans hcancelled)
        · exact Or.inl (h.reported report hreport hcancelled)
  | fire => exact ⟨h.indices, h.remaining, h.finished, h.noticed, h.reported⟩
  | stop => exact ⟨h.indices, h.remaining, h.finished, fun _ => rfl, fun _ _ _ => rfl⟩

end Crew

theorem Moves.tallied {setting : Setting} {workers : Nat} {turns : List Turn} {tasks : List Task}
    {s s' : Crew} (h : s.Tallied tasks) (hmoves : Moves setting workers turns s s') :
    s'.Tallied tasks := by
  induction hmoves with
  | nil => exact h
  | cons hmove _ ih => exact ih (h.move hmove)

section Runs

variable {input : RunInput} {course : Course} {world : World} {roots : LoadOutcome} {s : Crew}

/-- Wherever a run has come to, its tasks and their results are those of the start. -/
theorem RunInput.Reaches.tallied (h : input.Reaches course world roots s) :
    s.Tallied (discover input.options roots.packages) := by
  cases h with
  | intro _ _ hmoves => exact hmoves.tallied (Crew.tallied_outset _ _ _)

theorem RunInput.Proceeds.tallied (h : input.Proceeds course world roots s) :
    s.Tallied (discover input.options roots.packages) := by
  obtain ⟨course', hreaches⟩ := h.reaches
  exact hreaches.tallied

end Runs

/-! ### The results of all tasks -/

theorem map_index_discover (options : Options) (packages : List Package) :
    (discover options packages).map Task.index = List.range (discover options packages).length := by
  refine List.ext_getElem (by simp) ?_
  intro i h h'
  have hi : i < (discover options packages).length := by simpa using h'
  rw [List.getElem_map, List.getElem_range]
  exact (getElem?_discover (List.getElem?_eq_getElem hi)).1

theorem mem_unfinished {finished : List TaskReport} {count i : Nat} :
    i ∈ Schedule.unfinished finished count ↔ i < count ∧ i ∉ finished.map TaskReport.index := by
  simp [Schedule.unfinished]

/-- The places that have a result and those that have none are all places. -/
theorem perm_append_unfinished {finished : List TaskReport} {count : Nat}
    (hnodup : (finished.map TaskReport.index).Nodup)
    (hlt : ∀ i ∈ finished.map TaskReport.index, i < count) :
    (finished.map TaskReport.index ++ Schedule.unfinished finished count).Perm (List.range count) := by
  have hunfinished : (Schedule.unfinished finished count).Nodup := List.nodup_range.filter _
  have hapart : (finished.map TaskReport.index ++ Schedule.unfinished finished count).Nodup :=
    List.nodup_append'.2 ⟨hnodup, hunfinished, fun i hi hi' => (mem_unfinished.1 hi').2 hi⟩
  rw [List.perm_ext_iff_of_nodup hapart List.nodup_range]
  intro i
  rw [List.mem_append, mem_unfinished, List.mem_range]
  constructor
  · rintro (hi | ⟨hi, -⟩)
    · exact hlt i hi
    · exact hi
  · intro hi
    by_cases hdone : i ∈ finished.map TaskReport.index
    · exact Or.inl hdone
    · exact Or.inr ⟨hi, hdone⟩

theorem map_index_complete_of_cancelled (finished : List TaskReport) (count : Nat) :
    (Schedule.complete true finished count).map TaskReport.index =
      finished.map TaskReport.index ++ Schedule.unfinished finished count := by
  rw [Schedule.complete, if_pos rfl, List.map_append, List.map_map]
  exact congrArg _ (List.map_id _)

/-- When all results have been taken, or the run is given up, there is one result for every task. -/
theorem Crew.Tallied.perm_complete {options : Options} {packages : List Package} {s : Crew}
    {finished : List TaskReport} (h : s.Tallied (discover options packages)) (hover : s.Over)
    (hfinished : (finished : Multiset TaskReport) = s.finished) :
    ((Schedule.complete s.cancelled finished (discover options packages).length).map
      TaskReport.index).Perm (List.range (discover options packages).length) := by
  have hindices := h.indices
  rw [map_index_discover, ← hfinished, Multiset.map_coe] at hindices
  generalize (discover options packages).length = count at hindices
  cases hcancelled : s.cancelled with
  | true =>
      -- the places of the results are those of some tasks, and none is taken twice
      have hsub : (finished.map TaskReport.index : Multiset Nat) ≤ (List.range count : Multiset Nat) := by
        rw [← hindices]
        exact Multiset.le_add_left _ _
      rw [map_index_complete_of_cancelled]
      refine perm_append_unfinished (Multiset.nodup_of_le hsub List.nodup_range) ?_
      intro i hi
      exact List.mem_range.1 (Multiset.mem_of_le hsub (Multiset.mem_coe.2 hi))
  | false =>
      have hremaining : s.remaining = 0 := by
        rcases hover with hstopped | ⟨hupcoming, hunderWay, -⟩
        · exact absurd (hcancelled.symm.trans (h.noticed hstopped)) Bool.false_ne_true
        · rw [Crew.remaining, hupcoming, hunderWay, add_zero]
      rw [hremaining, Multiset.map_zero, zero_add, Multiset.coe_eq_coe] at hindices
      exact hindices

/-- A result of a task that has no other is the one that the report finds. -/
theorem resultAt_of_mem {results : List TaskReport} {report : TaskReport}
    (hnodup : (results.map TaskReport.index).Nodup) (h : report ∈ results) :
    resultAt results report.index = some report.result := by
  cases hfind : results.find? fun r => r.index = report.index with
  | none =>
      rw [List.find?_eq_none] at hfind
      exact absurd (by simp) (hfind report h)
  | some first =>
      have hfirst : first.index = report.index := by simpa using List.find?_some hfind
      rw [resultAt, hfind,
        List.inj_on_of_nodup_map hnodup (List.mem_of_find?_eq_some hfind) h hfirst]
      rfl

theorem mem_of_resultAt {results : List TaskReport} {index : Nat} {r : TaskResult}
    (h : resultAt results index = some r) : (⟨index, r⟩ : TaskReport) ∈ results := by
  obtain ⟨report, hreport, rfl⟩ := Option.map_eq_some_iff.1 h
  obtain rfl : report.index = index := by simpa using List.find?_some hreport
  exact List.mem_of_find?_eq_some hreport

/-- What counts as the result of a task is a result that the task may come to.  One that has been cancelled
counts as nothing else. -/
structure Task.Counts (t : Task) (r : TaskResult) : Prop where
  fits : t.Fits r
  cancelled : Schedule.isCancelled r = true → r = .error [.cancelled]

theorem Task.counts_cancelled (t : Task) : t.Counts (.error [.cancelled]) :=
  ⟨List.cons_ne_nil _ _, fun _ => rfl⟩

theorem Task.Fits.counts {t : Task} {r : TaskResult} (h : t.Fits r) :
    t.Counts (Schedule.counted r) := by
  unfold Schedule.counted
  split
  · exact t.counts_cancelled
  next hlive => exact ⟨h, fun hcancelled => absurd hcancelled hlive⟩

namespace RunInput.Makes

variable {input : RunInput} {course : Course} {world : World} {roots : LoadOutcome}
  {results : List TaskReport} {r : Report} {t : Task}

/-- **Every task has exactly one result.** -/
theorem perm_range (h : input.Makes course world roots results r) :
    (results.map TaskReport.index).Perm
      (List.range (discover input.options roots.packages).length) := by
  cases h with
  | refused => exact List.Perm.refl _
  | done h hover hfinished => exact h.tallied.perm_complete hover hfinished

theorem nodup (h : input.Makes course world roots results r) :
    (results.map TaskReport.index).Nodup :=
  h.perm_range.nodup_iff.2 List.nodup_range

/-- **The result of a task counts as one.** -/
theorem exists_result (h : input.Makes course world roots results r)
    (ht : t ∈ discover input.options roots.packages) :
    ∃ result, resultAt results t.index = some result ∧ t.Counts result := by
  have hindex : t.index ∈ results.map TaskReport.index := by
    rw [h.perm_range.mem_iff, ← map_index_discover]
    exact List.mem_map_of_mem ht
  obtain ⟨report, hreport, hplace⟩ := List.mem_map.1 hindex
  refine ⟨report.result, hplace ▸ resultAt_of_mem h.nodup hreport, ?_⟩
  cases h with
  | refused => cases hreport
  | @done _ s finished h hover hfinished =>
      have hmade : report ∈ finished → t.Counts report.result := by
        intro hreport
        rw [← Multiset.mem_coe, hfinished] at hreport
        obtain ⟨t₀, ht₀, result, hfits, rfl⟩ := h.tallied.finished report hreport
        obtain rfl := index_discover t₀ ht₀ t ht hplace
        exact hfits.counts
      rcases Schedule.mem_complete hreport with hreport | ⟨-, hcut⟩
      · exact hmade hreport
      · rw [hcut]
        exact t.counts_cancelled

/-- A task that has been cancelled does not go unnoticed. -/
theorem cancelled_of_result (h : input.Makes course world roots results r)
    (hresult : resultAt results t.index = some (.error [.cancelled])) : r.cancelled = true := by
  have hreport := mem_of_resultAt hresult
  cases h with
  | refused => rfl
  | @done _ s finished h hover hfinished =>
      rw [reportOn_eq rfl rfl]
      change s.cancelled = true
      rcases Schedule.mem_complete hreport with hreport | ⟨hcancelled, -⟩
      · rw [← Multiset.mem_coe, hfinished] at hreport
        exact h.tallied.reported _ hreport rfl
      · exact hcancelled

/-! ### The report -/

/-- A run that is refused reports like one without tasks, so every report is made of the results. -/
theorem exists_report (h : input.Makes course world roots results r) :
    ∃ finished w, r = reportOn input roots r.cancelled finished w ∧
      results = Schedule.complete r.cancelled finished
        (discover input.options roots.packages).length := by
  cases h with
  | refused =>
      refine ⟨[], {}, ?_, rfl⟩
      rw [reportOn_eq rfl rfl]
      simp [Report.sorted, Report.cut, Report.withErrors, RunInput.priorErrors, rootErrors,
        discoverErrors, firstOfEach, discover, wanted, Report.taskPaths, PackageCache.loadedPaths]
  | @done _ s finished =>
      have hcancelled : (reportOn input roots s.cancelled finished s.world).cancelled = s.cancelled := by
        rw [reportOn_eq rfl rfl]
        rfl
      exact ⟨finished, s.world, by rw [hcancelled], by rw [hcancelled]⟩

theorem mem_outputs (h : input.Makes course world roots results r) {output : PackageOutput} :
    output ∈ r.outputs ↔ output ∈ Report.filesAt input.makeFile input.options results
      (discover input.options roots.packages) output.pkg := by
  obtain ⟨finished, w, hr, hresults⟩ := h.exists_report
  rw [hr, mem_outputs_reportOn rfl hresults]

theorem mem_errors (h : input.Makes course world roots results r) {e : RunError} :
    e ∈ r.errors ↔ e ∈ input.priorErrors roots r.cancelled ∨
      e ∈ Report.errorsAt input.makeFile input.options results
        (discover input.options roots.packages) e.pkg := by
  obtain ⟨finished, w, hr, hresults⟩ := h.exists_report
  have hmem : e ∈ (reportOn input roots r.cancelled finished w).errors ↔ _ :=
    mem_errors_reportOn rfl hresults
  rwa [← hr] at hmem

theorem errors_at (h : input.Makes course world roots results r) (path : String) :
    (r.errors.filter fun e => e.pkg = path).Perm
      (((input.priorErrors roots r.cancelled).filter fun e => e.pkg = path) ++
        Report.errorsAt input.makeFile input.options results
          (discover input.options roots.packages) path) := by
  obtain ⟨finished, w, hr, hresults⟩ := h.exists_report
  have hperm : ((reportOn input roots r.cancelled finished w).errors.filter
      fun e => e.pkg = path).Perm _ := errors_reportOn_at rfl hresults path
  rwa [← hr] at hperm

theorem errors_under (h : input.Makes course world roots results r) (path name : String) :
    r.errors.filter (RunError.under path name) =
      (input.priorErrors roots r.cancelled).filter (RunError.under path name) ++
        ((Report.tasksAt (discover input.options roots.packages) path).filter
          fun t => t.decl.name = name).flatMap (Task.errors results) := by
  obtain ⟨finished, w, hr, hresults⟩ := h.exists_report
  have hunder : (reportOn input roots r.cancelled finished w).errors.filter
      (RunError.under path name) = _ := errors_reportOn_under rfl hresults path name
  rwa [← hr] at hunder

end RunInput.Makes

end Wiring
