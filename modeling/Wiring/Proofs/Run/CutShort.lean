/-
**What a run that was cut short reports.**

When a run is cancelled, nothing that it has finished is lost, and nothing is reported that would not have
been reported otherwise, except that it was cancelled.  Every task has one result, which is its own or says
that the task did not finish; a package gets a file only if all its injectors have succeeded; and the files
and the failures are among those of the same run when nobody cancels it.

Main definitions:

* `Wiring.Task.Unfinished` — a task has not finished;
* `Wiring.Report.Settled` — every task is accounted for;
* `Wiring.Report.PartOf` — a report says nothing that another one does not say.

Main results:

* `Wiring.RunInput.Makes.count_unfinished` — **an injector that did not finish is reported once**;
* `Wiring.RunInput.Makes.kept` — what has finished is what would have come of it;
* `Wiring.Report.cut_short` — **the report of a run that may have been cancelled**.
-/

import Wiring.Proofs.Run.Calm
import Wiring.Proofs.Run.Foresight

set_option autoImplicit false

namespace Wiring

theorem count_flatMap_eq_countP {α β : Type} [DecidableEq β] {l : List α} {f : α → List β} {b : β}
    {p : α → Prop} [DecidablePred p] (h : ∀ a ∈ l, (f a).count b = if p a then 1 else 0) :
    (l.flatMap f).count b = l.countP fun a => p a := by
  induction l with
  | nil => rfl
  | cons a rest ih =>
      rw [List.flatMap_cons, List.count_append, List.countP_cons, h a List.mem_cons_self,
        ih fun b hb => h b (List.mem_cons_of_mem _ hb), add_comm]
      simp only [decide_eq_true_eq]

/-- A task had not finished when its run was given up, or it was cancelled itself. -/
def Task.Unfinished (results : List TaskReport) (t : Task) : Prop :=
  resultAt results t.index = some (.error [.cancelled])

instance (results : List TaskReport) : DecidablePred (Task.Unfinished results) :=
  fun t => inferInstanceAs (Decidable (resultAt results t.index = some (.error [.cancelled])))

/-- Every task of a run is accounted for in the report, when the tasks have come to some results. -/
structure Report.Settled (input : RunInput) (roots : LoadOutcome) (results : List TaskReport)
    (r : Report) : Prop where
  /-- Every task has exactly one result. -/
  once : (results.map TaskReport.index).Perm
    (List.range (discover input.options roots.packages).length)
  /-- An injector that did not finish is reported once, under its name. -/
  named : ∀ path name, r.errors.count ⟨path, some name, .cancelled⟩ =
    (tasksAt (discover input.options roots.packages) path).countP
      fun t => t.decl.name = name ∧ t.Unfinished results
  /-- That there is such an injector does not go unnoticed. -/
  noticed : ∀ t ∈ discover input.options roots.packages, t.Unfinished results → r.cancelled = true
  /-- A package gets a file only if all its selected injectors have succeeded. -/
  withheld : ∀ output ∈ r.outputs, ∃ p ∈ firstOfEach [] roots.packages,
    p.path = output.pkg ∧ p.isValid ∧
      (tasksAt (discover input.options roots.packages) p.path).map Task.decl =
        selected input.options p ∧
      ∀ t ∈ tasksAt (discover input.options roots.packages) p.path, t.Succeeds results
  flagged : r.cancelled = true ↔ { pkg := "", failure := .cancelled } ∈ r.errors

/-- A report says nothing that another one does not say, except that some tasks have not finished. -/
structure Report.PartOf (input : RunInput) (roots roots₀ : LoadOutcome)
    (results results₀ : List TaskReport) (r r₀ : Report) : Prop where
  /-- A task has the same result as in the other run, or it has not finished. -/
  kept : ∀ t ∈ discover input.options roots.packages, t.Unfinished results ∨
    roots = roots₀ ∧ resultAt results t.index = resultAt results₀ t.index
  outputs : ∀ output ∈ r.outputs, output ∈ r₀.outputs
  /-- Nothing else is said against an injector. -/
  errors : ∀ e ∈ r.errors, e.injector ≠ none → e.failure ≠ .cancelled → e ∈ r₀.errors

variable {input : RunInput} {course course₀ : Course} {world : World} {roots roots₀ : LoadOutcome}
  {results results₀ : List TaskReport} {r r₀ : Report} {t : Task}

/-! ### Errors that have nothing to do with tasks -/

/-- Before the tasks have had their say, only the run as a whole is cancelled. -/
theorem RunInput.mem_priorErrors {cancelled : Bool} {e : RunError}
    (h : e ∈ input.priorErrors roots cancelled) (hfailure : e.failure = .cancelled) :
    cancelled = true ∧ e = { pkg := "", failure := .cancelled } := by
  rw [priorErrors, List.mem_append, List.mem_append] at h
  rcases h with (hroot | hinvalid) | hrun
  · obtain ⟨x, -, rfl⟩ := List.mem_map.1 hroot
    cases hfailure
  · obtain ⟨p, -, -, he⟩ := mem_discoverErrors.1 hinvalid
    rw [(mem_invalidErrors he).2] at hfailure
    cases hfailure
  · split at hrun
    next hcancelled => exact ⟨hcancelled, List.mem_singleton.1 hrun⟩
    · cases hrun

namespace RunInput.Makes

variable (h : input.Makes course world roots results r)
include h

/-- **The flag is set exactly when the run is among the errors.** -/
theorem cancelled_iff : r.cancelled = true ↔ { pkg := "", failure := .cancelled } ∈ r.errors := by
  rw [h.mem_errors]
  constructor
  · intro hcancelled
    left
    rw [priorErrors, hcancelled, if_pos rfl]
    exact List.mem_append_right _ (List.mem_singleton_self _)
  · rintro (hprior | htask)
    · exact (mem_priorErrors hprior rfl).1
    · rcases Report.mem_errorsAt.1 htask with ⟨t, -, he⟩ | ⟨_, _, _, -, -, -, he⟩
      · obtain ⟨_, -, _, -, he⟩ := Task.mem_errors.1 he
        cases congrArg RunError.injector he
      · cases congrArg RunError.failure he

/-! ### Tasks that did not finish -/

/-- The errors of a task say that it is cancelled if and only if it did not finish, and they say it once. -/
theorem count_errors (ht : t ∈ discover input.options roots.packages) :
    (t.errors results).count ⟨t.pkg.path, some t.decl.name, .cancelled⟩ =
      if t.Unfinished results then 1 else 0 := by
  obtain ⟨result, hresult, hcounts⟩ := h.exists_result ht
  have hunfinished : t.Unfinished results ↔ result = .error [.cancelled] := by
    unfold Task.Unfinished
    rw [hresult, Option.some.injEq]
  by_cases hcut : result = .error [.cancelled]
  · rw [if_pos (hunfinished.2 hcut), Task.errors, hresult, hcut]
    exact List.count_singleton_self
  · rw [if_neg (mt hunfinished.1 hcut), List.count_eq_zero]
    intro hmem
    obtain ⟨failures, hfailures, f, hf, heq⟩ := Task.mem_errors.1 hmem
    cases hfailures.symm.trans hresult
    cases congrArg RunError.failure heq
    exact hcut (hcounts.cancelled (List.contains_iff_mem.2 hf))

/-- **An injector that did not finish is reported once, under its name.** -/
theorem count_unfinished (path name : String) :
    r.errors.count ⟨path, some name, .cancelled⟩ =
      (Report.tasksAt (discover input.options roots.packages) path).countP
        fun t => t.decl.name = name ∧ t.Unfinished results := by
  have hprior : ((input.priorErrors roots r.cancelled).filter (RunError.under path name)).count
      ⟨path, some name, .cancelled⟩ = 0 := by
    rw [List.count_eq_zero]
    intro hmem
    cases congrArg RunError.injector (mem_priorErrors (List.mem_filter.1 hmem).1 rfl).2
  have htasks : ∀ t ∈ (Report.tasksAt (discover input.options roots.packages) path).filter
      (fun t => t.decl.name = name),
      (t.errors results).count ⟨path, some name, .cancelled⟩ =
        if t.Unfinished results then 1 else 0 := by
    intro t ht
    rw [List.mem_filter, Report.mem_tasksAt, decide_eq_true_eq] at ht
    obtain ⟨⟨ht, rfl⟩, rfl⟩ := ht
    exact h.count_errors ht
  have hunder : RunError.under path name ⟨path, some name, .cancelled⟩ := by
    simp [RunError.under]
  rw [← List.count_filter hunder, h.errors_under, List.count_append, hprior, zero_add,
    count_flatMap_eq_countP htasks, List.countP_filter]
  refine List.countP_congr fun t _ => ?_
  rw [Bool.and_eq_true, decide_eq_true_eq, decide_eq_true_eq, decide_eq_true_eq]
  exact and_comm

/-! ### Files -/

/-- A package gets a file only if all its selected injectors have succeeded. -/
theorem withheld {output : PackageOutput} (houtput : output ∈ r.outputs) :
    ∃ p ∈ firstOfEach [] roots.packages, p.path = output.pkg ∧ p.isValid ∧
      (Report.tasksAt (discover input.options roots.packages) p.path).map Task.decl =
        selected input.options p ∧
      ∀ t ∈ Report.tasksAt (discover input.options roots.packages) p.path, t.Succeeds results := by
  obtain ⟨first, rest, content, hcons, hall, -, -⟩ := Report.mem_filesAt.1 (h.mem_outputs.1 houtput)
  have hfirst : first ∈ Report.tasksAt (discover input.options roots.packages) output.pkg := by
    rw [hcons]
    exact List.mem_cons_self
  obtain ⟨htask, hpath⟩ := Report.mem_tasksAt.1 hfirst
  obtain ⟨hroot, hvalid, -⟩ := mem_firstOfEach_of_task htask
  refine ⟨first.pkg, hroot, hpath, hvalid, ?_, hpath ▸ hall⟩
  rw [map_decl_tasksAt_discover hroot, if_pos hvalid]

/-! ### The same run when nobody cancels it -/

omit h

section Whole

variable {served : LoadRequest → LoadOutcome} {loader : Loader}
  (h : input.Makes course world roots results r) (hserves : input.loader.Serves served)
  (h₀ : RunInput.Makes { input with loader } course₀ world roots₀ results₀ r₀)
  (hwhole : loader.Serves served) (hlive : r₀.cancelled = false)

include h hserves h₀ hwhole hlive

/-- **What has finished is what would have come of it.** -/
theorem kept (ht : t ∈ discover input.options roots.packages) :
    t.Unfinished results ∨ roots = roots₀ ∧ resultAt results t.index = resultAt results₀ t.index := by
  obtain ⟨result, hresult, -⟩ := h.exists_result ht
  rcases h.due hserves ht hresult with rfl | ⟨hroots, hdue⟩
  · exact Or.inl hresult
  · have hsame : roots = roots₀ := hroots.trans (h₀.roots_eq hwhole hlive).symm
    have ht₀ : t ∈ discover input.options roots₀.packages := hsame ▸ ht
    obtain ⟨result₀, hresult₀, -⟩ := h₀.exists_result ht₀
    refine Or.inr ⟨hsame, ?_⟩
    rcases h₀.due hwhole ht₀ hresult₀ with rfl | ⟨-, hdue₀⟩
    · exact absurd ((h₀.cancelled_of_result hresult₀).symm.trans hlive) Bool.false_ne_true.symm
    · rw [hresult, hresult₀, hdue.unique hdue₀]

/-- A task that has succeeded has succeeded in the other run, and with the same. -/
theorem made_eq (ht : t ∈ discover input.options roots.packages) (hsucceeds : t.Succeeds results) :
    roots = roots₀ ∧ t.Succeeds results₀ ∧ t.made results = t.made results₀ := by
  obtain ⟨part, hpart⟩ := hsucceeds
  rcases h.kept hserves h₀ hwhole hlive ht with hcut | ⟨hroots, hsame⟩
  · cases hpart.symm.trans hcut
  · exact ⟨hroots, ⟨part, hsame.symm.trans hpart⟩, by rw [Task.made, Task.made, hsame]⟩

/-- **Every file is one of the other run.** -/
theorem outputs_subset {output : PackageOutput} (houtput : output ∈ r.outputs) :
    output ∈ r₀.outputs := by
  obtain ⟨first, rest, content, hcons, hall, hmake, heq⟩ :=
    Report.mem_filesAt.1 (h.mem_outputs.1 houtput)
  have hmade : ∀ t ∈ Report.tasksAt (discover input.options roots.packages) output.pkg,
      roots = roots₀ ∧ t.Succeeds results₀ ∧ t.made results = t.made results₀ := fun t ht =>
    h.made_eq hserves h₀ hwhole hlive (Report.mem_tasksAt.1 ht).1 (hall t ht)
  have hroots : roots = roots₀ := (hmade first (hcons ▸ List.mem_cons_self)).1
  have hparts : (Report.tasksAt (discover input.options roots.packages) output.pkg).filterMap
      (Task.made results) = (Report.tasksAt (discover input.options roots.packages)
        output.pkg).filterMap (Task.made results₀) :=
    List.filterMap_congr fun t ht => (hmade t ht).2.2
  rw [hparts] at hmake heq
  subst hroots
  exact h₀.mem_outputs.2 (Report.mem_filesAt.2
    ⟨first, rest, content, hcons, fun t ht => (hmade t ht).2.1, hmake, heq⟩)

/-- A root that counts and is invalid counts in the other run. -/
theorem discoverErrors_subset {e : RunError} (he : e ∈ discoverErrors input.options roots.packages) :
    e ∈ discoverErrors input.options roots₀.packages := by
  obtain ⟨p, hp, hbad, hlisted⟩ := mem_discoverErrors.1 he
  have hroots₀ : roots₀ = served input.rootRequest := h₀.roots_eq hwhole hlive
  have hfound := h.packageAt hserves (mem_firstOfEach_iff.1 hp).2
  rw [← hroots₀] at hfound
  exact mem_discoverErrors.2 ⟨p, mem_firstOfEach_iff.2 ⟨List.not_mem_nil, hfound⟩, hbad, hlisted⟩

/-- A task that has failed, and not for being cancelled, has failed in the other run. -/
theorem task_errors_subset (ht : t ∈ discover input.options roots.packages) {e : RunError}
    (he : e ∈ t.errors results) (hfailure : e.failure ≠ .cancelled) :
    roots = roots₀ ∧ e ∈ t.errors results₀ := by
  obtain ⟨failures, hresult, f, hf, rfl⟩ := Task.mem_errors.1 he
  rcases h.kept hserves h₀ hwhole hlive ht with hcut | ⟨hroots, hsame⟩
  · cases hresult.symm.trans hcut
    exact absurd (List.mem_singleton.1 hf) hfailure
  · exact ⟨hroots, Task.mem_errors.2 ⟨failures, hsame.symm.trans hresult, f, hf, rfl⟩⟩

/-- **Nothing is said against an injector that is not said in the other run**, unless it is cancelled. -/
theorem errors_subset {e : RunError} (he : e ∈ r.errors) (hinjector : e.injector ≠ none)
    (hfailure : e.failure ≠ .cancelled) : e ∈ r₀.errors := by
  rw [h.mem_errors, priorErrors, List.mem_append, List.mem_append] at he
  rw [h₀.mem_errors]
  rcases he with ((hroot | hinvalid) | hrun) | htask
  · obtain ⟨x, -, rfl⟩ := List.mem_map.1 hroot
    exact absurd rfl hinjector
  · have hinvalid₀ := h.discoverErrors_subset hserves h₀ hwhole hlive hinvalid
    exact Or.inl (List.mem_append_left _ (List.mem_append_right _ hinvalid₀))
  · split at hrun
    · rw [List.mem_singleton.1 hrun] at hfailure
      exact absurd rfl hfailure
    · cases hrun
  · rcases Report.mem_errorsAt.1 htask with ⟨t, ht, hfailed⟩ | ⟨_, _, _, -, -, -, rfl⟩
    · obtain ⟨rfl, hfailed₀⟩ := h.task_errors_subset hserves h₀ hwhole hlive
        (Report.mem_tasksAt.1 ht).1 hfailed hfailure
      exact Or.inr (Report.mem_errorsAt.2 (Or.inl ⟨t, ht, hfailed₀⟩))
    · exact absurd rfl hinjector

end Whole

end RunInput.Makes

/-- **The report of a run that may have been cancelled.**  It accounts for every task, and it says nothing that
is not said by the same run when nobody cancels it.  The report of `generate` is such a report. -/
theorem Report.cut_short (served : LoadRequest → LoadOutcome) (input : RunInput) (whole : Loader)
    (world : World) (hserves : input.loader.Serves served) (hwhole : whole.Serves served) :
    (∀ course roots results r, input.Makes course world roots results r →
      r.Settled input roots results ∧
        ∀ course₀ roots₀ results₀ r₀,
          RunInput.Makes { input with loader := whole } course₀ world roots₀ results₀ r₀ →
            r₀.cancelled = false → r.PartOf input roots roots₀ results results₀ r₀) ∧
    (input.Returns world → ∃ course roots results,
      input.Makes course world roots results (generate input world).2) := by
  constructor
  · intro course roots results r h
    constructor
    · exact ⟨h.perm_range, h.count_unfinished, fun t _ => h.cancelled_of_result, fun _ => h.withheld,
        h.cancelled_iff⟩
    · intro course₀ roots₀ results₀ r₀ h₀ hlive
      exact ⟨fun t => h.kept hserves h₀ hwhole hlive,
        fun _ => h.outputs_subset hserves h₀ hwhole hlive,
        fun _ => h.errors_subset hserves h₀ hwhole hlive⟩
  · intro hreturns
    cases hlive : world.cancelled with
    | true =>
        rw [generate_of_cancelled hlive]
        exact ⟨{}, {}, [], .refused hlive⟩
    | false =>
        obtain ⟨course, results, -, hmakes⟩ := hreturns.makes hlive
        exact ⟨course, _, results, hmakes⟩

/-- A loader under which a run is cancelled when it asks for a certain package. -/
def Loader.stalling (served : LoadRequest → LoadOutcome) (path : String) : Loader where
  answer request cancelled :=
    if cancelled || request.patterns.contains path then
      ({ errors := request.patterns.map fun p => ⟨p, loadCancelled⟩ }, true)
    else (served request, false)

theorem Loader.stalling_serves (served : LoadRequest → LoadOutcome) (path : String) :
    (stalling served path).Serves served := by
  constructor
  · intro request cancelled h
    unfold stalling at h ⊢
    dsimp only at h ⊢
    split at h
    · cases h
    next hgoing =>
      rw [Bool.or_eq_true, not_or] at hgoing
      refine ⟨by simpa using hgoing.1, ?_⟩
      rw [if_neg (by simpa using hgoing)]
  · intro request cancelled p pkg h
    unfold stalling at h
    dsimp only at h
    split at h
    · cases h
    · exact h

/-- A package that needs no other. -/
def kioskPackage : Package where
  path := "kiosk"
  providers := [{ name := "Open", output := some "Conn" }]
  injectors := [{ name := "Serve", outputs := ["Conn"], providers := ["Open"] }]

def kioskServed (request : LoadRequest) : LoadOutcome where
  packages := [kioskPackage, Preset.shopApp, Preset.shopLib].filter fun p =>
    request.patterns.contains p.path

/-- A run over this package and one that needs another. -/
def kioskRun (loader : Loader) : RunInput :=
  Preset.lazy.apply { loader, patterns := ["kiosk", "app"] }

/-- When such a run is cancelled while it loads the other package, its report is part of that of the whole
run. -/
theorem Report.cut_short_kiosk :
    ∃ roots results roots₀ results₀,
      (generate (kioskRun (.stalling kioskServed "lib")) {}).2.cancelled = true ∧
        (generate (kioskRun (.stalling kioskServed "lib")) {}).2.Settled
          (kioskRun (.stalling kioskServed "lib")) roots results ∧
        (generate (kioskRun (.stalling kioskServed "lib")) {}).2.PartOf
          (kioskRun (.stalling kioskServed "lib")) roots roots₀ results results₀
          (generate (kioskRun (.plain kioskServed)) {}).2 := by
  have hended : ((Schedule.step (kioskRun (.stalling kioskServed "lib")).setting)^[40]
      ((kioskRun (.stalling kioskServed "lib")).launch {})).ended = true := by
    decide +kernel
  have hended₀ : ((Schedule.step (kioskRun (.plain kioskServed)).setting)^[60]
      ((kioskRun (.plain kioskServed)).launch {})).ended = true := by
    decide +kernel
  have hends := Schedule.Ends.of_iterate 40 hended
  have hcut : (generate (kioskRun (.stalling kioskServed "lib")) {}).2.cancelled = true := by
    rw [hends.generate_eq rfl, reportOn_eq rfl rfl]
    decide +kernel
  have hreturns₀ : (kioskRun (.plain kioskServed)).Returns {} := fun _ => ⟨_, .of_iterate 60 hended₀⟩
  obtain ⟨course₀, results₀, hcalm, hmakes₀⟩ := hreturns₀.makes rfl
  have hlive := hmakes₀.not_cancelled hcalm (fun _ => rfl) rfl
  obtain ⟨hall, hreport⟩ := Report.cut_short kioskServed (kioskRun (.stalling kioskServed "lib"))
    (.plain kioskServed) {} (Loader.stalling_serves _ _) (Loader.plain_serves _)
  obtain ⟨course, roots, results, hmakes⟩ := hreport fun _ => ⟨_, hends⟩
  obtain ⟨hsettled, hpart⟩ := hall course roots results _ hmakes
  exact ⟨roots, results, _, results₀, hcut, hsettled,
    hpart course₀ _ results₀ _ hmakes₀ hlive⟩

end Wiring
