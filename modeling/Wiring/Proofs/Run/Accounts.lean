/-
**What a report accounts for.**

The report of a run that has not been cancelled says about every root package what has become of it.  A
package either has a file, in which all its selected injectors are listed in the order of their declaration,
or it has errors, and never both; and every failure of an injector is listed under its name.

Main definitions:

* `Wiring.LoadOutcome.Distinct` — the packages of a loader's answer can be told apart by their paths;
* `Wiring.Report.Accounts` — what a report has to say about the root packages.

Main results:

* `Wiring.Report.accounts_for_roots` — **the report of every run that has not been cancelled says it**.
-/

import Wiring.Proofs.Run.Calm

set_option autoImplicit false

namespace Wiring

/-- All packages of a loader's answer have different paths, and none of them is also among its errors. -/
structure LoadOutcome.Distinct (o : LoadOutcome) : Prop where
  packages : (o.packages.map Package.path).Nodup
  errors : ∀ p ∈ o.packages, ∀ e ∈ o.errors, e.pkg ≠ p.path

/-- The tasks of a root package. -/
def RunInput.unitsAt (input : RunInput) (roots : LoadOutcome) (p : Package) : List Task :=
  Report.tasksAt (discover input.options roots.packages) p.path

/-- What a report has to say about the root packages of a run, when its tasks have come to some results. -/
structure Report.Accounts (input : RunInput) (roots : LoadOutcome) (results : List TaskReport)
    (r : Report) : Prop where
  ascending : r.outputs.Pairwise fun a b => a.pkg < b.pkg
  sorted : r.errors.Pairwise fun a b => a.le b
  /-- A valid package has a task for each of its selected injectors, in their order. -/
  units : ∀ p ∈ roots.packages, (input.unitsAt roots p).map Task.decl =
    if p.isValid then selected input.options p else []
  /-- A package has a file if and only if all its tasks succeed and the file can be made. -/
  output_iff : ∀ p ∈ roots.packages, (∃ output ∈ r.outputs, output.pkg = p.path) ↔
    p.isValid ∧ selected input.options p ≠ [] ∧
      (∀ t ∈ input.unitsAt roots p, t.Succeeds results) ∧
        ∃ content, input.makeFile p
          (functionsOf ((input.unitsAt roots p).filterMap (Task.made results)))
          input.options.header input.options.banner = .ok content
  /-- Every file is one of a root package, and it holds what the tasks of the package have made. -/
  listed : ∀ output ∈ r.outputs, ∃ p ∈ roots.packages, output.pkg = p.path ∧
    output.injectors = (input.unitsAt roots p).filterMap (Task.made results) ∧
      output.injectors.map InjectorOutput.name =
        (selected input.options p).map InjectorDecl.name
  /-- A package that should have a file and has none has an error. -/
  reported : ∀ p ∈ roots.packages, selected input.options p ≠ [] →
    (∀ output ∈ r.outputs, output.pkg ≠ p.path) → ∃ e ∈ r.errors, e.pkg = p.path
  /-- The failures of an injector are all listed under its name, in the order of its tasks. -/
  failures : ∀ p ∈ roots.packages, p.isValid → ∀ name,
    r.errors.filter (RunError.under p.path name) =
      ((input.unitsAt roots p).filter fun t => t.decl.name = name).flatMap (Task.errors results)
  /-- An invalid package lists each of its selected injectors once, or itself if there are none. -/
  invalid : ∀ p ∈ roots.packages, p.isValid = false →
    (r.errors.filter fun e => e.pkg = p.path).Perm (invalidErrors input.options p)
  /-- No package has both a file and an error. -/
  apart : ∀ output ∈ r.outputs, ∀ e ∈ r.errors, e.pkg ≠ output.pkg

variable {input : RunInput} {course : Course} {world : World} {roots : LoadOutcome}
  {results : List TaskReport} {r : Report} {p : Package}

/-! ### Root packages -/

namespace LoadOutcome.Distinct

variable (h : roots.Distinct)
include h

theorem firstOfEach_eq : firstOfEach [] roots.packages = roots.packages :=
  firstOfEach_of_nodup h.packages fun _ _ => List.not_mem_nil

theorem mem_firstOfEach (hp : p ∈ roots.packages) : p ∈ firstOfEach [] roots.packages := by
  rwa [h.firstOfEach_eq]

/-- Before the tasks of a run have had their say only invalid packages have errors. -/
theorem filter_priorErrors (input : RunInput) (hp : p ∈ roots.packages) :
    (input.priorErrors roots false).filter (fun e => e.pkg = p.path) =
      if p.isValid then [] else invalidErrors input.options p := by
  have hroots : (rootErrors roots).filter (fun e => e.pkg = p.path) = [] := by
    rw [List.filter_eq_nil_iff]
    intro e he
    obtain ⟨x, hx, rfl⟩ := List.mem_map.1 he
    simpa using h.errors p hp x hx
  rw [RunInput.priorErrors, if_neg Bool.false_ne_true, List.append_nil, List.filter_append, hroots,
    List.nil_append, filter_discoverErrors (h.mem_firstOfEach hp)]

theorem map_units (input : RunInput) (hp : p ∈ roots.packages) : (input.unitsAt roots p).map Task.decl =
    if p.isValid then selected input.options p else [] :=
  map_decl_tasksAt_discover (h.mem_firstOfEach hp)

theorem pkg_of_mem_units (input : RunInput) {t : Task} (hp : p ∈ roots.packages)
    (ht : t ∈ input.unitsAt roots p) : t.pkg = p :=
  pkg_of_mem_tasksAt_discover (h.mem_firstOfEach hp) ht

theorem pkg_of_units_eq_cons {first : Task} {rest : List Task} (hp : p ∈ roots.packages)
    (hcons : input.unitsAt roots p = first :: rest) : first.pkg = p := by
  refine h.pkg_of_mem_units input hp ?_
  rw [hcons]
  exact List.mem_cons_self

theorem units_ne_nil_iff (hp : p ∈ roots.packages) :
    input.unitsAt roots p ≠ [] ↔ p.isValid ∧ selected input.options p ≠ [] := by
  rw [Ne, ← List.map_eq_nil_iff (f := Task.decl), h.map_units input hp]
  split
  next hvalid => simp [hvalid]
  next hinvalid => simp [hinvalid]

end LoadOutcome.Distinct

/-! ### Files -/

namespace RunInput.Makes

variable (h : input.Makes course world roots results r)
include h

/-- The file of a root package is made of what all its tasks have made. -/
theorem mem_outputs_at (hroots : roots.Distinct) (hp : p ∈ roots.packages) {output : PackageOutput} :
    output ∈ r.outputs ∧ output.pkg = p.path ↔
      input.unitsAt roots p ≠ [] ∧
        (∀ t ∈ input.unitsAt roots p, t.Succeeds results) ∧
          ∃ content, input.makeFile p
              (Report.functionsOf ((input.unitsAt roots p).filterMap (Task.made results)))
              input.options.header input.options.banner = .ok content ∧
            output = Report.outputOf input.options p
              ((input.unitsAt roots p).filterMap (Task.made results)) content := by
  constructor
  · rintro ⟨houtput, hpath⟩
    rw [h.mem_outputs, hpath] at houtput
    obtain ⟨first, rest, content, hcons, hall, hmake, rfl⟩ := Report.mem_filesAt.1 houtput
    rw [hroots.pkg_of_units_eq_cons hp hcons] at hmake ⊢
    refine ⟨?_, hall, content, hmake, rfl⟩
    intro hnone
    cases hnone.symm.trans hcons
  · rintro ⟨hsome, hall, content, hmake, rfl⟩
    obtain ⟨first, rest, hcons⟩ := List.exists_cons_of_ne_nil hsome
    refine ⟨?_, rfl⟩
    rw [h.mem_outputs]
    refine Report.mem_filesAt.2 ⟨first, rest, content, hcons, hall, ?_⟩
    rw [hroots.pkg_of_units_eq_cons hp hcons]
    exact ⟨hmake, rfl⟩

/-- Every file is one of a root package. -/
theorem exists_root {output : PackageOutput} (houtput : output ∈ r.outputs) :
    ∃ p ∈ roots.packages, output.pkg = p.path := by
  obtain ⟨first, rest, -, hcons, -⟩ := Report.mem_filesAt.1 (h.mem_outputs.1 houtput)
  have hfirst : first ∈ Report.tasksAt (discover input.options roots.packages) output.pkg := by
    rw [hcons]
    exact List.mem_cons_self
  obtain ⟨htask, hpath⟩ := Report.mem_tasksAt.1 hfirst
  exact ⟨first.pkg, (of_mem_discover htask).2.1, hpath.symm⟩

/-- What the tasks of a package have made bears the names of its injectors. -/
theorem map_name (hall : ∀ t ∈ input.unitsAt roots p, t.Succeeds results) :
    ((input.unitsAt roots p).filterMap (Task.made results)).map InjectorOutput.name =
      (input.unitsAt roots p).map fun t => t.decl.name := by
  have hsub : ∀ t ∈ input.unitsAt roots p, t ∈ discover input.options roots.packages := fun t ht =>
    (Report.mem_tasksAt.1 ht).1
  generalize input.unitsAt roots p = units at hall hsub
  induction units with
  | nil => rfl
  | cons t rest ih =>
      obtain ⟨part, hpart⟩ := hall t List.mem_cons_self
      obtain ⟨result, hresult, hcounts⟩ := h.exists_result (hsub t List.mem_cons_self)
      cases hpart.symm.trans hresult
      have hname : part.name = t.decl.name := hcounts.fits
      rw [List.filterMap_cons_some (Task.made_eq_some.2 hpart), List.map_cons, List.map_cons, hname,
        ih (fun u hu => hall u (List.mem_cons_of_mem _ hu))
          fun u hu => hsub u (List.mem_cons_of_mem _ hu)]

/-- A task that has not made its part has failures. -/
theorem exists_error {t : Task} (ht : t ∈ discover input.options roots.packages)
    (hfailed : ¬ t.Succeeds results) :
    ∃ e ∈ t.errors results, e.pkg = t.pkg.path := by
  obtain ⟨result, hresult, hcounts⟩ := h.exists_result ht
  cases result with
  | ok part => exact absurd ⟨part, hresult⟩ hfailed
  | error failures =>
      obtain ⟨f, rest, rfl⟩ := List.exists_cons_of_ne_nil hcounts.fits
      exact ⟨_, Task.mem_errors.2 ⟨_, hresult, f, List.mem_cons_self, rfl⟩, rfl⟩

/-! ### Errors -/

end RunInput.Makes

/-- An invalid package has an error for each of its selected injectors, or for itself. -/
theorem invalidErrors_ne_nil (options : Options) (p : Package) : invalidErrors options p ≠ [] := by
  unfold invalidErrors
  dsimp only
  split
  · exact List.cons_ne_nil _ _
  next hsome =>
    rw [Ne, List.map_eq_nil_iff]
    exact hsome

namespace RunInput.Makes

variable (h : input.Makes course world roots results r)
include h

/-- The errors of a valid package are those of its tasks and of its file, those of an invalid one were there
before. -/
theorem errors_at_root (hlive : r.cancelled = false) (hroots : roots.Distinct)
    (hp : p ∈ roots.packages) :
    (r.errors.filter fun e => e.pkg = p.path).Perm
      (if p.isValid then Report.errorsAt input.makeFile input.options results
        (discover input.options roots.packages) p.path else invalidErrors input.options p) := by
  have hperm := h.errors_at p.path
  rw [hlive, hroots.filter_priorErrors input hp] at hperm
  split at hperm
  next hvalid =>
    rw [if_pos hvalid]
    exact hperm
  next hinvalid =>
    have hnone : p.path ∉ Report.taskPaths (discover input.options roots.packages) := by
      intro hmem
      obtain ⟨t, ht, hpath⟩ := Report.mem_taskPaths.1 hmem
      have hpkg := hroots.pkg_of_mem_units input hp (Report.mem_tasksAt.2 ⟨ht, hpath⟩)
      exact hinvalid (hpkg ▸ (mem_firstOfEach_of_task ht).2.1)
    rw [Report.errorsAt_eq_nil hnone, List.append_nil] at hperm
    rw [if_neg hinvalid]
    exact hperm

theorem mem_errors_at_root (hlive : r.cancelled = false) (hroots : roots.Distinct)
    (hp : p ∈ roots.packages) {e : RunError} :
    e ∈ r.errors ∧ e.pkg = p.path ↔
      e ∈ if p.isValid then Report.errorsAt input.makeFile input.options results
        (discover input.options roots.packages) p.path else invalidErrors input.options p := by
  rw [← (h.errors_at_root hlive hroots hp).mem_iff, List.mem_filter, decide_eq_true_eq]

/-! ### The account -/

theorem exists_output_iff (hroots : roots.Distinct) (hp : p ∈ roots.packages) :
    (∃ output ∈ r.outputs, output.pkg = p.path) ↔
      p.isValid ∧ selected input.options p ≠ [] ∧
        (∀ t ∈ input.unitsAt roots p, t.Succeeds results) ∧
          ∃ content, input.makeFile p
            (Report.functionsOf ((input.unitsAt roots p).filterMap (Task.made results)))
            input.options.header input.options.banner = .ok content := by
  constructor
  · rintro ⟨output, houtput⟩
    obtain ⟨hunits, hall, content, hmake, -⟩ := (h.mem_outputs_at hroots hp).1 houtput
    obtain ⟨hvalid, hselected⟩ := (hroots.units_ne_nil_iff hp).1 hunits
    exact ⟨hvalid, hselected, hall, content, hmake⟩
  · rintro ⟨hvalid, hselected, hall, content, hmake⟩
    exact ⟨_, (h.mem_outputs_at hroots hp).2
      ⟨(hroots.units_ne_nil_iff hp).2 ⟨hvalid, hselected⟩, hall, content, hmake, rfl⟩⟩

/-- A file lists the selected injectors of its package in their order. -/
theorem listed (hroots : roots.Distinct) {output : PackageOutput} (houtput : output ∈ r.outputs) :
    ∃ p ∈ roots.packages, output.pkg = p.path ∧
      output.injectors = (input.unitsAt roots p).filterMap (Task.made results) ∧
        output.injectors.map InjectorOutput.name =
          (selected input.options p).map InjectorDecl.name := by
  obtain ⟨p, hp, hpath⟩ := h.exists_root houtput
  obtain ⟨hunits, hall, content, -, rfl⟩ := (h.mem_outputs_at hroots hp).1 ⟨houtput, hpath⟩
  have hdecls := hroots.map_units input hp
  rw [if_pos ((hroots.units_ne_nil_iff hp).1 hunits).1] at hdecls
  refine ⟨p, hp, hpath, rfl, ?_⟩
  rw [← hdecls, List.map_map]
  exact h.map_name hall

/-- A package without a file has an error: it is invalid, or a task has failed, or the file cannot be
made. -/
theorem reported (hlive : r.cancelled = false) (hroots : roots.Distinct) (hp : p ∈ roots.packages)
    (hselected : selected input.options p ≠ []) (hnone : ∀ output ∈ r.outputs, output.pkg ≠ p.path) :
    ∃ e ∈ r.errors, e.pkg = p.path := by
  have hexists : ∃ e, e ∈ r.errors ∧ e.pkg = p.path := by
    simp only [h.mem_errors_at_root hlive hroots hp]
    split
    next hvalid =>
      by_cases hall : ∀ t ∈ input.unitsAt roots p, t.Succeeds results
      · cases hmake : input.makeFile p
            (Report.functionsOf ((input.unitsAt roots p).filterMap (Task.made results)))
            input.options.header input.options.banner with
        | ok content =>
            obtain ⟨output, houtput, hpath⟩ :=
              (h.exists_output_iff hroots hp).2 ⟨hvalid, hselected, hall, content, hmake⟩
            exact absurd hpath (hnone output houtput)
        | error reason =>
            obtain ⟨first, rest, hcons⟩ := List.exists_cons_of_ne_nil
              ((hroots.units_ne_nil_iff hp).2 ⟨hvalid, hselected⟩)
            have hpkg := hroots.pkg_of_units_eq_cons hp hcons
            exact ⟨_, Report.mem_errorsAt.2
              (Or.inr ⟨first, rest, reason, hcons, hall, hpkg.symm ▸ hmake, rfl⟩)⟩
      · obtain ⟨t, ht, hfailed⟩ : ∃ t ∈ input.unitsAt roots p,
            ¬ t.Succeeds results := by
          simpa only [not_forall, exists_prop] using hall
        obtain ⟨e, he, -⟩ := h.exists_error (Report.mem_tasksAt.1 ht).1 hfailed
        exact ⟨e, Report.mem_errorsAt.2 (Or.inl ⟨t, ht, he⟩)⟩
    next hinvalid =>
      exact List.exists_mem_of_ne_nil _ (invalidErrors_ne_nil _ _)
  exact hexists

/-- The failures of an injector are listed under its name in the order of its tasks. -/
theorem failures_under (hlive : r.cancelled = false) (hroots : roots.Distinct)
    (hp : p ∈ roots.packages) (hvalid : p.isValid) (name : String) :
    r.errors.filter (RunError.under p.path name) =
      ((input.unitsAt roots p).filter fun t => t.decl.name = name).flatMap
        (Task.errors results) := by
  have hprior : (input.priorErrors roots false).filter (RunError.under p.path name) = [] := by
    have hnone := hroots.filter_priorErrors input hp
    rw [if_pos hvalid, List.filter_eq_nil_iff] at hnone
    rw [List.filter_eq_nil_iff]
    intro e he hunder
    refine hnone e he ?_
    simp only [RunError.under, Bool.decide_and, Bool.and_eq_true] at hunder
    exact hunder.1
  rw [h.errors_under, hlive, hprior, List.nil_append]
  rfl

/-- No package has both a file and an error. -/
theorem apart (hlive : r.cancelled = false) (hroots : roots.Distinct) {output : PackageOutput}
    {e : RunError} (houtput : output ∈ r.outputs) (he : e ∈ r.errors) : e.pkg ≠ output.pkg := by
  intro hsame
  obtain ⟨p, hp, hpath⟩ := h.exists_root houtput
  obtain ⟨hvalid, -, hall, content, hmake⟩ := (h.exists_output_iff hroots hp).1 ⟨output, houtput, hpath⟩
  have herror := (h.mem_errors_at_root hlive hroots hp).1 ⟨he, hsame.trans hpath⟩
  rw [if_pos hvalid] at herror
  rcases Report.mem_errorsAt.1 herror with ⟨t, ht, hfailed⟩ | ⟨first, rest, reason, hcons, -, hrefused, -⟩
  · rw [(hall t ht).errors_eq_nil] at hfailed
    cases hfailed
  · rw [hroots.pkg_of_units_eq_cons hp hcons] at hrefused
    cases hmake.symm.trans hrefused

end RunInput.Makes

/-- **The report of a run that has not been cancelled accounts for all root packages.**  The report of
`generate` is one of these. -/
theorem Report.accounts_for_roots (input : RunInput) (world : World) :
    (∀ course roots results r, input.Makes course world roots results r → r.cancelled = false →
      roots.Distinct → r.Accounts input roots results) ∧
    (input.Returns world → world.cancelled = false → ∃ course results,
      input.Makes course world (world.call input.loader input.rootRequest).2 results
        (generate input world).2) := by
  constructor
  · intro course roots results r h hlive hroots
    obtain ⟨finished, w, hr, hresults⟩ := h.exists_report
    constructor
    · rw [hr, outputs_reportOn rfl hresults]
      exact pairwise_files _ _ _ _
    · rw [hr, errors_reportOn rfl hresults]
      exact RunError.pairwise_mergeSort _
    · exact fun p hp => hroots.map_units input hp
    · exact fun p hp => h.exists_output_iff hroots hp
    · exact fun output houtput => h.listed hroots houtput
    · exact fun p hp => h.reported hlive hroots hp
    · exact fun p hp => h.failures_under hlive hroots hp
    · intro p hp hinvalid
      have hperm := h.errors_at_root hlive hroots hp
      rwa [if_neg (by simp [hinvalid])] at hperm
    · exact fun output houtput e he => h.apart hlive hroots houtput he
  · intro h hlive
    obtain ⟨course, results, -, hmakes⟩ := h.makes hlive
    exact ⟨course, results, hmakes⟩

/-- A package with an injector that can be made. -/
def tillPackage : Package where
  path := "till"
  imports := ["lib"]
  injectors := [{ name := "Count", outputs := ["Conn"], sets := ["lib.Base"] }]

/-- A package that did not load as it should. -/
def tornPackage : Package where
  path := "torn"
  errors := ["no such type"]
  injectors := [{ name := "Mend", outputs := ["Conn"] }]

/-- A run over a package that gets a file, one that is invalid and one of which an injector fails. -/
def marketRun : RunInput :=
  (Preset.parallelLazy 2).apply
    { loader :=
        { pauses := 1
          answer := fun request cancelled =>
            ({ packages := [tillPackage, tornPackage, Preset.shopApp, Preset.shopLib].filter fun p =>
                 request.patterns.contains p.path
               errors := if request.patterns.contains "lost" then [⟨"lost", "disk error"⟩] else [] },
              cancelled) }
      patterns := ["till", "torn", "app"] }

/-- What the loader answers for the patterns of the run. -/
def marketRoots : LoadOutcome :=
  { packages := [tillPackage, tornPackage, Preset.shopApp] }

theorem calm_marketRun : marketRun.loader.Calm :=
  fun _ => rfl

/-- The report of this run accounts for all three packages. -/
theorem Report.accounts_for_roots_market :
    ∃ course results, marketRun.Makes course {} marketRoots results (generate marketRun {}).2 ∧
      (generate marketRun {}).2.Accounts marketRun marketRoots results := by
  have hended : ((Schedule.step marketRun.setting)^[60] (marketRun.launch {})).ended = true := by
    decide +kernel
  have hreturns : marketRun.Returns {} := fun _ => ⟨_, Schedule.Ends.of_iterate 60 hended⟩
  obtain ⟨course, results, hcourse, hmakes⟩ := hreturns.makes rfl
  have hlive : (generate marketRun {}).2.cancelled = false :=
    hmakes.not_cancelled hcourse calm_marketRun rfl
  have hdistinct : marketRoots.Distinct := ⟨by decide, by simp [marketRoots]⟩
  exact ⟨course, results, hmakes,
    (Report.accounts_for_roots marketRun {}).1 course marketRoots results _ hmakes hlive hdistinct⟩

end Wiring
