/-
**What a report is made of.**

A report is put together package by package, sorted, and from then on nothing tells where its parts come
from.  This module says what they are: the files of the packages whose tasks have all made their parts,
and for every injector the failures of its tasks, in the order of the tasks.  It says so for any results,
however they have come about.

Main definitions:

* `Wiring.Task.made`, `Wiring.Task.errors` — what a task adds to a report;
* `Wiring.Report.attempt` — what comes of making the file of a package;
* `Wiring.Report.filesAt`, `Wiring.Report.errorsAt` — what a package adds to a report;
* `Wiring.RunInput.priorErrors` — the errors that have nothing to do with tasks.

Main results:

* `Wiring.Report.assemble_eq` — the packages add to a report one after the other;
* `Wiring.outputs_reportOn`, `Wiring.errors_reportOn` — the outputs and the errors of a report;
* `Wiring.errors_reportOn_under` — **the errors under the name of an injector**.
-/

import Wiring.Proofs.Search
import Wiring.Proofs.Sorting
import Wiring.Proofs.Run.Agreement

set_option autoImplicit false

namespace Wiring

/-! ### Lists -/

/-- Of the elements of a list without repetitions only one adds anything. -/
theorem flatMap_eq_of_single {α β : Type} {l : List α} {f : α → List β} {a : α} (hnodup : l.Nodup)
    (hother : ∀ x ∈ l, x ≠ a → f x = []) (hmissing : a ∉ l → f a = []) : l.flatMap f = f a := by
  induction l with
  | nil => exact (hmissing List.not_mem_nil).symm
  | cons x rest ih =>
      obtain ⟨hx, hrest⟩ := List.nodup_cons.1 hnodup
      rw [List.flatMap_cons]
      by_cases hxa : x = a
      · subst hxa
        have hnothing : rest.flatMap f = [] := by
          rw [List.flatMap_eq_nil_iff]
          exact fun y hy => hother y (List.mem_cons_of_mem _ hy) fun hyx => hx (hyx ▸ hy)
        rw [hnothing, List.append_nil]
      · rw [hother x List.mem_cons_self hxa, List.nil_append]
        refine ih hrest (fun y hy => hother y (List.mem_cons_of_mem _ hy)) ?_
        intro ha
        refine hmissing ?_
        rw [List.mem_cons, not_or]
        exact ⟨fun hax => hxa hax.symm, ha⟩

/-! ### The order of a report -/

namespace PackageCache

variable {cache : PackageCache} {path : String}

/-- The packages that loaded are those whose slots are ready. -/
theorem mem_loadedPaths (h : cache.slots.Distinct) :
    path ∈ cache.loadedPaths ↔ ∃ pkg, cache.slots.get? path = some (.ready pkg) := by
  simp only [loadedPaths, List.mem_mergeSort, List.mem_filterMap, Prod.exists, h.get?_eq_some_iff]
  constructor
  · rintro ⟨key, slot, hmem, hkey⟩
    cases slot with
    | ready pkg =>
        cases hkey
        exact ⟨pkg, hmem⟩
    | pending marker => cases hkey
    | failed failure => cases hkey
  · rintro ⟨pkg, hmem⟩
    exact ⟨path, .ready pkg, hmem, rfl⟩

/-- The packages that loaded come in strictly ascending order. -/
theorem pairwise_loadedPaths (h : cache.slots.Distinct) : cache.loadedPaths.Pairwise (· < ·) := by
  have hkeys : cache.slots.entries.Pairwise fun a b => a.1 ≠ b.1 := List.pairwise_map.1 h
  refine pairwise_lt_mergeSort (hkeys.filterMap _ ?_)
  rintro ⟨key, slot⟩ ⟨key', slot'⟩ hne path hpath path' hpath'
  cases slot with
  | pending marker => cases hpath
  | failed failure => cases hpath
  | ready pkg =>
      cases slot' with
      | pending marker => cases hpath'
      | failed failure => cases hpath'
      | ready pkg' =>
          cases hpath
          cases hpath'
          exact hne

end PackageCache

namespace RunError

theorem injectorLe_trans {a b c : Option String} (h : injectorLe a b) (h' : injectorLe b c) :
    injectorLe a c := by
  cases a with
  | none => rfl
  | some a =>
      cases b with
      | none => cases h
      | some b =>
          cases c with
          | none => cases h'
          | some c =>
              simp only [injectorLe, Bool.not_eq_true', decide_eq_false_iff_not] at h h' ⊢
              exact not_lt_trans h h'

theorem injectorLe_total (a b : Option String) : injectorLe a b ∨ injectorLe b a := by
  cases a with
  | none => exact Or.inl rfl
  | some a =>
      cases b with
      | none => exact Or.inr rfl
      | some b =>
          simp only [injectorLe, Bool.not_eq_true', decide_eq_false_iff_not, String.not_lt]
          exact String.le_total a b

theorem le_iff {a b : RunError} :
    a.le b ↔ a.pkg < b.pkg ∨ a.pkg = b.pkg ∧ injectorLe a.injector b.injector := by
  simp [le]

theorem le_trans {a b c : RunError} (h : a.le b) (h' : b.le c) : a.le c := by
  rw [le_iff] at *
  rcases h with h | ⟨hpkg, h⟩
  · rcases h' with h' | ⟨hpkg', -⟩
    · exact Or.inl (String.lt_trans h h')
    · exact Or.inl (hpkg' ▸ h)
  · rcases h' with h' | ⟨hpkg', h'⟩
    · exact Or.inl (hpkg ▸ h')
    · exact Or.inr ⟨hpkg.trans hpkg', injectorLe_trans h h'⟩

theorem le_total (a b : RunError) : a.le b || b.le a := by
  rw [Bool.or_eq_true, le_iff, le_iff]
  rcases Std.lt_trichotomy a.pkg b.pkg with h | h | h
  · exact Or.inl (Or.inl h)
  · rcases injectorLe_total a.injector b.injector with hle | hle
    · exact Or.inl (Or.inr ⟨h, hle⟩)
    · exact Or.inr (Or.inr ⟨h.symm, hle⟩)
  · exact Or.inr (Or.inl h)

theorem pairwise_mergeSort (errors : List RunError) :
    (errors.mergeSort le).Pairwise fun a b => a.le b :=
  @List.pairwise_mergeSort RunError le (fun _ _ _ h h' => le_trans h h') le_total errors

end RunError

namespace Report

variable {tasks : List Task} {path : String}

theorem mem_taskPaths : path ∈ taskPaths tasks ↔ ∃ t ∈ tasks, t.pkg.path = path := by
  simp [taskPaths, List.mem_mergeSort, List.mem_eraseDups]

/-- The packages come in strictly ascending order. -/
theorem pairwise_taskPaths (tasks : List Task) : (taskPaths tasks).Pairwise (· < ·) :=
  pairwise_lt_mergeSort (nodup_eraseDups _)

theorem nodup_taskPaths (tasks : List Task) : (taskPaths tasks).Nodup := by
  refine (pairwise_taskPaths tasks).imp ?_
  rintro a b h rfl
  exact String.lt_irrefl a h

end Report

/-- An error belongs to an injector of a package. -/
def RunError.under (path name : String) (e : RunError) : Bool :=
  e.pkg = path ∧ e.injector = some name

/-! ### What a task adds -/

namespace Task

/-- What a task has made. -/
def made (results : List TaskReport) (t : Task) : Option InjectorOutput :=
  match resultAt results t.index with
  | some (.ok output) => some output
  | _ => none

/-- A task has made its part. -/
def Succeeds (results : List TaskReport) (t : Task) : Prop :=
  ∃ part, resultAt results t.index = some (.ok part)

/-- The failures of a task, under the name of its injector. -/
def errors (results : List TaskReport) (t : Task) : List RunError :=
  match resultAt results t.index with
  | some (.error failures) => failures.map fun f => ⟨t.pkg.path, some t.decl.name, f⟩
  | _ => []

variable {results : List TaskReport} {t : Task}

theorem made_eq_some {output : InjectorOutput} :
    t.made results = some output ↔ resultAt results t.index = some (.ok output) := by
  unfold made
  split
  next h => simp [h]
  next h => exact ⟨nofun, fun he => absurd he (h output)⟩

theorem mem_errors {e : RunError} :
    e ∈ t.errors results ↔ ∃ failures, resultAt results t.index = some (.error failures) ∧
      ∃ f ∈ failures, e = ⟨t.pkg.path, some t.decl.name, f⟩ := by
  unfold errors
  split
  next failures h => simp [h, eq_comm]
  next h => exact ⟨nofun, fun ⟨failures, hfailures, _⟩ => absurd hfailures (h failures)⟩

theorem isSome_made : (t.made results).isSome = true ↔ t.Succeeds results := by
  rw [Option.isSome_iff_exists]
  exact exists_congr fun part => made_eq_some

/-- A task that has made its part adds no errors. -/
theorem Succeeds.errors_eq_nil (h : t.Succeeds results) : t.errors results = [] := by
  obtain ⟨part, hpart⟩ := h
  rw [errors, hpart]

end Task

namespace Report

variable {make : FileMaker} {options : Options} {results : List TaskReport} {tasks : List Task}
  {path : String}

theorem taskOutputs_resultsOf (tasks : List Task) (results : List TaskReport) :
    taskOutputs (resultsOf tasks results) = tasks.filterMap (Task.made results) := by
  unfold taskOutputs resultsOf
  rw [List.filterMap_filterMap]
  refine List.filterMap_congr ?_
  intro t _
  unfold Task.made resultAt
  cases results.find? fun r => r.index = t.index with
  | none => rfl
  | some r => cases hr : r.result <;> simp [hr]

theorem taskErrors_resultsOf (h : ∀ t ∈ tasks, t.pkg.path = path) :
    taskErrors path (resultsOf tasks results) = tasks.flatMap (Task.errors results) := by
  induction tasks with
  | nil => rfl
  | cons t rest ih =>
      have hrest := ih fun u hu => h u (List.mem_cons_of_mem _ hu)
      rw [List.flatMap_cons, ← hrest, Task.errors, resultAt]
      unfold taskErrors resultsOf
      rw [List.filterMap_cons]
      cases results.find? fun r => r.index = t.index with
      | none => rfl
      | some r => cases hr : r.result <;> simp [hr, h t List.mem_cons_self]

/-! ### What a package adds -/

/-- The tasks of a package. -/
def tasksAt (tasks : List Task) (path : String) : List Task :=
  tasks.filter fun t => t.pkg.path = path

theorem mem_tasksAt {t : Task} : t ∈ tasksAt tasks path ↔ t ∈ tasks ∧ t.pkg.path = path := by
  simp [tasksAt]

/-- What comes of making the file of a package, if every one of its tasks has made its part. -/
def attempt (make : FileMaker) (options : Options) (results : List TaskReport) :
    List Task → Option (Except RunError PackageOutput)
  | [] => none
  | first :: rest =>
    let parts := (first :: rest).filterMap (Task.made results)
    if parts.length = (first :: rest).length then
      match make first.pkg (functionsOf parts) options.header options.banner with
      | .ok content => some (.ok (outputOf options first.pkg parts content))
      | .error reason => some (.error { pkg := first.pkg.path, failure := .render reason })
    else none

/-- The file of a package, if it gets one. -/
def filesAt (make : FileMaker) (options : Options) (results : List TaskReport) (tasks : List Task)
    (path : String) : List PackageOutput :=
  match attempt make options results (tasksAt tasks path) with
  | some (.ok output) => [output]
  | _ => []

/-- The errors of a package: those of its tasks in their order, and then that of its file. -/
def errorsAt (make : FileMaker) (options : Options) (results : List TaskReport) (tasks : List Task)
    (path : String) : List RunError :=
  (tasksAt tasks path).flatMap (Task.errors results) ++
    match attempt make options results (tasksAt tasks path) with
    | some (.error e) => [e]
    | _ => []

theorem addPackage_eq (path : String) (r : Report) :
    addPackage make options results r (tasksAt tasks path) =
      { r with
        outputs := r.outputs ++ filesAt make options results tasks path
        errors := r.errors ++ errorsAt make options results tasks path } := by
  unfold filesAt errorsAt
  have hpath : ∀ t ∈ tasksAt tasks path, t.pkg.path = path := fun t ht => (mem_tasksAt.1 ht).2
  generalize tasksAt tasks path = tasks at hpath
  cases tasks with
  | nil => simp [addPackage, attempt]
  | cons first rest =>
      obtain rfl := hpath first List.mem_cons_self
      unfold addPackage attempt
      dsimp only
      rw [taskOutputs_resultsOf, taskErrors_resultsOf hpath]
      split
      · cases make first.pkg _ _ _ with
        | ok content => simp [withErrors]
        | error reason => simp [withErrors]
      · simp [withErrors]

/-- **The packages add to a report one after the other.** -/
theorem assemble_eq (r : Report) :
    assemble make options r tasks results =
      { r with
        outputs := r.outputs ++ (taskPaths tasks).flatMap (filesAt make options results tasks)
        errors := r.errors ++ (taskPaths tasks).flatMap (errorsAt make options results tasks) } := by
  have hfold : ∀ (paths : List String) (r : Report),
      paths.foldl (fun r path => addPackage make options results r (tasksAt tasks path)) r =
        { r with
          outputs := r.outputs ++ paths.flatMap (filesAt make options results tasks)
          errors := r.errors ++ paths.flatMap (errorsAt make options results tasks) } := by
    intro paths
    induction paths with
    | nil => intro r; simp
    | cons path rest ih =>
        intro r
        rw [List.foldl_cons, addPackage_eq, ih]
        simp
  exact hfold (taskPaths tasks) r

/-- The file of a package can be tried when every task has made its part. -/
theorem attempt_eq_some {result : Except RunError PackageOutput} :
    attempt make options results tasks = some result ↔
      ∃ first rest, tasks = first :: rest ∧ (∀ t ∈ tasks, t.Succeeds results) ∧
        result = match make first.pkg (functionsOf (tasks.filterMap (Task.made results)))
            options.header options.banner with
          | .ok content =>
            .ok (outputOf options first.pkg (tasks.filterMap (Task.made results)) content)
          | .error reason => .error { pkg := first.pkg.path, failure := .render reason } := by
  cases tasks with
  | nil => simp [attempt]
  | cons first rest =>
      have hall : ((first :: rest).filterMap (Task.made results)).length = (first :: rest).length ↔
          ∀ t ∈ first :: rest, t.Succeeds results :=
        List.filterMap_length_eq_length.trans (forall₂_congr fun t _ => Task.isSome_made)
      constructor
      · intro h
        unfold attempt at h
        dsimp only at h
        split at h
        next hlength =>
          refine ⟨first, rest, rfl, hall.1 hlength, ?_⟩
          cases hmake : make first.pkg _ _ _ with
          | ok content => simpa [hmake, eq_comm] using h
          | error reason => simpa [hmake, eq_comm] using h
        · cases h
      · rintro ⟨_, _, hcons, hsucceeds, rfl⟩
        cases hcons
        unfold attempt
        dsimp only
        rw [if_pos (hall.2 hsucceeds)]
        cases make first.pkg _ _ _ <;> rfl

/-- A package gets a file when every one of its tasks has made its part and the file can be made. -/
theorem mem_filesAt {output : PackageOutput} :
    output ∈ filesAt make options results tasks path ↔
      ∃ first rest content, tasksAt tasks path = first :: rest ∧
        (∀ t ∈ tasksAt tasks path, t.Succeeds results) ∧
        make first.pkg (functionsOf ((tasksAt tasks path).filterMap (Task.made results)))
          options.header options.banner = .ok content ∧
        output = outputOf options first.pkg
          ((tasksAt tasks path).filterMap (Task.made results)) content := by
  have hfiles : output ∈ filesAt make options results tasks path ↔
      attempt make options results (tasksAt tasks path) = some (.ok output) := by
    unfold filesAt
    split
    next h => simp [h, eq_comm]
    next h => exact ⟨nofun, fun he => absurd he (h output)⟩
  rw [hfiles, attempt_eq_some]
  constructor
  · rintro ⟨first, rest, hcons, hall, hmade⟩
    split at hmade
    next content hmake => exact ⟨first, rest, content, hcons, hall, hmake, by simpa using hmade⟩
    · cases hmade
  · rintro ⟨first, rest, content, hcons, hall, hmake, rfl⟩
    exact ⟨first, rest, hcons, hall, by rw [hmake]⟩

theorem mem_errorsAt {e : RunError} :
    e ∈ errorsAt make options results tasks path ↔
      (∃ t ∈ tasksAt tasks path, e ∈ t.errors results) ∨
      ∃ first rest reason, tasksAt tasks path = first :: rest ∧
        (∀ t ∈ tasksAt tasks path, t.Succeeds results) ∧
        make first.pkg (functionsOf ((tasksAt tasks path).filterMap (Task.made results)))
          options.header options.banner = .error reason ∧
        e = { pkg := first.pkg.path, failure := .render reason } := by
  have hrefusal : (e ∈ match attempt make options results (tasksAt tasks path) with
      | some (.error e) => [e]
      | _ => []) ↔ attempt make options results (tasksAt tasks path) = some (.error e) := by
    split
    next h => simp [h, eq_comm]
    next h => exact ⟨nofun, fun he => absurd he (h e)⟩
  rw [errorsAt, List.mem_append, List.mem_flatMap, hrefusal, attempt_eq_some]
  refine or_congr_right ?_
  constructor
  · rintro ⟨first, rest, hcons, hall, hmade⟩
    split at hmade
    · cases hmade
    next reason hmake => exact ⟨first, rest, reason, hcons, hall, hmake, by simpa using hmade⟩
  · rintro ⟨first, rest, reason, hcons, hall, hmake, rfl⟩
    exact ⟨first, rest, hcons, hall, by rw [hmake]⟩

theorem pkg_of_mem_filesAt {output : PackageOutput}
    (h : output ∈ filesAt make options results tasks path) : output.pkg = path := by
  obtain ⟨first, rest, content, hcons, -, -, rfl⟩ := mem_filesAt.1 h
  have hfirst : first ∈ tasksAt tasks path := by
    rw [hcons]
    exact List.mem_cons_self
  exact (mem_tasksAt.1 hfirst).2

theorem pkg_of_mem_errorsAt {e : RunError} (h : e ∈ errorsAt make options results tasks path) :
    e.pkg = path := by
  rcases mem_errorsAt.1 h with ⟨t, ht, he⟩ | ⟨first, rest, reason, hcons, -, -, rfl⟩
  · obtain ⟨failures, -, f, -, rfl⟩ := Task.mem_errors.1 he
    exact (mem_tasksAt.1 ht).2
  · have hfirst : first ∈ tasksAt tasks path := by
      rw [hcons]
      exact List.mem_cons_self
    exact (mem_tasksAt.1 hfirst).2

/-- The files of all packages come in strictly ascending order, for a package has at most one. -/
theorem pairwise_files (make : FileMaker) (options : Options) (results : List TaskReport)
    (tasks : List Task) :
    ((taskPaths tasks).flatMap (filesAt make options results tasks)).Pairwise
      fun a b => a.pkg < b.pkg := by
  rw [List.pairwise_flatMap]
  constructor
  · intro path _
    unfold filesAt
    split
    · exact List.pairwise_singleton _ _
    · exact List.Pairwise.nil
  · refine (pairwise_taskPaths tasks).imp ?_
    intro path path' hlt output houtput output' houtput'
    rwa [pkg_of_mem_filesAt houtput, pkg_of_mem_filesAt houtput']

theorem mem_files {output : PackageOutput} :
    output ∈ (taskPaths tasks).flatMap (filesAt make options results tasks) ↔
      output ∈ filesAt make options results tasks output.pkg := by
  rw [List.mem_flatMap]
  constructor
  · rintro ⟨path, -, h⟩
    rwa [pkg_of_mem_filesAt h]
  · intro h
    refine ⟨output.pkg, ?_, h⟩
    obtain ⟨first, rest, -, hcons, -⟩ := mem_filesAt.1 h
    have hfirst : first ∈ tasksAt tasks output.pkg := by
      rw [hcons]
      exact List.mem_cons_self
    exact mem_taskPaths.2 ⟨first, mem_tasksAt.1 hfirst⟩

theorem errorsAt_eq_nil (h : path ∉ taskPaths tasks) :
    errorsAt make options results tasks path = [] := by
  have hnone : tasksAt tasks path = [] := by
    rw [List.eq_nil_iff_forall_not_mem]
    exact fun t ht => h (mem_taskPaths.2 ⟨t, mem_tasksAt.1 ht⟩)
  rw [errorsAt, hnone]
  rfl

/-- Of all errors only those of a package are about it. -/
theorem filter_errors {p : RunError → Bool} (hp : ∀ e, p e → e.pkg = path) :
    ((taskPaths tasks).flatMap (errorsAt make options results tasks)).filter p =
      (errorsAt make options results tasks path).filter p := by
  rw [List.filter_flatMap]
  refine flatMap_eq_of_single (nodup_taskPaths tasks) ?_ ?_
  · intro other _ hne
    rw [List.filter_eq_nil_iff]
    intro e he hpe
    exact hne ((pkg_of_mem_errorsAt he).symm.trans (hp e hpe))
  · intro hmissing
    rw [errorsAt_eq_nil hmissing]
    rfl

theorem mem_allErrors {e : RunError} :
    e ∈ (taskPaths tasks).flatMap (errorsAt make options results tasks) ↔
      e ∈ errorsAt make options results tasks e.pkg := by
  rw [List.mem_flatMap]
  constructor
  · rintro ⟨path, -, h⟩
    rwa [pkg_of_mem_errorsAt h]
  · intro h
    refine ⟨e.pkg, ?_, h⟩
    by_contra hmissing
    rw [errorsAt_eq_nil hmissing] at h
    cases h

/-- What is put under the name of an injector are the failures of its tasks, in their order. -/
theorem filter_errorsAt_under (path name : String) :
    (errorsAt make options results tasks path).filter (RunError.under path name) =
      ((tasksAt tasks path).filter fun t => t.decl.name = name).flatMap (Task.errors results) := by
  have hrefusal : (match attempt make options results (tasksAt tasks path) with
      | some (.error e) => [e]
      | _ => []).filter (RunError.under path name) = [] := by
    split
    next e h =>
      obtain ⟨first, rest, -, -, he⟩ := attempt_eq_some.1 h
      split at he
      · cases he
      · cases he
        simp [RunError.under]
    · rfl
  rw [errorsAt, List.filter_append, hrefusal, List.append_nil]
  have hpath : ∀ t ∈ tasksAt tasks path, t.pkg.path = path := fun t ht => (mem_tasksAt.1 ht).2
  generalize tasksAt tasks path = tasks at hpath
  induction tasks with
  | nil => rfl
  | cons t rest ih =>
      have hrest := ih fun u hu => hpath u (List.mem_cons_of_mem _ hu)
      rw [List.flatMap_cons, List.filter_append, hrest]
      by_cases hname : t.decl.name = name
      · have hall : (t.errors results).filter (RunError.under path name) = t.errors results := by
          rw [List.filter_eq_self]
          intro e he
          obtain ⟨failures, -, f, -, rfl⟩ := Task.mem_errors.1 he
          simp [RunError.under, hname, hpath t List.mem_cons_self]
        rw [List.filter_cons_of_pos (by simpa using hname), List.flatMap_cons, hall]
      · have hnone : (t.errors results).filter (RunError.under path name) = [] := by
          rw [List.filter_eq_nil_iff]
          intro e he
          obtain ⟨failures, -, f, -, rfl⟩ := Task.mem_errors.1 he
          simp [RunError.under, hname]
        rw [List.filter_cons_of_neg (by simpa using hname), hnone, List.nil_append]

end Report

/-! ### Reports -/

/-- The errors of a run that have nothing to do with its tasks. -/
def RunInput.priorErrors (input : RunInput) (roots : LoadOutcome) (cancelled : Bool) :
    List RunError :=
  rootErrors roots ++ discoverErrors input.options roots.packages ++
    if cancelled then [{ pkg := "", failure := .cancelled }] else []

section Reports

variable {input : RunInput} {roots : LoadOutcome} {cancelled : Bool} {finished : List TaskReport}
  {world : World} {tasks : List Task} {results : List TaskReport}
  (htasks : tasks = discover input.options roots.packages)
  (hresults : results = Schedule.complete cancelled finished tasks.length)

include htasks hresults

theorem reportOn_eq :
    reportOn input roots cancelled finished world =
      Report.sorted
        { outputs := (Report.taskPaths tasks).flatMap
            (Report.filesAt input.makeFile input.options results tasks)
          errors := input.priorErrors roots cancelled ++ (Report.taskPaths tasks).flatMap
            (Report.errorsAt input.makeFile input.options results tasks)
          cancelled
          loaded := world.packages.loadedPaths } := by
  subst htasks hresults
  unfold reportOn RunInput.priorErrors
  dsimp only
  rw [Report.assemble_eq]
  cases cancelled <;> simp [Report.withErrors, Report.cut]

/-- The files come in the order of their packages from the beginning. -/
theorem outputs_reportOn :
    (reportOn input roots cancelled finished world).outputs =
      (Report.taskPaths tasks).flatMap
        (Report.filesAt input.makeFile input.options results tasks) := by
  rw [reportOn_eq htasks hresults]
  refine List.mergeSort_of_pairwise ?_
  refine (Report.pairwise_files _ _ _ _).imp ?_
  intro a b hlt
  simpa [Report.outputLe] using String.lt_asymm hlt

theorem mem_outputs_reportOn {output : PackageOutput} :
    output ∈ (reportOn input roots cancelled finished world).outputs ↔
      output ∈ Report.filesAt input.makeFile input.options results tasks output.pkg := by
  rw [outputs_reportOn htasks hresults, Report.mem_files]

theorem errors_reportOn :
    (reportOn input roots cancelled finished world).errors =
      (input.priorErrors roots cancelled ++ (Report.taskPaths tasks).flatMap
        (Report.errorsAt input.makeFile input.options results tasks)).mergeSort RunError.le := by
  rw [reportOn_eq htasks hresults]
  rfl

theorem mem_errors_reportOn {e : RunError} :
    e ∈ (reportOn input roots cancelled finished world).errors ↔
      e ∈ input.priorErrors roots cancelled ∨
        e ∈ Report.errorsAt input.makeFile input.options results tasks e.pkg := by
  rw [errors_reportOn htasks hresults, List.mem_mergeSort, List.mem_append, Report.mem_allErrors]

/-- The errors of a package, in the order of the report. -/
theorem errors_reportOn_at (path : String) :
    ((reportOn input roots cancelled finished world).errors.filter fun e => e.pkg = path).Perm
      (((input.priorErrors roots cancelled).filter fun e => e.pkg = path) ++
        Report.errorsAt input.makeFile input.options results tasks path) := by
  have hall : ∀ e ∈ Report.errorsAt input.makeFile input.options results tasks path,
      decide (e.pkg = path) = true := fun e he => decide_eq_true (Report.pkg_of_mem_errorsAt he)
  rw [errors_reportOn htasks hresults]
  refine ((List.mergeSort_perm _ _).filter _).trans ?_
  rw [List.filter_append, Report.filter_errors fun e he => of_decide_eq_true he, List.filter_eq_self.2 hall]

/-- **The errors under the name of an injector** are those that were there before and then the failures
of its tasks, in their order. -/
theorem errors_reportOn_under (path name : String) :
    (reportOn input roots cancelled finished world).errors.filter (RunError.under path name) =
      (input.priorErrors roots cancelled).filter (RunError.under path name) ++
        ((Report.tasksAt tasks path).filter fun t => t.decl.name = name).flatMap
          (Task.errors results) := by
  have hunder : ∀ e, RunError.under path name e → e.pkg = path ∧ e.injector = some name := by
    simp [RunError.under]
  -- all errors under one name are equal in the order of the report
  have hequal : ∀ l : List RunError, (l.filter (RunError.under path name)).Pairwise
      fun a b => a.le b := by
    intro l
    rw [List.pairwise_filter]
    refine List.pairwise_of_forall ?_
    intro a b ha hb
    obtain ⟨hpkg, hinjector⟩ := hunder a ha
    obtain ⟨hpkg', hinjector'⟩ := hunder b hb
    rw [RunError.le_iff, hpkg, hpkg', hinjector, hinjector']
    exact Or.inr ⟨rfl, (RunError.injectorLe_total _ _).elim id id⟩
  have hstable : ∀ l : List RunError, (l.mergeSort RunError.le).filter (RunError.under path name) =
      l.filter (RunError.under path name) := fun l =>
    filter_mergeSort (fun _ _ _ h h' => RunError.le_trans h h') RunError.le_total (hequal l)
  rw [errors_reportOn htasks hresults, hstable, List.filter_append,
    Report.filter_errors fun e he => (hunder e he).1, Report.filter_errorsAt_under]

end Reports

end Wiring
