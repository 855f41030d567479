/-
**Root packages do not influence each other.**

What a run makes of one of its root packages is settled by the collection that the loader answers from.
The other roots decide which packages are loaded first, which sets are kept already and what else goes on at
the same time, and none of this shows in the package's file or under the names of its injectors.

Main definitions:

* `Wiring.Report.AlikeAt` — two reports say the same about a package and its injectors;
* `Wiring.RunInput.Names` — the patterns of a run name a package;
* `Wiring.Task.view` — all that a report takes from a task.

Main results:

* `Wiring.Task.Ends.relabel` — the place of a task makes no difference to its result;
* `Wiring.Report.alikeAt_of_views` — what a report says about a package is settled by its tasks;
* `Wiring.Preset.indifferent_to_neighbours` — **two runs that name a package say the same about it**.
-/

import Wiring.Proofs.Run.Accounts

set_option autoImplicit false

namespace Wiring

/-! ### Results -/

namespace Task

variable {setting : Setting} {c : Collection} {t : Task} {r : TaskResult}

/-- The next step of a task does not look at its place. -/
theorem next_relabel (setting : Setting) (c : Collection) (t : Task) (index : Nat) :
    ({ t with index } : Task).next setting c = { t.next setting c with index } := by
  obtain ⟨i, pkg, decl, request, graph, failures, met, queue, stage⟩ := t
  cases stage with
  | opening =>
      unfold next Task.open
      dsimp only
      cases pkg.request decl <;> rfl
  | collecting =>
      unfold next takeNext
      dsimp only
      cases queue with
      | nil => rfl
      | cons errand rest => dsimp only; split <;> rfl
  | fetching errand lookup =>
      unfold next receive
      dsimp only
      cases c.fetch errand with
      | ok set => rfl
      | error f => cases f <;> rfl
  | closed result => rfl

/-- **The place of a task makes no difference to its result.** -/
theorem Ends.relabel (h : Ends setting c t r) (index : Nat) : Ends setting c { t with index } r := by
  induction h with
  | closed h => exact .closed h
  | next hopen _ ih =>
      refine .next hopen ?_
      rwa [next_relabel]

/-- All that a report takes from a task. -/
def view (results : List TaskReport) (t : Task) : (Package × InjectorDecl) × Option TaskResult :=
  ((t.pkg, t.decl), resultAt results t.index)

/-- What a task has made, read off its view. -/
def madeIn (v : (Package × InjectorDecl) × Option TaskResult) : Option InjectorOutput :=
  match v.2 with
  | some (.ok output) => some output
  | _ => none

/-- The failures of a task, read off its view. -/
def errorsIn (v : (Package × InjectorDecl) × Option TaskResult) : List RunError :=
  match v.2 with
  | some (.error failures) => failures.map fun f => ⟨v.1.1.path, some v.1.2.name, f⟩
  | _ => []

end Task

/-! ### What is said about a package -/

/-- An error that belongs to an injector of a package. -/
def RunError.within (path : String) (e : RunError) : Bool :=
  e.pkg = path && e.injector.isSome

/-- Two reports say the same about a package: they have the same file for it, or none, and the same errors
under the names of its injectors, in the same order. -/
structure Report.AlikeAt (path : String) (r r' : Report) : Prop where
  outputs : r.outputs.filter (fun o => o.pkg = path) = r'.outputs.filter fun o => o.pkg = path
  errors : r.errors.filter (RunError.within path) = r'.errors.filter (RunError.within path)

/-- The patterns of a run name a package: the loader has something to say about it. -/
def RunInput.Names (input : RunInput) (path : String) : Prop :=
  (input.loader.answer input.rootRequest false).1.Answers path

namespace Report

variable {make : FileMaker} {options : Options} {results results' : List TaskReport}
  {tasks tasks' : List Task} {path : String}

/-- Making the file of a package needs only the views of its tasks. -/
theorem attempt_congr (h : tasks.map (Task.view results) = tasks'.map (Task.view results')) :
    attempt make options results tasks = attempt make options results' tasks' := by
  have hmade : ∀ (results : List TaskReport) (tasks : List Task), tasks.filterMap (Task.made results) =
      (tasks.map (Task.view results)).filterMap Task.madeIn := by
    intro results tasks
    rw [List.filterMap_map]
    rfl
  have hlength : tasks.length = tasks'.length := by
    simpa only [List.length_map] using congrArg List.length h
  have hparts : tasks.filterMap (Task.made results) = tasks'.filterMap (Task.made results') := by
    rw [hmade, hmade, h]
  cases tasks with
  | nil => cases tasks' with
    | nil => rfl
    | cons => cases hlength
  | cons first rest => cases tasks' with
    | nil => cases hlength
    | cons first' rest' =>
        have hpkg : first.pkg = first'.pkg := congrArg (fun v => v.1.1) (List.cons.inj h).1
        unfold attempt
        dsimp only
        rw [hparts, hlength, hpkg]

theorem filesAt_congr
    (h : (tasksAt tasks path).map (Task.view results) = (tasksAt tasks' path).map (Task.view results')) :
    filesAt make options results tasks path = filesAt make options results' tasks' path := by
  unfold filesAt
  rw [attempt_congr h]

theorem errorsAt_congr
    (h : (tasksAt tasks path).map (Task.view results) = (tasksAt tasks' path).map (Task.view results')) :
    errorsAt make options results tasks path = errorsAt make options results' tasks' path := by
  have herrors : ∀ (results : List TaskReport) (tasks : List Task), tasks.flatMap (Task.errors results) =
      (tasks.map (Task.view results)).flatMap Task.errorsIn := by
    intro results tasks
    rw [List.flatMap_map]
    rfl
  unfold errorsAt
  rw [attempt_congr h, herrors, herrors, h]

/-- Of all files only that of a package is about it. -/
theorem filter_files (path : String) :
    ((taskPaths tasks).flatMap (filesAt make options results tasks)).filter (fun o => o.pkg = path) =
      filesAt make options results tasks path := by
  have hall : (filesAt make options results tasks path).filter (fun o => o.pkg = path) =
      filesAt make options results tasks path :=
    List.filter_eq_self.2 fun o ho => decide_eq_true (pkg_of_mem_filesAt ho)
  rw [List.filter_flatMap, flatMap_eq_of_single (nodup_taskPaths tasks), hall]
  · intro other _ hne
    rw [List.filter_eq_nil_iff]
    intro o ho hpath
    exact hne ((pkg_of_mem_filesAt ho).symm.trans (of_decide_eq_true hpath))
  · intro hmissing
    have hnone : tasksAt tasks path = [] := by
      rw [List.eq_nil_iff_forall_not_mem]
      exact fun t ht => hmissing (mem_taskPaths.2 ⟨t, mem_tasksAt.1 ht⟩)
    rw [hall, filesAt, hnone]
    rfl

end Report

/-- Before the tasks of a run have had their say only invalid packages have errors under the names of their
injectors. -/
theorem filter_within_priorErrors (input : RunInput) (roots : LoadOutcome) (cancelled : Bool)
    (path : String) :
    (input.priorErrors roots cancelled).filter (RunError.within path) =
      (discoverErrors input.options roots.packages).filter (RunError.within path) := by
  have hwhole : ∀ errors : List RunError, (∀ e ∈ errors, e.injector = none) →
      errors.filter (RunError.within path) = [] := by
    intro errors hnone
    rw [List.filter_eq_nil_iff]
    intro e he
    simp [RunError.within, hnone e he]
  have hroots : (rootErrors roots).filter (RunError.within path) = [] := by
    refine hwhole _ fun e he => ?_
    obtain ⟨x, -, rfl⟩ := List.mem_map.1 he
    rfl
  have hcut : (if cancelled then [{ pkg := "", failure := .cancelled }] else []).filter
      (RunError.within path) = [] := by
    cases cancelled with
    | true => exact hwhole _ fun e he => by rw [List.mem_singleton.1 he]
    | false => rfl
  rw [RunInput.priorErrors, List.filter_append, List.filter_append, hroots, hcut, List.nil_append,
    List.append_nil]

section Reports

variable {input : RunInput} {roots roots' : LoadOutcome} {cancelled cancelled' : Bool}
  {finished finished' results results' : List TaskReport} {world world' : World}
  {tasks tasks' : List Task} {path : String}

/-- The errors under the names of a package's injectors, before they are sorted. -/
theorem filter_within_reportOn (htasks : tasks = discover input.options roots.packages)
    (hresults : results = Schedule.complete cancelled finished tasks.length) :
    (reportOn input roots cancelled finished world).errors.filter (RunError.within path) =
      ((discoverErrors input.options roots.packages).filter (RunError.within path) ++
        (Report.errorsAt input.makeFile input.options results tasks path).filter
          (RunError.within path)).mergeSort RunError.le := by
  have hpath : ∀ e, RunError.within path e → e.pkg = path := by
    intro e he
    rw [RunError.within, Bool.and_eq_true] at he
    exact of_decide_eq_true he.1
  have hcomm : ∀ l : List RunError, (l.mergeSort RunError.le).filter (RunError.within path) =
      (l.filter (RunError.within path)).mergeSort RunError.le :=
    @filter_mergeSort_comm RunError RunError.le (fun _ _ _ h h' => RunError.le_trans h h')
      RunError.le_total _
  rw [errors_reportOn htasks hresults, hcomm, List.filter_append, Report.filter_errors hpath,
    filter_within_priorErrors]

/-- **What a report says about a package is settled by its tasks**, and by the errors that it was found to
have before. -/
theorem Report.alikeAt_of_views (htasks : tasks = discover input.options roots.packages)
    (htasks' : tasks' = discover input.options roots'.packages)
    (hresults : results = Schedule.complete cancelled finished tasks.length)
    (hresults' : results' = Schedule.complete cancelled' finished' tasks'.length)
    (hviews : (Report.tasksAt tasks path).map (Task.view results) =
      (Report.tasksAt tasks' path).map (Task.view results'))
    (herrors : (discoverErrors input.options roots.packages).filter (fun e => e.pkg = path) =
      (discoverErrors input.options roots'.packages).filter fun e => e.pkg = path) :
    (reportOn input roots cancelled finished world).AlikeAt path
      (reportOn input roots' cancelled' finished' world') := by
  constructor
  · rw [outputs_reportOn htasks hresults, outputs_reportOn htasks' hresults', Report.filter_files,
      Report.filter_files, Report.filesAt_congr hviews]
  · -- of the errors about the package, those that name an injector
    have hwithin : ∀ errors : List RunError, errors.filter (RunError.within path) =
        (errors.filter fun e => e.pkg = path).filter fun e => e.injector.isSome := by
      intro errors
      rw [List.filter_filter]
      exact List.filter_congr fun e _ => Bool.and_comm _ _
    rw [filter_within_reportOn htasks hresults, filter_within_reportOn htasks' hresults',
      Report.errorsAt_congr hviews, hwithin (discoverErrors _ roots.packages), herrors, ← hwithin]

end Reports

/-! ### Root packages -/

section Roots

variable {c : Collection} {options : Options} {packages packages' : List Package} {path : String}

/-- A loader that has something to say about a path says what the collection says. -/
theorem LoadOutcome.Right.find?_eq {o : LoadOutcome} (h : o.Right c) (ho : o.Answers path) :
    o.packages.find? (fun p => p.path = path) = (c.answer path).toOption := by
  cases hfind : o.packages.find? fun p => p.path = path with
  | some p =>
      obtain rfl : p.path = path := by simpa using List.find?_some hfind
      rw [h.packages p (List.mem_of_find?_eq_some hfind)]
      rfl
  | none =>
      rcases ho with ⟨p, hp, hpath⟩ | ⟨e, he, rfl⟩
      · simp only [List.find?_eq_none, decide_eq_true_eq] at hfind
        exact absurd hpath (hfind p hp)
      · rw [h.errors e he]
        rfl

/-- The tasks of a package and its errors before them depend on nothing but the first root package with its
path. -/
theorem discover_congr
    (h : packages.find? (fun p => p.path = path) = packages'.find? fun p => p.path = path) :
    (Report.tasksAt (discover options packages) path).map (fun t => (t.pkg, t.decl)) =
        (Report.tasksAt (discover options packages') path).map (fun t => (t.pkg, t.decl)) ∧
      (discoverErrors options packages).filter (fun e => e.pkg = path) =
        (discoverErrors options packages').filter fun e => e.pkg = path := by
  cases hfind : packages.find? fun p => p.path = path with
  | some p =>
      rw [hfind] at h
      obtain rfl : p.path = path := by simpa using List.find?_some hfind
      have hp : p ∈ firstOfEach [] packages := mem_firstOfEach_iff.2 ⟨List.not_mem_nil, hfind⟩
      have hp' : p ∈ firstOfEach [] packages' := mem_firstOfEach_iff.2 ⟨List.not_mem_nil, h.symm⟩
      rw [map_tasksAt_discover hp, map_tasksAt_discover hp', filter_discoverErrors hp,
        filter_discoverErrors hp']
      exact ⟨rfl, rfl⟩
  | none =>
      rw [hfind] at h
      have hnone : ∀ packages : List Package, packages.find? (fun p => p.path = path) = none →
          Report.tasksAt (discover options packages) path = [] ∧
            (discoverErrors options packages).filter (fun e => e.pkg = path) = [] := by
        intro packages hfind
        simp only [List.find?_eq_none, decide_eq_true_eq] at hfind
        constructor
        · rw [List.eq_nil_iff_forall_not_mem]
          intro t ht
          obtain ⟨htask, hpath⟩ := Report.mem_tasksAt.1 ht
          exact hfind t.pkg (of_mem_discover htask).2.1 hpath
        · rw [List.filter_eq_nil_iff]
          intro e he hpath
          obtain ⟨p, hp, -, he⟩ := mem_discoverErrors.1 he
          exact hfind p (firstOfEach_subset hp)
            ((mem_invalidErrors he).1.symm.trans (of_decide_eq_true hpath))
      rw [(hnone packages hfind).1, (hnone packages hfind).2, (hnone packages' h.symm).1,
        (hnone packages' h.symm).2]
      exact ⟨rfl, rfl⟩

end Roots

/-! ### Two runs -/

/-- Where two lists agree after one function, they agree after another that tells no more apart. -/
theorem map_congr_of_map {α β γ : Type} {f f' : α → β} {g g' : α → γ} {l l' : List α}
    (h : l.map f = l'.map f') (hg : ∀ a ∈ l, ∀ a' ∈ l', f a = f' a' → g a = g' a') :
    l.map g = l'.map g' := by
  induction l generalizing l' with
  | nil => cases l' with
    | nil => rfl
    | cons => cases h
  | cons a rest ih => cases l' with
    | nil => cases h
    | cons a' rest' =>
        obtain ⟨hfirst, hrest⟩ := List.cons.inj h
        rw [List.map_cons, List.map_cons, hg a List.mem_cons_self a' List.mem_cons_self hfirst]
        refine congrArg _ (ih hrest ?_)
        exact fun b hb b' hb' => hg b (List.mem_cons_of_mem _ hb) b' (List.mem_cons_of_mem _ hb')

/-- A report on a run that has come to its end with every task at the result that the collection settles. -/
structure Report.Final (c : Collection) (input : RunInput) (roots : LoadOutcome) (r : Report) : Prop where
  right : roots.Right c
  settled : ∃ (setting : Setting) (s : Crew) (finished : List TaskReport),
    setting.policy = input.options.policy ∧
      s.Steady setting c roots.packages (discover input.options roots.packages) ∧ s.Over ∧
        (finished : Multiset TaskReport) = s.finished ∧
          r = reportOn input roots s.cancelled finished s.world

/-- What two runs with the same options say about a package is the same, if the loader has something to say
about it in both. -/
theorem Report.Final.alikeAt {c : Collection} {input : RunInput} {roots roots' : LoadOutcome}
    {r r' : Report} {path : String} (h : r.Final c input roots) (h' : r'.Final c input roots')
    (hnamed : roots.Answers path) (hnamed' : roots'.Answers path) : r.AlikeAt path r' := by
  obtain ⟨hright, setting, s, finished, hpolicy, hsteady, hover, hfinished, rfl⟩ := h
  obtain ⟨hright', setting', s', finished', hpolicy', hsteady', hover', hfinished', rfl⟩ := h'
  have hresult := fun t ht => hsteady.resultAt_of_over hover index_discover (t := t) hfinished ht
  have hresult' := fun t ht => hsteady'.resultAt_of_over hover' index_discover (t := t) hfinished' ht
  obtain ⟨htasks, herrors⟩ := @discover_congr input.options _ _ path
    ((hright.find?_eq hnamed).trans (hright'.find?_eq hnamed').symm)
  refine Report.alikeAt_of_views rfl rfl rfl rfl ?_ herrors
  rw [Schedule.complete_eq fun t ht => (hresult t ht).elim fun r hr => ⟨_, hr.2⟩,
    Schedule.complete_eq fun t ht => (hresult' t ht).elim fun r hr => ⟨_, hr.2⟩]
  refine map_congr_of_map htasks ?_
  intro t ht t' ht' hsame
  -- tasks of one injector come to one result, wherever they stand in their runs
  obtain ⟨hpkg, hdecl⟩ := Prod.mk.inj hsame
  have ht := (Report.mem_tasksAt.1 ht).1
  have ht' := (Report.mem_tasksAt.1 ht').1
  obtain ⟨r, hr, hat⟩ := hresult t ht
  obtain ⟨r', hr', hat'⟩ := hresult' t' ht'
  have hmoved := (hr.congr (hpolicy.trans hpolicy'.symm)).relabel t'.index
  rw [eq_of_mem_discover ht, hpkg, hdecl, ← eq_of_mem_discover ht'] at hmoved
  obtain rfl := hmoved.unique hr'
  rw [Task.view, Task.view, hpkg, hdecl, hat, hat']

namespace Preset

variable {c : Collection} {input : RunInput} {world : World} {path : String}

/-- A run that nobody cancels settles its report, in the order of the schedule and in every other. -/
theorem final (p : Preset) (hserved : c.ServedAt input.site) (himports : c.ImportsComplete)
    (hlive : world.cancelled = false) (hempty : world.sets = {}) :
    (generate (p.apply input) world).2.Final c input
        (input.loader.answer input.rootRequest false).1 ∧
      (p.apply input).Always world
        (Report.Final c input (input.loader.answer input.rootRequest false).1) := by
  have hsite : c.ServedAt (p.apply input).setting.site := by
    rwa [← p.site_apply input] at hserved
  have hasks : input.site.Asks input.rootRequest := ⟨rfl, rfl⟩
  have hcall : world.call input.loader input.rootRequest = _ := hserved.call_eq hlive hasks
  have hroots := hserved.right hasks
  have hsets : world.sets.Sound fun p _ => c.answer p.path = .ok p := hempty ▸ SetCache.sound_empty
  have hgenerate : generate (p.apply input) world =
      generateUnits (p.apply input) (world.call input.loader input.rootRequest).1
        (world.call input.loader input.rootRequest).2 := by
    rw [generate, if_neg (by simp [hlive]), p.call_apply]
  rw [hgenerate, RunInput.Always, p.call_apply, hcall]
  change _ ∧ Inevitably _ (fun s : Crew => _ ∧ ∀ r : Report, s.Reports _ _ r → r.Final c input _) _
  generalize hopened : ({ world with calls := _ } : World) = opened
  have hlive' : opened.cancelled = false := hopened ▸ hlive
  have hsets' : opened.sets.Sound fun p _ => c.answer p.path = .ok p := hopened ▸ hsets
  obtain ⟨last, hends, hsteady, hover⟩ := p.exists_ends hserved himports hlive' hsets' hroots
  constructor
  · rw [hends.generateUnits_eq, p.reportOn_apply]
    exact ⟨hroots, _, _, _, p.policy_apply input, hsteady, hover, rfl, rfl⟩
  · refine ((p.steady_outset hserved hlive' hsets' hroots).inevitably hsite himports
      (p.workers_apply input)).mono ?_
    rintro s ⟨hs, hsover⟩
    refine ⟨hsover, ?_⟩
    rintro r ⟨finished, hall, rfl⟩
    rw [p.reportOn_apply]
    exact ⟨hroots, _, _, _, p.policy_apply input, hs, hsover, hall, rfl⟩

/-- **Two runs that name a package say the same about it**, whatever other packages they name, under every
strategy and in whatever order the tasks go on. -/
theorem indifferent_to_neighbours (c : Collection) (input : RunInput) (patterns patterns' : List String)
    (path : String) (world world' : World) (hserved : c.ServedAt input.site)
    (himports : c.ImportsComplete) (hnamed : { input with patterns }.Names path)
    (hnamed' : { input with patterns := patterns' }.Names path) (hlive : world.cancelled = false)
    (hlive' : world'.cancelled = false) (hempty : world.sets = {}) (hempty' : world'.sets = {})
    (p q : Preset) :
    (generate (p.apply { input with patterns }) world).2.AlikeAt path
        (generate (q.apply { input with patterns := patterns' }) world').2 ∧
      (p.apply { input with patterns }).Always world fun r =>
        r.AlikeAt path (generate (q.apply { input with patterns := patterns' }) world').2 := by
  obtain ⟨hfinal, hall⟩ := @final c { input with patterns } world p hserved himports hlive hempty
  obtain ⟨hfinal', -⟩ :=
    @final c { input with patterns := patterns' } world' q hserved himports hlive' hempty'
  have halike : ∀ r : Report, r.Final c { input with patterns }
      (input.loader.answer { input with patterns }.rootRequest false).1 →
      r.AlikeAt path (generate (q.apply { input with patterns := patterns' }) world').2 := by
    intro r hr
    have hr' : (generate (q.apply { input with patterns := patterns' }) world').2.Final c
        { input with patterns } _ := ⟨hfinal'.right, hfinal'.settled⟩
    exact hr.alikeAt hr' hnamed hnamed'
  refine ⟨halike _ hfinal, hall.mono ?_⟩
  exact fun s hs => ⟨hs.1, fun r hr => halike r (hs.2 r hr)⟩

/-- A package with sets that hold each other. -/
def shopLoop : Package where
  path := "loop"
  sets := [{ name := "Hen", sets := ["Egg"] }, { name := "Egg", sets := ["Hen"] }]
  injectors := [{ name := "Hatch", outputs := ["Conn"], sets := ["Hen"] }]

/-- The service of the shop with an invalid package and one that goes round in circles beside it. -/
def market : Service where
  catalog :=
    { packages :=
        ⟨[("app", shopApp), ("lib", shopLib), ("torn", tornPackage), ("loop", shopLoop)]⟩
      failures := [("lost", "disk error")] }
  pauses := 1

/-- The shop's package alone, and between an invalid package, a cyclic one, one that is missing, one that
does not load and one that it imports. -/
theorem indifferent_to_neighbours_market :
    (generate (naive.apply { loader := market.loader, patterns := ["app"] }) {}).2.AlikeAt "app"
        (generate ((parallelLazy 2).apply
          { loader := market.loader
            patterns := ["torn", "gone", "lib", "lost", "app", "loop"] }) {}).2 ∧
      (naive.apply { loader := market.loader, patterns := ["app"] }).Always {} fun r =>
        r.AlikeAt "app" (generate ((parallelLazy 2).apply
          { loader := market.loader
            patterns := ["torn", "gone", "lib", "lost", "app", "loop"] }) {}).2 := by
  have hfiled : market.catalog.Filed := by
    unfold Catalog.Filed
    decide
  have himports : market.catalog.collection.ImportsComplete := by
    unfold Collection.ImportsComplete
    decide +kernel
  exact indifferent_to_neighbours market.catalog.collection { loader := market.loader } _ _ "app" {} {}
    (Service.servedAt hfiled rfl rfl _ _) himports (Service.answers hfiled rfl rfl (by decide))
    (Service.answers hfiled rfl rfl (by decide)) rfl rfl rfl rfl naive (parallelLazy 2)

end Preset

end Wiring
