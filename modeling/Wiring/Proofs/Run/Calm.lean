/-
**A run that nobody cancels is not reported as cancelled.**

There is one source of cancellations in a run, and that is the lookup of a package.  Whatever else goes
wrong, while a declaration is read, a set is extracted or a request is resolved, is a failure of its own kind.
So if neither the loader nor anybody else cancels a run, no task of it is cancelled.

Main definitions:

* `Wiring.Plain` — a computation that may fail but is not cancelled;
* `Wiring.Loader.Calm`, `Wiring.Course.Calm` — a loader that does not cancel the runs that it answers, and a
  course in which nobody does;
* `Wiring.Crew.Calm` — nothing in a run is cancelled.

Main results:

* `Wiring.Package.plain_request`, `Wiring.Package.plain_extractSet`, `Wiring.not_mem_of_resolveRequest` — what is
  not cancelled;
* `Wiring.RunInput.Makes.not_cancelled` — **a calm run is not reported as cancelled**.
-/

import Wiring.Proofs.Resolution.Course
import Wiring.Proofs.Run.Tallies

set_option autoImplicit false

namespace Wiring

/-! ### Failures of their own kind -/

/-- A computation that may fail but is not cancelled. -/
def Plain {α : Type} (x : Except Failure α) : Prop :=
  x ≠ .error .cancelled

section Plain

variable {α β : Type}

theorem plain_ok (a : α) : Plain (.ok a) :=
  nofun

theorem plain_error {f : Failure} (h : f ≠ .cancelled) : Plain (.error f : Except Failure α) := by
  intro heq
  cases heq
  exact h rfl

theorem Plain.bind {x : Except Failure α} {f : α → Except Failure β} (hx : Plain x)
    (hf : ∀ a, Plain (f a)) : Plain (x >>= f) := by
  cases x with
  | ok a => exact hf a
  | error e =>
      refine plain_error ?_
      rintro rfl
      exact hx rfl

theorem Plain.map {x : Except Failure α} (hx : Plain x) (f : α → β) : Plain (x.map f) := by
  cases x with
  | ok a => exact plain_ok _
  | error e =>
      refine plain_error ?_
      rintro rfl
      exact hx rfl

theorem plain_mapM {f : α → Except Failure β} (hf : ∀ a, Plain (f a)) (l : List α) :
    Plain (l.mapM f) := by
  induction l with
  | nil => exact plain_ok _
  | cons a rest ih =>
      rw [List.mapM_cons]
      exact (hf a).bind fun b => ih.bind fun bs => plain_ok _

end Plain

namespace Package

variable (pkg : Package) (decl : ProviderDecl)

theorem plain_require {α : Type} (part : Option α) (reason : String) :
    Plain (pkg.require decl part reason) := by
  unfold require
  split
  · exact plain_ok _
  · exact plain_error nofun

theorem plain_selectFields (structType : TypeName) : Plain (pkg.selectFields decl structType) := by
  refine (pkg.plain_require decl _ _).bind fun info => ?_
  split
  · exact plain_ok _
  · split
    · exact plain_error nofun
    · exact plain_mapM (fun name => pkg.plain_require decl _ _) _

theorem plain_extract : Plain (pkg.extract decl) := by
  unfold extract
  split
  · exact ((pkg.plain_require decl _ _).bind fun _ => plain_ok _).map _
  · refine Plain.map ?_ _
    refine (pkg.plain_require decl _ _).bind fun _ => (pkg.plain_require decl _ _).bind fun _ => ?_
    split
    · exact plain_error nofun
    · exact plain_ok _
  · refine Plain.map ?_ _
    exact (pkg.plain_require decl _ _).bind fun _ => (pkg.plain_selectFields decl _).bind fun _ =>
      plain_ok _
  · exact (pkg.plain_require decl _ _).bind fun _ => (pkg.plain_selectFields decl _).bind fun _ =>
      plain_ok _
  · refine Plain.map ?_ _
    refine (pkg.plain_require decl _ _).bind fun _ => (pkg.plain_require decl _ _).bind fun _ => ?_
    split
    · exact plain_error nofun
    · exact plain_ok _

theorem plain_items (providers sets : List String) : Plain (pkg.items providers sets) := by
  refine (plain_mapM ?_ providers).bind fun _ => plain_ok _
  intro name
  unfold named
  split
  · exact pkg.plain_extract _
  · exact plain_error nofun

/-- A set that cannot be extracted is not cancelled. -/
theorem plain_extractSet (name asker : String) : Plain (pkg.extractSet name asker) := by
  unfold extractSet
  split
  · exact plain_error nofun
  · exact (pkg.plain_items _ _).bind fun _ => plain_ok _

/-- An injector whose declaration cannot be read is not cancelled. -/
theorem plain_request (decl : InjectorDecl) : Plain (pkg.request decl) :=
  (pkg.plain_items _ _).bind fun _ => plain_ok _

end Package

namespace SetGraph

variable {g : SetGraph}

theorem plain_walk (done : List SetId) (ranked : List Candidate) (queue : List Visit) :
    Plain (g.walk done ranked queue) := by
  fun_induction SetGraph.walk g done ranked queue with
  | case1 => exact plain_ok _
  | case2 _ _ _ _ _ ih => exact ih
  | case3 => exact plain_error nofun
  | case4 _ _ _ _ _ _ _ ih => exact ih

theorem plain_flatten (roots : List SetItem) (asker : String) : Plain (g.flatten roots asker) := by
  have hacyclic : Plain g.checkAcyclic := by
    unfold checkAcyclic
    split
    · exact plain_error nofun
    · exact plain_ok _
  exact hacyclic.bind fun _ => (g.plain_walk _ _ _).bind fun _ => plain_ok _

end SetGraph

/-- A resolution fails for reasons of its own. -/
theorem Job.not_mem_of_resolve {job : Job} {failures : List Failure}
    (h : job.resolve = .error failures) : Failure.cancelled ∉ failures := by
  intro hmem
  -- every failure of a resolution has a ground, and none of these is a cancellation
  cases grounded_of_resolve h hmem

theorem not_mem_of_resolveRequest {policy : Policy} {graph : SetGraph} {request : Request}
    {failures : List Failure} (h : resolveRequest policy graph request = .error failures) :
    Failure.cancelled ∉ failures := by
  rcases resolveRequest_cases policy graph request with ⟨f, hflatten, heq⟩ | ⟨candidates, -, heq⟩ <;>
    rw [heq] at h
  · cases h
    rw [List.mem_singleton]
    rintro rfl
    exact graph.plain_flatten _ _ hflatten
  · exact Job.not_mem_of_resolve h

/-! ### Lookups -/

/-- A loader does not cancel the runs that it answers. -/
def Loader.Calm (loader : Loader) : Prop :=
  ∀ request, (loader.answer request false).2 = false

/-- Nobody has cancelled the run, and no package is kept as one whose load was cancelled. -/
structure World.Calm (world : World) : Prop where
  live : world.cancelled = false
  slots : ∀ path, world.packages.slots.get? path ≠ some (.failed .cancelled)

theorem World.live_call {world : World} {loader : Loader} (hcalm : loader.Calm)
    (hlive : world.cancelled = false) (request : LoadRequest) :
    (world.call loader request).1.cancelled = false := by
  rw [World.call, hlive]
  exact hcalm request

namespace World.Calm

variable {world : World}

theorem call (h : world.Calm) {loader : Loader} (hcalm : loader.Calm) (request : LoadRequest) :
    (world.call loader request).1.Calm :=
  ⟨live_call hcalm h.live request, h.slots⟩

end World.Calm

namespace PackageCache

variable {path : String} {outcome : LoadOutcome} {cancelled : Bool}

/-- A load that was not cut short says nothing about cancellation. -/
theorem plain_of_verdict {result : Except Failure Package}
    (h : verdict path outcome cancelled = .of result) : Plain result := by
  cases result with
  | ok pkg => exact plain_ok _
  | error f =>
      refine plain_error ?_
      rintro rfl
      unfold verdict at h
      split at h
      · cases h
      · split at h <;> cases h

/-- Only a load in a cancelled run is cut short. -/
theorem cancelled_of_verdict (h : verdict path outcome cancelled = .cancelled) :
    cancelled = true := by
  unfold verdict at h
  split at h
  · cases h
  · split at h
    next hcancelled => exact hcancelled
    · cases h

theorem holding_ne_cancelled {result : Except Failure Package} (h : Plain result) :
    PackageSlot.holding result ≠ .failed .cancelled := by
  cases result with
  | ok pkg => nofun
  | error f =>
      intro heq
      cases heq
      exact h rfl

end PackageCache

/-- **A lookup is not cancelled** unless the run is. -/
theorem Lookup.Treads.calm {site : LoadSite} {path : String} {world world' : World}
    {lookup lookup' : Lookup} (h : Treads site path (world, lookup) (world', lookup'))
    (hcalm : site.loader.Calm) (hw : world.Calm) (hl : lookup ≠ .done (.error .cancelled)) :
    world'.Calm ∧ lookup' ≠ .done (.error .cancelled) := by
  cases h with
  | wakes => exact ⟨hw, by simp⟩
  | finds hslot =>
      refine ⟨hw, ?_⟩
      intro heq
      cases heq
      exact hw.slots path hslot
  | lacks => exact ⟨hw, by simp⟩
  | sleeps => exact ⟨hw, by simp⟩
  | begins =>
      refine ⟨⟨hw.live, fun q => ?_⟩, by simp⟩
      simp only [World.withPackages, PackageCache.granted, Table.get?_put]
      split
      · exact fun heq => by cases heq
      · exact hw.slots q
  | refused _ _ hcancelled =>
      rw [hw.live] at hcancelled
      cases hcancelled
  | pauses => exact ⟨hw, by simp⟩
  | settles hcall hverdict =>
      have hopened := hw.call hcalm (site.requestFor path)
      rw [hcall] at hopened
      have hplain := PackageCache.plain_of_verdict hverdict
      have hslot := PackageCache.holding_ne_cancelled hplain
      refine ⟨⟨hopened.live, fun q => ?_⟩, fun heq => hplain (Lookup.done.inj heq)⟩
      simp only [World.withPackages, PackageCache.settle, Table.get?_put]
      split
      · exact fun heq => hslot (Option.some.inj heq)
      · exact hw.slots q
  | yields hcall hverdict =>
      have hopened := hw.call hcalm (site.requestFor path)
      rw [hcall] at hopened
      have hcancelled := PackageCache.cancelled_of_verdict hverdict
      rw [hopened.live] at hcancelled
      cases hcancelled

/-! ### Tasks -/

namespace Task

/-- Nothing of a task is cancelled. -/
structure Calm (t : Task) : Prop where
  lookup : ∀ errand, t.stage ≠ .fetching errand (.done (.error .cancelled))
  failures : Failure.cancelled ∉ t.failures
  result : ∀ r, t.result? = some r → Schedule.isCancelled r = false

variable {setting : Setting} {world world' : World} {t t' : Task} {r : TaskResult}

theorem not_isCancelled {failures : List Failure} (h : Failure.cancelled ∉ failures) :
    Schedule.isCancelled (.error failures : TaskResult) = false := by
  simpa [Schedule.isCancelled] using h

theorem Calm.close (h : t.Calm) (hr : Schedule.isCancelled r = false) : (t.close r).Calm := by
  refine ⟨nofun, h.failures, ?_⟩
  intro r' hr'
  cases hr'
  exact hr

theorem not_isCancelled_compose (setting : Setting) (t : Task) :
    Schedule.isCancelled (t.compose setting) = false := by
  rcases t.compose_cases setting with ⟨failures, hplan, heq⟩ | ⟨plan, -, ⟨f, -, heq⟩ | ⟨code, -, heq⟩⟩ <;>
    rw [heq]
  · exact not_isCancelled (not_mem_of_resolveRequest hplan)
  · refine not_isCancelled ?_
    rw [List.mem_singleton]
    nofun
  · rfl

theorem Calm.open (h : t.Calm) : t.open.Calm := by
  rcases t.open_cases with ⟨f, hrequest, heq⟩ | ⟨request, -, heq⟩ <;> rw [heq]
  · refine h.close (not_isCancelled ?_)
    rw [List.mem_singleton]
    rintro rfl
    exact t.pkg.plain_request _ hrequest
  · exact ⟨nofun, h.failures, nofun⟩

theorem Calm.takeNext (h : t.Calm) : (t.takeNext setting).Calm := by
  rcases t.takeNext_cases setting with ⟨-, heq⟩ | ⟨_, _, -, ⟨-, heq⟩ | ⟨-, heq⟩⟩ <;> rw [heq]
  · refine h.close ?_
    split
    · exact not_isCancelled_compose setting t
    · exact not_isCancelled h.failures
  · exact ⟨h.lookup, h.failures, h.result⟩
  · exact ⟨nofun, h.failures, nofun⟩

theorem Calm.receive (h : t.Calm) {answer : Except Failure ProviderSet} (hanswer : Plain answer) :
    (t.receive answer).Calm := by
  rcases t.receive_cases answer with ⟨set, -, heq⟩ | ⟨hcancelled, -⟩ | ⟨f, -, hf, heq⟩
  · rw [heq]
    exact ⟨nofun, h.failures, nofun⟩
  · exact absurd hcancelled hanswer
  · rw [heq]
    refine ⟨nofun, ?_, nofun⟩
    rw [List.mem_append, List.mem_singleton, not_or]
    exact ⟨h.failures, Ne.symm hf⟩

theorem plain_extractFrom {errand : Errand} {pkg : Package} {answer : Except Failure ProviderSet}
    (h : (extractFrom setting world errand pkg).2 = some answer) : Plain answer := by
  rcases extractFrom_cases setting world errand pkg with
    ⟨-, heq⟩ | ⟨-, ⟨-, heq⟩ | ⟨sets, told, -, hkept, heq⟩⟩ <;> rw [heq] at h
  · cases h
    exact plain_error nofun
  · cases h
    exact pkg.plain_extractSet _ _
  · cases h
    unfold SetCache.getOrExtract at hkept
    split at hkept <;> cases hkept
    · exact plain_ok _
    · exact pkg.plain_extractSet _ _

theorem Calm.arrive (h : t.Calm) {errand : Errand} {result : Except Failure Package}
    (hstage : t.stage = .fetching errand (.done result)) :
    (Task.arrive setting world t errand result).2.1.Calm := by
  cases result with
  | error f =>
      refine h.receive (plain_error ?_)
      rintro rfl
      exact h.lookup errand hstage
  | ok pkg =>
      rcases arrive_cases setting world t errand pkg with ⟨answer, hanswer, heq⟩ | ⟨-, heq⟩ <;> rw [heq]
      · exact h.receive (plain_extractFrom hanswer)
      · exact h

/-- **A task is not cancelled** unless the run is. -/
theorem Treads.calm (h : Treads setting (world, t) (world', t')) (hcalm : setting.site.loader.Calm)
    (hw : world.Calm) (ht : t.Calm) : world'.Calm ∧ t'.Calm := by
  cases h with
  | @looks _ _ _ errand lookup lookup' hstage h =>
      have hlookup : lookup ≠ .done (.error .cancelled) := by
        rintro rfl
        exact ht.lookup errand hstage
      obtain ⟨hw', hlookup'⟩ := h.calm hcalm hw hlookup
      refine ⟨hw', ?_, ht.failures, nofun⟩
      intro errand heq
      cases heq
      exact hlookup' rfl
  | reads => exact ⟨hw, ht.open⟩
  | takes => exact ⟨hw, ht.takeNext⟩
  | @arrives _ _ errand result hstage =>
      obtain ⟨sets, hworld⟩ := arrive_world setting world t errand result
      rw [hworld]
      exact ⟨⟨hw.live, hw.slots⟩, ht.arrive hstage⟩

theorem Calm.step (ht : t.Calm) (hcalm : setting.site.loader.Calm) (hw : world.Calm) :
    (t.step setting world).1.Calm ∧ (t.step setting world).2.1.Calm := by
  have happly : ∀ x, Relation.ReflTransGen (Treads setting) (world, t) x → x.1.Calm ∧ x.2.Calm := by
    intro x hx
    induction hx with
    | refl => exact ⟨hw, ht⟩
    | tail _ hstep ih => exact hstep.calm hcalm ih.1 ih.2
  exact happly _ (step_treads setting world t)

end Task

/-! ### Crews -/

/-- Nothing in a run is cancelled. -/
structure Crew.Calm (s : Crew) : Prop where
  world : s.world.Calm
  tasks : ∀ t ∈ s.remaining, t.Calm
  live : s.cancelled = false

/-- Nothing gets cancelled by a move, unless it is the one that cancels the run. -/
theorem Crew.Calm.move {setting : Setting} {workers : Nat} {turn : Turn} {s s' : Crew} (h : s.Calm)
    (hcalm : setting.site.loader.Calm) (hturn : turn ≠ .fire)
    (hmove : Move setting workers turn s s') : s'.Calm := by
  cases hmove with
  | start _ ht => exact ⟨h.world, remaining_start ht ▸ h.tasks, h.live⟩
  | @advance _ t rest delay _ ht =>
      have hdelayed : (setting.delayed delay).site.loader.Calm := hcalm
      obtain ⟨hworld, htask⟩ := (h.tasks t (mem_remaining ht)).step hdelayed h.world
      exact ⟨hworld, forall_remaining_advance ht h.tasks htask _, h.live⟩
  | @deliver _ t rest result _ ht hr =>
      refine ⟨h.world, forall_remaining_deliver ht h.tasks _ _, ?_⟩
      rw [h.live, (h.tasks t (mem_remaining ht)).result result hr]
      rfl
  | fire => exact absurd rfl hturn
  | stop _ hcancelled =>
      rw [h.world.live] at hcancelled
      cases hcancelled

theorem Moves.calm {setting : Setting} {workers : Nat} {turns : List Turn} {s s' : Crew}
    (h : s.Calm) (hcalm : setting.site.loader.Calm) (hturns : .fire ∉ turns)
    (hmoves : Moves setting workers turns s s') : s'.Calm := by
  induction hmoves with
  | nil => exact h
  | cons hmove _ ih =>
      rw [List.mem_cons, not_or] at hturns
      exact ih (h.move hcalm (Ne.symm hturns.1) hmove) hturns.2

/-! ### Runs -/

theorem PackageCache.seed_ne_cancelled {cache : PackageCache} {path : String}
    (h : cache.slots.get? path ≠ some (.failed .cancelled)) (o : LoadOutcome) :
    (cache.seed o).slots.get? path ≠ some (.failed .cancelled) := by
  intro hcancelled
  rcases seed_cases hcancelled with hslot | ⟨p, -, -, heq⟩ | ⟨e, -, -, heq⟩
  · exact h hslot
  · cases heq
  · cases heq

theorem live_loadImports {input : RunInput} {world : World} (hcalm : input.loader.Calm)
    (hlive : world.cancelled = false) (packages : List Package) :
    (loadImports input world packages).1.cancelled = false := by
  unfold loadImports
  split
  · exact hlive
  · exact World.live_call hcalm hlive _

/-- No run is cancelled while its packages are filled in, unless by the loader. -/
theorem live_fillPackages {input : RunInput} {world : World} (hcalm : input.loader.Calm)
    (hlive : world.cancelled = false) (roots : LoadOutcome) :
    (fillPackages input world roots).cancelled = false := by
  unfold fillPackages
  split
  · exact hlive
  · exact live_loadImports hcalm hlive roots.packages

/-- A run that starts in a live world starts calm, unless the loader cancels it. -/
theorem Crew.calm_outset {input : RunInput} {world : World} {roots : LoadOutcome}
    (hcalm : input.loader.Calm) (hlive : world.cancelled = false) :
    (Crew.outset input world roots).Calm := by
  refine ⟨⟨live_fillPackages hcalm hlive roots, ?_⟩, ?_, rfl⟩
  · refine fillPackages_induction (P := fun cache => ∀ path,
      cache.slots.get? path ≠ some (.failed .cancelled)) (fun _ _ => nofun) ?_ input world roots
    exact fun cache o h path => PackageCache.seed_ne_cancelled (h path) o
  · intro t ht
    rw [remaining_outset, Multiset.mem_coe] at ht
    rw [eq_of_mem_discover ht]
    exact ⟨nofun, List.not_mem_nil, nofun⟩

/-- **A calm run is not reported as cancelled.** -/
theorem RunInput.Makes.not_cancelled {input : RunInput} {course : Course} {world : World}
    {roots : LoadOutcome} {results : List TaskReport} {r : Report}
    (h : input.Makes course world roots results r) (hcourse : course.Calm)
    (hcalm : input.loader.Calm) (hlive : world.cancelled = false) : r.cancelled = false := by
  cases h with
  | refused hcancelled => exact absurd (hlive.symm.trans hcancelled) Bool.false_ne_true
  | done h =>
      have hopened : ∀ {opened roots}, (world.fire course.beforeRoots).call input.loader
          input.rootRequest = (opened, roots) →
          (opened.fire course.beforeImports).cancelled = false := by
        intro opened roots hroots
        rw [hcourse.roots, World.fire_false] at hroots
        have hcall : (world.call input.loader input.rootRequest).1.cancelled = false := by
          rw [World.call, hlive]
          exact hcalm input.rootRequest
        rw [hcourse.imports, World.fire_false]
        rwa [hroots] at hcall
      rw [reportOn_eq rfl rfl]
      cases h with
      | halts _ hroots hcancelled =>
          have hstart : (Crew.outset input _ roots).Calm := Crew.calm_outset hcalm (hopened hroots)
          exact absurd (hstart.world.live.symm.trans hcancelled) Bool.false_ne_true
      | goes _ hroots _ hmoves =>
          have hstart : (Crew.outset input _ roots).Calm := Crew.calm_outset hcalm (hopened hroots)
          have hsetting : input.setting.site.loader.Calm := hcalm
          exact (hmoves.calm hstart hsetting hcourse.turns).live

end Wiring
