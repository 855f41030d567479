/-
**Runs that are not cancelled.**

Cancelling a run cannot be taken back.  So a run that is over and has not been cancelled was live at every
moment before: no lookup has been refused, no load has been cut short, and every answer of the loader was the
one that it gives to a live run.  Such a run can be followed step by step as if its loader knew nothing of
cancellations.

Main definitions:

* `Wiring.Loader.Heeds` — a loader does not take a cancellation back;
* `Wiring.Loader.answers`, `Wiring.Loader.steady` — what it answers to a live run, and the loader that always
  answers so;
* `Wiring.Crew.Treads` — the small steps of a run;
* `Wiring.RunInput.muster` — a run under the steady loader before the first of its tasks is started.

Main results:

* `Wiring.Task.Treads.steady` — a small step into a live world is one under the steady loader;
* `Wiring.RunInput.Reaches.steady` — **a lazy run that is over and not cancelled has gone on step by step
  under the steady loader**.
-/

import Wiring.Proofs.Run.Calm
import Wiring.Proofs.Run.Foresight

set_option autoImplicit false

namespace Wiring

/-! ### Loaders -/

/-- A loader does not take it back that the run is cancelled. -/
def Loader.Heeds (loader : Loader) : Prop :=
  ∀ request, (loader.answer request true).2 = true

/-- What a loader answers to a run that has not been cancelled. -/
def Loader.answers (loader : Loader) (request : LoadRequest) : LoadOutcome :=
  (loader.answer request false).1

/-- The loader that always answers so.  It takes as long as the other and cancels no run. -/
def Loader.steady (loader : Loader) : Loader :=
  { Loader.plain loader.answers with pauses := loader.pauses }

def LoadSite.steady (site : LoadSite) : LoadSite :=
  { site with loader := site.loader.steady }

def Setting.steady (setting : Setting) : Setting :=
  { setting with site := setting.site.steady }

def RunInput.steady (input : RunInput) : RunInput :=
  { input with loader := input.loader.steady }

theorem Loader.serves_steady (loader : Loader) : loader.steady.Serves loader.answers :=
  ⟨fun _ _ h => ⟨h, rfl⟩, fun _ _ _ _ h => h⟩

theorem Loader.calm_steady (loader : Loader) : loader.steady.Calm :=
  fun _ => rfl

theorem Loader.Heeds.whole {loader : Loader} (h : loader.Heeds) {request : LoadRequest} {cancelled : Bool}
    (hlive : (loader.answer request cancelled).2 = false) :
    cancelled = false ∧ (loader.answer request cancelled).1 = loader.answers request := by
  cases cancelled with
  | true => cases (h request).symm.trans hlive
  | false => exact ⟨rfl, rfl⟩

/-- A call after which the run is live came to a live run, and had the answer for one. -/
theorem Loader.Heeds.call_eq {loader : Loader} (h : loader.Heeds) {world : World} {request : LoadRequest}
    (hlive : (world.call loader request).1.cancelled = false) :
    world.cancelled = false ∧ world.call loader request = world.call loader.steady request :=
  World.call_eq_plain (fun _ => h.whole) hlive

/-! ### Small steps into a live world -/

/-- A small step of a lookup into a live world. -/
theorem Lookup.Treads.steady {site : LoadSite} {path : String} {world world' : World}
    {lookup lookup' : Lookup} (h : Treads site path (world, lookup) (world', lookup'))
    (hheeds : site.loader.Heeds) (hlive : world'.cancelled = false) :
    world.cancelled = false ∧ Treads site.steady path (world, lookup) (world', lookup') := by
  cases h with
  | wakes h => exact ⟨hlive, .wakes h⟩
  | finds h => exact ⟨hlive, .finds h⟩
  | lacks h heager => exact ⟨hlive, .lacks h heager⟩
  | sleeps h => exact ⟨hlive, .sleeps h⟩
  | begins h hlazy hbefore =>
      have hbegins := @Lookup.Treads.begins site.steady path world h hlazy hbefore
      exact ⟨hbefore, hbegins⟩
  | refused _ _ hcancelled => cases hcancelled.symm.trans hlive
  | pauses => exact ⟨hlive, .pauses⟩
  | settles hcall hverdict =>
      have hcalled : (world.call site.loader (site.requestFor path)).1.cancelled = false := by
        rw [hcall]
        exact hlive
      obtain ⟨hbefore, heq⟩ := hheeds.call_eq hcalled
      exact ⟨hbefore, .settles (heq.symm.trans hcall) hverdict⟩
  | yields _ hverdict => cases (PackageCache.cancelled_of_verdict hverdict).symm.trans hlive

namespace Task

variable {setting : Setting} {world world' : World} {t t' : Task}

/-- **A small step of a task into a live world** is one under the steady loader. -/
theorem Treads.steady (h : Treads setting (world, t) (world', t')) (hheeds : setting.site.loader.Heeds)
    (hlive : world'.cancelled = false) :
    world.cancelled = false ∧ Treads setting.steady (world, t) (world', t') := by
  cases h with
  | looks hstage h =>
      obtain ⟨hbefore, hsteady⟩ := h.steady hheeds hlive
      exact ⟨hbefore, .looks hstage hsteady⟩
  | reads hstage => exact ⟨hlive, .reads hstage⟩
  | takes hstage => exact ⟨hlive, @Treads.takes setting.steady _ _ hstage⟩
  | @arrives _ _ errand result hstage =>
      obtain ⟨sets, hworld⟩ := arrive_world setting world t errand result
      rw [hworld] at hlive
      exact ⟨hlive, @Treads.arrives setting.steady _ _ _ _ hstage⟩

/-- So are several of them. -/
theorem steady_of_treads {x y : World × Task} (h : Relation.ReflTransGen (Treads setting) x y)
    (hheeds : setting.site.loader.Heeds) (hlive : y.1.cancelled = false) :
    x.1.cancelled = false ∧ Relation.ReflTransGen (Treads setting.steady) x y := by
  induction h with
  | refl => exact ⟨hlive, .refl⟩
  | tail _ hstep ih =>
      obtain ⟨hbefore, hsteady⟩ := hstep.steady hheeds hlive
      obtain ⟨hfirst, hsteps⟩ := ih hbefore
      exact ⟨hfirst, hsteps.tail hsteady⟩

end Task

/-! ### Small steps of a run -/

namespace Crew

/-- The small steps of a run. -/
inductive Treads (setting : Setting) : Crew → Crew → Prop
  | starts {s : Crew} {t : Task} {rest : Multiset Task} (ht : s.upcoming = t ::ₘ rest) :
      Treads setting s { s with upcoming := rest, underWay := t ::ₘ s.underWay }
  /-- A task under way takes a small step.  A load that it begins may take any time. -/
  | goes {s : Crew} {t t' : Task} {rest : Multiset Task} {world : World} {delay : Nat}
      (ht : s.underWay = t ::ₘ rest)
      (h : Task.Treads (setting.delayed delay) (s.world, t) (world, t')) :
      Treads setting s { s with world, underWay := t' ::ₘ rest }
  /-- The result of a task is taken. -/
  | delivers {s : Crew} {t : Task} {rest : Multiset Task} {result : TaskResult}
      (ht : s.underWay = t ::ₘ rest) (hr : t.result? = some result) :
      Treads setting s
        { s with
          underWay := rest
          finished := ⟨t.index, Schedule.counted result⟩ ::ₘ s.finished
          cancelled := s.cancelled || Schedule.isCancelled result }

variable {setting : Setting} {s : Crew} {t : Task} {rest : Multiset Task}

/-- Several small steps of one task. -/
theorem treads_of_task {delay : Nat} {x : World × Task} (ht : s.underWay = t ::ₘ rest)
    (h : Relation.ReflTransGen (Task.Treads (setting.delayed delay)) (s.world, t) x) :
    Relation.ReflTransGen (Treads setting) s
      { s with world := x.1, underWay := x.2 ::ₘ rest } := by
  induction h with
  | refl => rw [← ht]
  | tail _ hstep ih => exact ih.tail (.goes rfl hstep)

end Crew

/-- A move into a live world is some small steps under the steady loader. -/
theorem Move.steady {setting : Setting} {workers : Nat} {turn : Turn} {s s' : Crew}
    (h : Move setting workers turn s s') (hheeds : setting.site.loader.Heeds)
    (hlive : s'.world.cancelled = false) :
    s.world.cancelled = false ∧ Relation.ReflTransGen (Crew.Treads setting.steady) s s' := by
  cases h with
  | start _ ht => exact ⟨hlive, .single (.starts ht)⟩
  | @advance _ t rest delay _ ht =>
      have hdelayed : (setting.delayed delay).site.loader.Heeds := hheeds
      obtain ⟨hbefore, hsteps⟩ :=
        Task.steady_of_treads (Task.step_treads (setting.delayed delay) s.world t) hdelayed hlive
      have hsame : (setting.delayed delay).steady = setting.steady.delayed delay := rfl
      rw [hsame] at hsteps
      exact ⟨hbefore, Crew.treads_of_task ht hsteps⟩
  | deliver _ ht hr => exact ⟨hlive, .single (.delivers ht hr)⟩
  | fire => cases hlive
  | stop _ hcancelled => cases hcancelled.symm.trans hlive

theorem Moves.steady {setting : Setting} {workers : Nat} {turns : List Turn} {s s' : Crew}
    (h : Moves setting workers turns s s') (hheeds : setting.site.loader.Heeds)
    (hlive : s'.world.cancelled = false) :
    s.world.cancelled = false ∧ Relation.ReflTransGen (Crew.Treads setting.steady) s s' := by
  induction h with
  | nil => exact ⟨hlive, .refl⟩
  | cons hmove _ ih =>
      obtain ⟨hbetween, hrest⟩ := ih hlive
      obtain ⟨hbefore, hfirst⟩ := hmove.steady hheeds hbetween
      exact ⟨hbefore, hfirst.trans hrest⟩

/-! ### Whole runs -/

/-- The tasks of a run under the steady loader before the first of them is started. -/
def RunInput.muster (input : RunInput) (world : World) : Crew :=
  Crew.outset input.steady (world.call input.loader.steady input.rootRequest).1
    (input.loader.answers input.rootRequest)

theorem Crew.outset_of_lazy {input : RunInput} (hlazy : input.strategy.isLazy = true) {world : World}
    {roots : LoadOutcome} : Crew.outset input world roots =
      { world := world.withPackages (PackageCache.seed { isLazy := true } roots)
        upcoming := (discover input.options roots.packages : Multiset Task) } := by
  rw [outset, fillPackages, if_pos hlazy]

theorem Crew.Over.of_not_cancelled {tasks : List Task} {s : Crew} (h : s.Over) (htallied : s.Tallied tasks)
    (hlive : s.cancelled = false) : s.remaining = 0 ∧ s.world.cancelled = false := by
  rcases h with hstopped | ⟨hupcoming, hunderWay, hworld⟩
  · cases (htallied.noticed hstopped).symm.trans hlive
  · exact ⟨by rw [Crew.remaining, hupcoming, hunderWay, add_zero], hworld⟩

/-- **A lazy run that is over and not cancelled has gone on step by step under the steady loader**, and no
task of it remains. -/
theorem RunInput.Reaches.steady {input : RunInput} {course : Course} {world : World} {roots : LoadOutcome}
    {s : Crew} (h : input.Reaches course world roots s) (hheeds : input.loader.Heeds)
    (hlazy : input.strategy.isLazy = true) (hover : s.Over) (hlive : s.cancelled = false) :
    world.cancelled = false ∧ roots = input.loader.answers input.rootRequest ∧ s.remaining = 0 ∧
      Relation.ReflTransGen (Crew.Treads input.setting.steady) (input.muster world) s := by
  obtain ⟨hnone, hend⟩ := hover.of_not_cancelled h.tallied hlive
  cases h with
  | @intro opened _ _ hworld hroots hmoves =>
      have hsite : input.setting.site.loader.Heeds := hheeds
      obtain ⟨hstart, hsteps⟩ := hmoves.steady hsite hend
      -- nobody has cancelled the run since it began, so the roots have been answered in full
      rw [Crew.outset_of_lazy hlazy] at hstart
      have hopened : (opened.fire course.beforeImports).cancelled = false := hstart
      have hsame := World.fire_of_live hopened
      rw [hsame] at hopened hsteps
      have hcalled : ((world.fire course.beforeRoots).call input.loader input.rootRequest).1.cancelled =
          false := by
        rw [hroots]
        exact hopened
      obtain ⟨hbefore, hcall⟩ := hheeds.call_eq hcalled
      rw [World.fire_of_live hbefore] at hcall hroots
      rw [hroots] at hcall
      obtain ⟨rfl, rfl⟩ := Prod.mk.inj hcall
      refine ⟨hworld, rfl, hnone, ?_⟩
      have hsteady : input.steady.strategy.isLazy = true := hlazy
      rw [Crew.outset_of_lazy hlazy] at hsteps
      rw [muster, Crew.outset_of_lazy hsteady]
      exact hsteps

end Wiring
