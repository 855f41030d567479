/-
**Runs in every order.**

`Wiring/Run/Schedule.lean` does the tasks of a run in one particular order.  This module says what a run
may do when nothing is known about the order: any task may be started while there is room, any task
under way may take its next step, a load may take as long as it likes, and the result of any finished
task may be the next to be taken.  The run may also be cancelled at any moment.

Main definitions:

* `Wiring.Crew`, `Wiring.Turn`, `Wiring.Move` — the tasks by where they stand, what may happen next, and
  what it changes;
* `Wiring.Course` — a course of events;
* `Wiring.RunInput.Reaches`, `Wiring.RunInput.Follows` — a run along a course, from the first call of the
  loader to some state of its tasks, or to the report;
* `Wiring.Inevitably` — what comes about in every order, after finitely many steps.
-/

import Mathlib.Data.Multiset.Basic
import Wiring.Run.Generate

set_option autoImplicit false

namespace Wiring

/-! ### Tasks without turns -/

/-- The tasks of a run by where they stand, when nothing is said about their order. -/
structure Crew where
  world : World
  /-- The tasks that have not been started. -/
  upcoming : Multiset Task := 0
  /-- The tasks that have been started and whose results have not been taken. -/
  underWay : Multiset Task := 0
  finished : Multiset TaskReport := 0
  /-- A task or the run has been found to be cancelled. -/
  cancelled : Bool := false
  /-- The run has been given up. -/
  stopped : Bool := false

/-- What may happen next in a run.  Tasks are known by their indices. -/
inductive Turn where
  /-- A task is started. -/
  | start (index : Nat)
  /-- A task takes a step.  A load that it begins gives way so many times. -/
  | advance (index delay : Nat)
  /-- The result of a task is taken. -/
  | deliver (index : Nat)
  /-- The run is cancelled. -/
  | fire
  /-- The cancellation is noticed. -/
  | stop
deriving DecidableEq

/-- A setting under which every load gives way so many times. -/
def Setting.delayed (setting : Setting) (delay : Nat) : Setting :=
  { setting with site.loader.pauses := delay }

/-- What a turn changes. -/
inductive Move (setting : Setting) (workers : Nat) : Turn → Crew → Crew → Prop
  | start {s : Crew} {t : Task} {rest : Multiset Task} (hgoing : s.stopped = false)
      (ht : s.upcoming = t ::ₘ rest) (hroom : s.underWay.card < workers) :
      Move setting workers (.start t.index) s
        { s with upcoming := rest, underWay := t ::ₘ s.underWay }
  | advance {s : Crew} {t : Task} {rest : Multiset Task} {delay : Nat}
      (hgoing : s.stopped = false) (ht : s.underWay = t ::ₘ rest) (hopen : t.result? = none) :
      Move setting workers (.advance t.index delay) s
        { s with
          world := (t.step (setting.delayed delay) s.world).1
          underWay := (t.step (setting.delayed delay) s.world).2.1 ::ₘ rest }
  | deliver {s : Crew} {t : Task} {rest : Multiset Task} {result : TaskResult}
      (hgoing : s.stopped = false) (ht : s.underWay = t ::ₘ rest) (hr : t.result? = some result) :
      Move setting workers (.deliver t.index) s
        { s with
          underWay := rest
          finished := ⟨t.index, Schedule.counted result⟩ ::ₘ s.finished
          cancelled := s.cancelled || Schedule.isCancelled result }
  | fire {s : Crew} (hgoing : s.stopped = false) :
      Move setting workers .fire s { s with world.cancelled := true }
  | stop {s : Crew} (hgoing : s.stopped = false) (hc : s.world.cancelled = true) :
      Move setting workers .stop s { s with cancelled := true, stopped := true }

namespace Crew

/-- A run is over when it has been given up, or when every result has been taken and nobody has
cancelled it. -/
def Over (s : Crew) : Prop :=
  s.stopped = true ∨ s.upcoming = 0 ∧ s.underWay = 0 ∧ s.world.cancelled = false

/-- The moves of a run that nobody cancels.  A step that finds nothing to do does not count. -/
def Advances (setting : Setting) (workers : Nat) (s s' : Crew) : Prop :=
  s' ≠ s ∧ ∃ turn, turn ≠ .fire ∧ Move setting workers turn s s'

/-- The tasks of a run before the first of them is started. -/
def outset (input : RunInput) (world : World) (roots : LoadOutcome) : Crew where
  world := fillPackages input world roots
  upcoming := (discover input.options roots.packages : Multiset Task)

/-- The reports that may be made when a run is over; they do not depend on the order in which the
results were taken, as far as that is known to be so. -/
def Reports (input : RunInput) (roots : LoadOutcome) (s : Crew) (r : Report) : Prop :=
  ∃ finished : List TaskReport, (finished : Multiset TaskReport) = s.finished ∧
    r = reportOn input roots s.cancelled finished s.world

end Crew

/-- Several turns, one after the other. -/
inductive Moves (setting : Setting) (workers : Nat) : List Turn → Crew → Crew → Prop
  | nil {s : Crew} : Moves setting workers [] s s
  | cons {s s' s'' : Crew} {turn : Turn} {turns : List Turn} (h : Move setting workers turn s s')
      (hs : Moves setting workers turns s' s'') : Moves setting workers (turn :: turns) s s''

/-! ### Whole runs -/

/-- What happens in the course of a run: whether it is cancelled before the loader answers for the
roots or before it is asked for the imports, and the turns of its tasks. -/
structure Course where
  beforeRoots : Bool := false
  beforeImports : Bool := false
  turns : List Turn := []

/-- Cancels a run, or does not. -/
def World.fire (world : World) (fires : Bool) : World :=
  { world with cancelled := world.cancelled || fires }

/-- What a run has come to along a given course: the answer for the roots, and where its tasks stand. -/
inductive RunInput.Reaches (input : RunInput) (course : Course) (world : World) :
    LoadOutcome → Crew → Prop
  | intro {opened : World} {roots : LoadOutcome} {s : Crew} (h : world.cancelled = false)
      (hroots : (world.fire course.beforeRoots).call input.loader input.rootRequest =
        (opened, roots))
      (hmoves : Moves input.setting input.strategy.workers course.turns
        (Crew.outset input (opened.fire course.beforeImports) roots) s) :
      Reaches input course world roots s

/-- A run that takes a given course from a world to another and makes a report.  One that is
cancelled already does nothing. -/
inductive RunInput.Follows (input : RunInput) (course : Course) (world : World) :
    World → Report → Prop
  | refused (h : world.cancelled = true) : Follows input course world world (Report.cut {})
  | done {roots : LoadOutcome} {s : Crew} {r : Report} (hreach : input.Reaches course world roots s)
      (hover : s.Over) (hr : s.Reports input roots r) : Follows input course world s.world r

/-! ### What comes about in every order -/

/-- Whatever steps are taken, a state with a property is reached, and there are steps to take until
then.  A derivation is finite along every order of the steps, so that none goes on without end. -/
inductive Inevitably {σ : Type} (step : σ → σ → Prop) (P : σ → Prop) : σ → Prop
  | here {s : σ} (h : P s) : Inevitably step P s
  | later {s : σ} (h : ∃ s', step s s') (hs : ∀ s', step s s' → Inevitably step P s') :
      Inevitably step P s

namespace Inevitably

variable {σ : Type} {step : σ → σ → Prop} {P Q : σ → Prop} {s s' : σ}

theorem mono (h : Inevitably step P s) (hPQ : ∀ s, P s → Q s) : Inevitably step Q s := by
  induction h with
  | here h => exact .here (hPQ _ h)
  | later h _ ih => exact .later h ih

end Inevitably

end Wiring
