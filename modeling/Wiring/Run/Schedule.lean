/-
**The schedule of a run.**

The tasks of a run are started in order, so many at a time.  A task goes on until it is done or has
to give way.  The tasks that gave way are taken up again, the last of them first, when all others
have had their turn, and a task that sleeps when its marker has gone.  A turn is over when no task
can go on, or when as many tasks as are under way have been taken up.  Before each turn, and before
the next result is taken, it is checked whether the run has been cancelled; then nothing further is
done, and the tasks that did not finish are given up.

Main definitions:

* `Wiring.Schedule` — the tasks by where they stand;
* `Wiring.Schedule.step` — one step of the task whose turn it is, or one change of turns;
* `Wiring.Schedule.run` — all of it;
* `Wiring.Schedule.complete` — the result of every task.
-/

import Wiring.Run.Task

set_option autoImplicit false

namespace Wiring

/-- A result and the index of the task that it belongs to. -/
structure TaskReport where
  index : Nat
  result : TaskResult

/-- The tasks of a run by where they stand. -/
structure Schedule where
  world : World
  /-- How many tasks may be under way at once. -/
  workers : Nat
  /-- The tasks that have not been started. -/
  upcoming : List Task := []
  /-- The tasks that can go on, in the order of their turns. -/
  ready : List Task := []
  /-- The tasks that gave way, in the order in which they did. -/
  resting : List Task := []
  /-- The tasks that wait for a marker to go. -/
  asleep : List Task := []
  /-- The results so far, in the order in which they came. -/
  finished : List TaskReport := []
  /-- How many tasks may still be taken up in this turn. -/
  left : Nat := 0
  /-- Whether it is time to check for cancellation. -/
  checking : Bool := true
  /-- A task or the check has found that the run is cancelled. -/
  cancelled : Bool := false
  /-- Nothing further is done. -/
  ended : Bool := false
deriving Inhabited

namespace Schedule

/-- The number of tasks that are under way. -/
def underWay (s : Schedule) : Nat :=
  s.ready.length + s.resting.length + s.asleep.length

/-- Starts as many tasks as may be under way. -/
def fill (s : Schedule) : Schedule :=
  let count := s.workers - s.underWay
  { s with ready := s.ready ++ s.upcoming.take count, upcoming := s.upcoming.drop count }

/-- Begins a turn. -/
def begin (s : Schedule) : Schedule :=
  { s with left := s.underWay, checking := false }

/-- Stops if the run is cancelled, and starts further tasks and a turn if it is not. -/
def check (s : Schedule) : Schedule :=
  if s.world.cancelled then { s with cancelled := true, ended := true } else s.fill.begin

/-- Lets the tasks go on whose markers have gone. -/
def wake (s : Schedule) : Schedule :=
  { s with
    ready := s.ready ++ s.asleep.filter fun t => !t.isBlocked s.world
    asleep := s.asleep.filter fun t => t.isBlocked s.world }

/-- Whether a result says that its task was cancelled. -/
def isCancelled : TaskResult → Bool
  | .error failures => failures.contains .cancelled
  | .ok _ => false

/-- The result that counts for a task.  A cancelled task counts as nothing but cancelled. -/
def counted (result : TaskResult) : TaskResult :=
  if isCancelled result then .error [.cancelled] else result

/-- Takes a result. -/
def takeResult (s : Schedule) (index : Nat) (result : TaskResult) : Schedule :=
  { s with
    finished := s.finished ++ [⟨index, counted result⟩]
    cancelled := s.cancelled || isCancelled result
    checking := true }

/-- Puts a task where its pace calls for, `others` being the tasks whose turns come after it. -/
def place (s : Schedule) (others : List Task) (t : Task) : Pace → Schedule
  | .going => { s with ready := t :: others }
  | .resting => { s with ready := others, resting := s.resting ++ [t], left := s.left - 1 }
  | .asleep => { s with ready := others, asleep := s.asleep ++ [t], left := s.left - 1 }
  | .closed =>
    let s := { s with ready := others }
    match t.result? with
    | some result => s.takeResult t.index result
    | none => s

/-- Lets the tasks that gave way have a turn, the last of them first, or ends when no task can go
on. -/
def turn (s : Schedule) : Schedule :=
  if s.ready.isEmpty && s.resting.isEmpty then { s with ended := true }
  else { s with ready := s.ready ++ s.resting.reverse, resting := [], checking := true }

/-- One step. -/
def step (setting : Setting) (s : Schedule) : Schedule :=
  if s.ended then s
  else if s.checking then s.check
  else match s.ready with
  | [] => s.turn
  | t :: others =>
    if s.left = 0 then s.turn
    else
      let (world, t, pace) := t.step setting s.world
      ({ s with world }.place others t pace).wake

/-- Goes on step by step until nothing further is to be done.  With packages that lead to ever more
packages that may never be. -/
def finish (setting : Setting) (s : Schedule) : Schedule :=
  Id.run (repeatM (fun s => pure (if s.ended then .inr s else .inl (s.step setting))) s)

/-- Does all tasks. -/
def run (setting : Setting) (world : World) (workers : Nat) (tasks : List Task) : Schedule :=
  finish setting { world, workers, upcoming := tasks }

/-- The indices of the tasks without a result. -/
def unfinished (finished : List TaskReport) (count : Nat) : List Nat :=
  (List.range count).filter fun i => !finished.any fun r => r.index = i

/-- The result of every task.  After a cancellation those that did not finish are cancelled. -/
def complete (cancelled : Bool) (finished : List TaskReport) (count : Nat) : List TaskReport :=
  if cancelled then
    finished ++ (unfinished finished count).map fun i => ⟨i, .error [.cancelled]⟩
  else finished

theorem mem_complete {cancelled : Bool} {finished : List TaskReport} {count : Nat} {report : TaskReport}
    (h : report ∈ complete cancelled finished count) :
    report ∈ finished ∨ cancelled = true ∧ report.result = .error [.cancelled] := by
  unfold complete at h
  split at h
  next hcancelled =>
    refine (List.mem_append.1 h).imp_right fun h => ⟨hcancelled, ?_⟩
    obtain ⟨i, -, rfl⟩ := List.mem_map.1 h
    rfl
  · exact .inl h

end Schedule

end Wiring
