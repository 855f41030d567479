/-
**How any run ends.**

A run may be cancelled at any moment.  If that happens before its first task is started, it is noticed
before anything else, and no task is started at all; from then on the run takes whatever turns it may, until
the cancellation is noticed or every result has been taken.  The order of the schedule is one of these, for
its sleepers always wait for a task that can go on.

Main definitions:

* `Wiring.RunInput.Proceeds` — what a run has come to along a course;
* `Wiring.RunInput.Makes` — a run along a course with the results of its tasks and its report;
* `Wiring.Schedule.Guarded` — what holds of the turns of any schedule.

Main results:

* `Wiring.Schedule.over_of_guarded` — a schedule that has ended has no task left, or it was cancelled;
* `Wiring.RunInput.Returns.makes` — **the order of the schedule is one of those that a run may take**.
-/

import Wiring.Proofs.Run.History
import Wiring.Proofs.Run.Treads

set_option autoImplicit false

namespace Wiring

/-! ### Runs that may be cancelled -/

/-- A course in which nobody cancels the run, unless the loader does. -/
structure Course.Calm (course : Course) : Prop where
  roots : course.beforeRoots = false
  imports : course.beforeImports = false
  turns : .fire ∉ course.turns

/-- What a run has come to along a course.  A run that is cancelled before its first task stops at once. -/
inductive RunInput.Proceeds (input : RunInput) (course : Course) (world : World) :
    LoadOutcome → Crew → Prop
  | halts {opened : World} {roots : LoadOutcome} (h : world.cancelled = false)
      (hroots : (world.fire course.beforeRoots).call input.loader input.rootRequest =
        (opened, roots))
      (hcancelled :
        (Crew.outset input (opened.fire course.beforeImports) roots).world.cancelled = true) :
      Proceeds input course world roots
        { Crew.outset input (opened.fire course.beforeImports) roots with
          cancelled := true
          stopped := true }
  | goes {opened : World} {roots : LoadOutcome} {s : Crew} (h : world.cancelled = false)
      (hroots : (world.fire course.beforeRoots).call input.loader input.rootRequest =
        (opened, roots))
      (hlive :
        (Crew.outset input (opened.fire course.beforeImports) roots).world.cancelled = false)
      (hmoves : Moves input.setting input.strategy.workers course.turns
        (Crew.outset input (opened.fire course.beforeImports) roots) s) :
      Proceeds input course world roots s

/-- A run along a course, with what the loader has answered for its roots, the results of its tasks and the
report. -/
inductive RunInput.Makes (input : RunInput) (course : Course) (world : World) :
    LoadOutcome → List TaskReport → Report → Prop
  | refused (h : world.cancelled = true) : Makes input course world {} [] (Report.cut {})
  | done {roots : LoadOutcome} {s : Crew} {finished : List TaskReport}
      (h : input.Proceeds course world roots s) (hover : s.Over)
      (hfinished : (finished : Multiset TaskReport) = s.finished) :
      Makes input course world roots
        (Schedule.complete s.cancelled finished (discover input.options roots.packages).length)
        (reportOn input roots s.cancelled finished s.world)

/-- Stopping before the first task is a move like any other. -/
theorem RunInput.Proceeds.reaches {input : RunInput} {course : Course} {world : World}
    {roots : LoadOutcome} {s : Crew} (h : input.Proceeds course world roots s) :
    ∃ course', input.Reaches course' world roots s := by
  cases h with
  | @halts opened _ h hroots hcancelled =>
      have hstop : Move input.setting input.strategy.workers .stop
          (Crew.outset input (opened.fire course.beforeImports) roots) _ := .stop rfl hcancelled
      exact ⟨{ course with turns := [.stop] }, .intro h hroots (.single hstop)⟩
  | goes h hroots _ hmoves => exact ⟨course, .intro h hroots hmoves⟩

/-! ### The turns of any schedule -/

namespace Schedule

variable {setting : Setting} {s last : Schedule} {t : Task}

/-- What holds of the turns of any schedule.  The tasks that sleep are those that wait for a marker, and
while a turn goes on as many tasks as may be are under way.  The end comes when the run is cancelled, or when
there is nobody whose turn it could be. -/
structure Guarded (s : Schedule) : Prop where
  asleep : ∀ t ∈ s.asleep, t.isBlocked s.world = true
  full : s.checking = false → s.upcoming = [] ∨ s.workers ≤ s.underWay
  live : s.checking = false → s.world.cancelled = false ∨ 0 < s.underWay
  ended : s.ended = true → s.world.cancelled = true ∧ s.cancelled = true ∨
    s.checking = false ∧ s.ready = [] ∧ s.resting = []

theorem guarded_start (world : World) (workers : Nat) (tasks : List Task) :
    ({ world, workers, upcoming := tasks } : Schedule).Guarded :=
  ⟨fun _ ht => absurd ht List.not_mem_nil, nofun, nofun, nofun⟩

theorem Guarded.check (h : s.Guarded) (hended : s.ended = false) (hchecking : s.checking = true) :
    s.check.Guarded := by
  unfold Schedule.check
  split
  next hcancelled =>
    refine ⟨h.asleep, fun hc => ?_, fun hc => ?_, fun _ => Or.inl ⟨hcancelled, rfl⟩⟩
    · exact absurd (hchecking.symm.trans hc) Bool.false_ne_true.symm
    · exact absurd (hchecking.symm.trans hc) Bool.false_ne_true.symm
  next hlive =>
    refine ⟨h.asleep, fun _ => s.fill_underWay, fun _ => Or.inl ?_, fun he => ?_⟩
    · exact Bool.not_eq_true _ ▸ hlive
    · exact absurd (hended.symm.trans he) Bool.false_ne_true

theorem Guarded.turn (h : s.Guarded) (hended : s.ended = false) (hchecking : s.checking = false) :
    s.turn.Guarded := by
  unfold Schedule.turn
  split
  next hnobody =>
    rw [Bool.and_eq_true, List.isEmpty_iff, List.isEmpty_iff] at hnobody
    exact ⟨h.asleep, h.full, h.live, fun _ => Or.inr ⟨hchecking, hnobody⟩⟩
  · refine ⟨h.asleep, nofun, nofun, fun he => ?_⟩
    exact absurd (hended.symm.trans he) Bool.false_ne_true

/-- Waking puts right who sleeps. -/
theorem guarded_wake (hfull : s.checking = false → s.upcoming = [] ∨ s.workers ≤ s.underWay)
    (hlive : s.checking = false → s.world.cancelled = false ∨ 0 < s.underWay)
    (hended : s.ended = false) : s.wake.Guarded := by
  have hcount : s.wake.underWay = s.underWay := by
    rw [underWay_eq_card, underWay_eq_card, crew_wake]
  refine ⟨fun t ht => (List.mem_filter.1 ht).2, ?_, ?_, fun he => ?_⟩
  · rw [hcount]
    exact hfull
  · rw [hcount]
    exact hlive
  · exact absurd (hended.symm.trans he) Bool.false_ne_true

/-- The task whose turn it was is under way still. -/
theorem underWay_place {others : List Task} {t t' : Task} {pace : Pace}
    (hready : s.ready = t :: others) (hopen : pace ≠ .closed) (world : World) :
    (place { s with world } others t' pace).underWay = s.underWay := by
  rw [underWay_eq_card, crew_place _ hopen, underWay_eq_card, underWay_of_ready hready,
    Multiset.card_cons, Multiset.card_cons]

theorem Guarded.place (h : s.Guarded) (hended : s.ended = false) (hchecking : s.checking = false)
    {others : List Task} {t t' : Task} {pace : Pace} (hready : s.ready = t :: others)
    (hopen : pace ≠ .closed) (world : World) :
    (Schedule.place { s with world } others t' pace).wake.Guarded := by
  have hcount : (Schedule.place { s with world } others t' pace).underWay = s.underWay :=
    underWay_place hready hopen world
  have hsome : 0 < s.underWay := by
    rw [underWay, hready, List.length_cons]
    omega
  refine guarded_wake ?_ (fun _ => Or.inr (by rwa [hcount])) ?_
  · intro _
    rw [hcount]
    cases pace with
    | going => exact h.full hchecking
    | resting => exact h.full hchecking
    | asleep => exact h.full hchecking
    | closed => exact absurd rfl hopen
  · cases pace with
    | going => exact hended
    | resting => exact hended
    | asleep => exact hended
    | closed => exact absurd rfl hopen

theorem Guarded.step (h : s.Guarded) : (s.step setting).Guarded := by
  rcases s.step_cases with
    hended | ⟨hended, hchecking | ⟨hchecking, hover | ⟨t, others, hready, hleft⟩⟩⟩
  · rw [step_of_ended hended]
    exact h
  · rw [step_of_checking hended hchecking]
    exact h.check hended hchecking
  · rw [step_of_left hended hchecking hover]
    exact h.turn hended hchecking
  · rw [step_of_ready hended hchecking hready hleft]
    cases hr : t.result? with
    | some r =>
        -- a result is taken, and the next thing is the check
        rw [Task.step_of_result hr]
        simp only [Schedule.place, hr]
        exact guarded_wake (by simp [takeResult]) (by simp [takeResult]) hended
    | none => exact h.place hended hchecking hready (Task.step_pace setting s.world hr).1 _

theorem Ends.guarded (hends : s.Ends setting last) (h : s.Guarded) :
    last.Guarded ∧ last.ended = true ∧ last.workers = s.workers := by
  induction hends with
  | ended hended => exact ⟨h, hended, rfl⟩
  | @step s last _ _ ih =>
      obtain ⟨hlast, hended, hworkers⟩ := ih h.step
      exact ⟨hlast, hended, hworkers.trans (workers_step setting s)⟩

/-- **A schedule that has ended has no task left, or it was cancelled.** -/
theorem over_of_guarded (h : s.Guarded) (howned : s.crew.Owned) (hworkers : 0 < s.workers)
    (hended : s.ended = true) :
    s.world.cancelled = true ∧ s.cancelled = true ∨ s.crew.Over := by
  refine (h.ended hended).imp_right ?_
  rintro ⟨hchecking, hready, hresting⟩
  have hasleep : s.asleep = [] := by
    rw [List.eq_nil_iff_forall_not_mem]
    intro t ht
    -- a sleeper would wait for a task that is loading, but there are only sleepers
    obtain ⟨path, marker, hpending⟩ := Task.pending_of_isBlocked (h.asleep t ht)
    obtain ⟨owner, howner, hloads⟩ := howned path marker hpending
    have hmem : owner ∈ s.asleep := by
      simpa [crew, hready, hresting] using howner
    exact Bool.false_ne_true (hloads.not_isBlocked.symm.trans (h.asleep owner hmem))
  have hnobody : s.underWay = 0 := by
    simp [underWay, hready, hresting, hasleep]
  have hupcoming : s.upcoming = [] := by
    refine (h.full hchecking).resolve_right ?_
    omega
  have hlive : s.world.cancelled = false := (h.live hchecking).resolve_right (by omega)
  right
  refine ⟨?_, ?_, hlive⟩
  · rw [crew, hupcoming]
    rfl
  · rw [crew, hready, hresting, hasleep]
    rfl

end Schedule

/-! ### The start of any run -/

/-- Nobody is loading. -/
def PackageCache.Quiet (cache : PackageCache) : Prop :=
  ∀ path marker, cache.isPending path marker = false

theorem PackageCache.Quiet.seed {cache : PackageCache} (h : cache.Quiet) (o : LoadOutcome) :
    (cache.seed o).Quiet := by
  intro path marker
  rw [Bool.eq_false_iff, Ne, isPending_iff]
  intro hpending
  rcases seed_cases hpending with hslot | ⟨p, -, -, heq⟩ | ⟨e, -, -, heq⟩
  · rw [← isPending_iff, h path marker] at hslot
    cases hslot
  · cases heq
  · cases heq

theorem quiet_fillPackages (input : RunInput) (world : World) (roots : LoadOutcome) :
    (fillPackages input world roots).packages.Quiet :=
  fillPackages_induction (P := PackageCache.Quiet) (fun _ _ _ => rfl) (fun _ o h => h.seed o) input world
    roots

theorem Crew.owned_outset (input : RunInput) (world : World) (roots : LoadOutcome) :
    (Crew.outset input world roots).Owned := by
  intro path marker hpending
  rw [outset, quiet_fillPackages input world roots path marker] at hpending
  cases hpending

/-! ### The order of the schedule -/

theorem World.fire_false (world : World) : world.fire false = world := by
  rw [fire, Bool.or_false]

namespace RunInput

variable {input : RunInput} {world : World} {last : Schedule}

theorem workers_pos (input : RunInput) : 0 < input.strategy.workers := by
  cases input.strategy with
  | sequential => exact Nat.one_pos
  | parallel n => exact Nat.lt_of_lt_of_le Nat.one_pos (Nat.le_max_right n 1)
  | lazy => exact Nat.one_pos
  | parallelLazy n => exact Nat.lt_of_lt_of_le Nat.one_pos (Nat.le_max_right n 1)

/-- A schedule that starts in a cancelled world does not start any task. -/
theorem ends_of_cancelled {s : Schedule} {setting : Setting} (h : s.Ends setting last)
    (hended : s.ended = false) (hchecking : s.checking = true) (hcancelled : s.world.cancelled = true) :
    last = { s with cancelled := true, ended := true } := by
  have hstep : s.step setting = { s with cancelled := true, ended := true } := by
    rw [Schedule.step_of_checking hended hchecking, Schedule.check, if_pos hcancelled]
  cases h with
  | ended he => exact absurd (hended.symm.trans he) Bool.false_ne_true
  | step _ hs =>
      rw [hstep] at hs
      cases hs with
      | ended => rfl
      | step he => cases he

theorem call_fire_false (input : RunInput) (world : World) :
    (world.fire false).call input.loader input.rootRequest =
      ((world.call input.loader input.rootRequest).1,
        (world.call input.loader input.rootRequest).2) := by
  rw [World.fire_false]

theorem crew_launch (input : RunInput) (world : World) :
    (input.launch world).crew = Crew.outset input
      ((world.call input.loader input.rootRequest).1.fire false)
      (world.call input.loader input.rootRequest).2 := by
  rw [World.fire_false]
  rfl

/-- A run that the loading of the roots cancels stops before its first task. -/
theorem proceeds_of_cancelled (hlive : world.cancelled = false)
    (h : (input.launch world).Ends input.setting last)
    (hcancelled : (input.launch world).world.cancelled = true) :
    input.Proceeds {} world (world.call input.loader input.rootRequest).2
      { last.crew with stopped := true } := by
  have hlast : ({ last.crew with stopped := true } : Crew) =
      { Crew.outset input ((world.call input.loader input.rootRequest).1.fire false)
          (world.call input.loader input.rootRequest).2 with
        cancelled := true
        stopped := true } := by
    rw [ends_of_cancelled h rfl rfl hcancelled, ← crew_launch]
    rfl
  rw [hlast]
  exact .halts hlive (input.call_fire_false world) (input.crew_launch world ▸ hcancelled)

/-- Where a schedule ends is one of the states that the run can come to, and there it is over. -/
theorem proceeds_of_ends (hlive : world.cancelled = false)
    (h : (input.launch world).Ends input.setting last) :
    ∃ course stopped, course.Calm ∧
      input.Proceeds course world (world.call input.loader input.rootRequest).2
        { last.crew with stopped } ∧
      ({ last.crew with stopped } : Crew).Over := by
  cases hcancelled : (input.launch world).world.cancelled with
  | true =>
      exact ⟨{}, true, ⟨rfl, rfl, List.not_mem_nil⟩, proceeds_of_cancelled hlive h hcancelled,
        Or.inl rfl⟩
  | false =>
      obtain ⟨turns, stopped, hcalm, hturns⟩ := h.moves
      have howned : ({ last.crew with stopped } : Crew).Owned :=
        Moves.owned (input.crew_launch world ▸ Crew.owned_outset _ _ _) hturns
      obtain ⟨hguarded, hended, hworkers⟩ := h.guarded (Schedule.guarded_start _ _ _)
      have hgoes : ∀ {turns s}, Moves input.setting input.strategy.workers turns
          (input.launch world).crew s →
          input.Proceeds { turns } world (world.call input.loader input.rootRequest).2 s := by
        intro turns s hmoves
        rw [crew_launch] at hmoves
        exact .goes hlive (input.call_fire_false world) (input.crew_launch world ▸ hcancelled) hmoves
      rcases Schedule.over_of_guarded hguarded howned (hworkers ▸ input.workers_pos) hended with
        ⟨hfired, hnoticed⟩ | hover
      · -- the cancellation has been noticed, which is to stop
        have hstop : Move input.setting input.strategy.workers .stop
            { last.crew with stopped := false } _ := .stop rfl hfired
        have hlast : ({ last.crew with cancelled := true, stopped := true } : Crew) =
            { last.crew with stopped := true } := by
          rw [← show last.crew.cancelled = true from hnoticed]
        cases stopped with
        | true => exact ⟨{ turns }, true, ⟨rfl, rfl, hcalm⟩, hgoes hturns, Or.inl rfl⟩
        | false =>
            have hmoves := hturns.trans (.single hstop)
            rw [hlast] at hmoves
            have hnone : Turn.fire ∉ turns ++ [.stop] := by simp [hcalm]
            exact ⟨{ turns := turns ++ [.stop] }, true, ⟨rfl, rfl, hnone⟩, hgoes hmoves, Or.inl rfl⟩
      · exact ⟨{ turns }, stopped, ⟨rfl, rfl, hcalm⟩, hgoes hturns,
          Or.inr (hover.resolve_left Bool.false_ne_true)⟩

/-- **The order of the schedule is one of those that a run may take.** -/
theorem Returns.makes (h : input.Returns world) (hlive : world.cancelled = false) :
    ∃ course results, course.Calm ∧
      input.Makes course world (world.call input.loader input.rootRequest).2 results
        (generate input world).2 := by
  obtain ⟨last, hends⟩ := h hlive
  obtain ⟨course, stopped, hcalm, hproceeds, hover⟩ := proceeds_of_ends hlive hends
  have hmakes := @RunInput.Makes.done input course world _ _ last.finished hproceeds hover rfl
  rw [hends.generate_eq hlive]
  exact ⟨course, _, hcalm, hmakes⟩

/-- What a run leaves behind and reports in the order of the schedule is what it may come to. -/
theorem Returns.follows (h : input.Returns world) :
    ∃ course, input.Follows course world (generate input world).1 (generate input world).2 := by
  cases hlive : world.cancelled with
  | true =>
      rw [generate_of_cancelled hlive]
      exact ⟨{}, .refused hlive⟩
  | false =>
      obtain ⟨last, hends⟩ := h hlive
      obtain ⟨_, stopped, -, hproceeds, hover⟩ := proceeds_of_ends hlive hends
      obtain ⟨course, hreaches⟩ := hproceeds.reaches
      rw [hends.generate_eq hlive]
      exact ⟨course, .done hreaches hover ⟨last.finished, rfl, rfl⟩⟩

end RunInput

end Wiring
