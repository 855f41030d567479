/-
**Every schedule takes one of the orders.**

What the schedule of a run does with the tasks in turn is, apart from the turns themselves, a sequence of
moves: it starts tasks while there is room, lets them go on, takes their results, and stops when it
notices that the run is cancelled.  This is so for every run, whatever its loader answers.

Main definitions:

* `Wiring.Schedule.crew` — the tasks of a schedule without their turns;
* `Wiring.Schedule.Ends` — going on step by step to the end;
* `Wiring.RunInput.launch` — the schedule of a run before its first step.

Main results:

* `Wiring.Task.step_pace` — which tasks are put to sleep, and which are closed;
* `Wiring.Schedule.step_cases` — what a step of the schedule can be;
* `Wiring.Schedule.step_moves` — a step of the schedule is a sequence of moves;
* `Wiring.RunInput.reaches_of_ends` — **where a schedule ends is one of the states that the run can
  reach**.
-/

import Mathlib.Algebra.BigOperators.Group.Multiset.Basic
import Mathlib.Logic.Function.Iterate
import Wiring.Proofs.Run.Interleaving
import Wiring.Proofs.Run.Tasks

set_option autoImplicit false

namespace Wiring

/-! ### Steps and paces -/

namespace Task

variable {setting : Setting} {world : World} {t : Task}

/-- A task that sleeps looks up a package over a marker. -/
def Sleeps (t : Task) : Prop :=
  ∃ errand marker, t.stage = .fetching errand (.asleep marker)

theorem not_isBlocked_of_not_sleeps (h : ¬ t.Sleeps) : t.isBlocked world = false := by
  unfold isBlocked
  split
  next errand marker hstage => exact absurd ⟨errand, marker, hstage⟩ h
  · rfl

theorem not_sleeps_of_fetching {errand : Errand} {lookup : Lookup}
    (hstage : t.stage = .fetching errand lookup) (h : ∀ marker, lookup ≠ .asleep marker) :
    ¬ t.Sleeps := by
  rintro ⟨_, marker, hasleep⟩
  cases hstage.symm.trans hasleep
  exact h marker rfl

theorem not_sleeps_open (t : Task) : ¬ t.open.Sleeps :=
  fun ⟨_, _, h⟩ => t.not_fetching_open h

theorem not_sleeps_takeNext (h : t.stage = .collecting) : ¬ (t.takeNext setting).Sleeps := by
  rintro ⟨errand, marker, hstage⟩
  cases start_of_takeNext h hstage

theorem not_sleeps_receive (t : Task) (answer : Except Failure ProviderSet) :
    ¬ (t.receive answer).Sleeps :=
  fun ⟨_, _, h⟩ => t.not_fetching_receive answer h

/-- Only a task that has its result is closed, and only one that sleeps is put to sleep. -/
theorem step_pace (setting : Setting) (world : World) (hopen : t.result? = none) :
    (t.step setting world).2.2 ≠ .closed ∧
      ((t.step setting world).2.2 ≠ .asleep → ¬ (t.step setting world).2.1.Sleeps) := by
  cases hstage : t.stage with
  | opening =>
      rw [step_of_opening hstage]
      exact ⟨by simp, fun _ => not_sleeps_open t⟩
  | collecting =>
      rw [step_of_collecting hstage]
      exact ⟨by simp, fun _ => not_sleeps_takeNext hstage⟩
  | fetching errand lookup =>
      by_cases hdone : ∃ result, lookup = .done result
      · obtain ⟨result, rfl⟩ := hdone
        rw [step_of_done hstage]
        cases result with
        | error f => exact ⟨by simp [arrive], fun _ => not_sleeps_receive t _⟩
        | ok pkg =>
            rcases arrive_cases setting world t errand pkg with ⟨answer, -, heq⟩ | ⟨-, heq⟩ <;> rw [heq]
            · exact ⟨by simp, fun _ => not_sleeps_receive t _⟩
            · exact ⟨by simp, fun _ => not_sleeps_of_fetching hstage (by simp)⟩
      · -- a lookup that is going on decides the pace
        rw [step_of_looking hstage fun r hr => hdone ⟨r, hr⟩]
        generalize (lookup.poll setting.site world errand.id.pkg).2 = lookup'
        cases lookup' with
        | asleep marker => exact ⟨by simp [paceOf], fun h => absurd rfl h⟩
        | start => exact ⟨by simp [paceOf], fun _ => not_sleeps_of_fetching rfl (by simp)⟩
        | loading => exact ⟨by simp [paceOf], fun _ => not_sleeps_of_fetching rfl (by simp)⟩
        | done => exact ⟨by simp [paceOf], fun _ => not_sleeps_of_fetching rfl (by simp)⟩
  | closed r => rw [result?, hstage] at hopen; cases hopen

end Task

/-! ### Tasks without turns -/

namespace Schedule

variable {setting : Setting} {s last : Schedule} {t : Task}

/-- The tasks of a schedule without their turns. -/
def crew (s : Schedule) : Crew where
  world := s.world
  upcoming := (s.upcoming : Multiset Task)
  underWay := (s.ready ++ s.resting ++ s.asleep : List Task)
  finished := (s.finished : Multiset TaskReport)
  cancelled := s.cancelled

/-- Waking a task does not move it. -/
theorem crew_wake (s : Schedule) : s.wake.crew = s.crew := by
  have hsplit : ((s.asleep.filter fun t => t.isBlocked s.world : List Task) : Multiset Task) +
      (s.asleep.filter fun t => !t.isBlocked s.world : List Task) = (s.asleep : Multiset Task) := by
    rw [Multiset.coe_add, Multiset.coe_eq_coe]
    exact List.filter_append_perm _ _
  unfold crew wake
  simp only [← Multiset.coe_add]
  rw [← hsplit]
  congr 1
  ac_rfl

/-- Neither does a change of turns. -/
theorem crew_turn (s : Schedule) : s.turn.crew = s.crew := by
  unfold turn
  split
  · rfl
  · simp only [crew, ← Multiset.coe_add, Multiset.coe_reverse, List.append_nil]

theorem underWay_eq_card (s : Schedule) : s.underWay = s.crew.underWay.card := by
  simp only [underWay, crew, Multiset.coe_card, List.length_append]

/-- A task that has been taken up is put back among the others. -/
theorem crew_place (others : List Task) {pace : Pace} (hpace : pace ≠ .closed) :
    (s.place others t pace).crew =
      { s.crew with underWay := t ::ₘ (others ++ s.resting ++ s.asleep : List Task) } := by
  cases pace with
  | going => rfl
  | resting =>
      simp only [place, crew, ← Multiset.coe_add, Multiset.coe_singleton,
        ← Multiset.singleton_add]
      congr 1
      ac_rfl
  | asleep =>
      simp only [place, crew, ← Multiset.coe_add, Multiset.coe_singleton,
        ← Multiset.singleton_add]
      congr 1
      ac_rfl
  | closed => exact absurd rfl hpace

/-- A result that is taken joins those that have been taken. -/
theorem crew_takeResult (s : Schedule) (index : Nat) (result : TaskResult) :
    (s.takeResult index result).crew = { s.crew with
      finished := ⟨index, counted result⟩ ::ₘ s.crew.finished
      cancelled := s.crew.cancelled || isCancelled result } := by
  simp only [takeResult, crew, ← Multiset.coe_add, Multiset.coe_singleton, ← Multiset.singleton_add]
  rw [add_comm (s.finished : Multiset TaskReport)]

/-- Several tasks are started at once, as many as there is room for. -/
theorem crew_fill (s : Schedule) :
    ∃ more : List Task, s.crew.upcoming = (more : Multiset Task) + (s.fill.upcoming : Multiset Task) ∧
      more.length ≤ s.workers - s.underWay ∧ s.fill.ready = s.ready ++ more ∧
      s.fill.crew = { s.crew with
        upcoming := s.fill.upcoming
        underWay := (more : Multiset Task) + s.crew.underWay } := by
  refine ⟨s.upcoming.take (s.workers - s.underWay), ?_, List.length_take_le _ _, rfl, ?_⟩
  · rw [Multiset.coe_add]
    simp only [crew, fill, List.take_append_drop]
  · simp only [crew, fill, ← Multiset.coe_add]
    congr 1
    ac_rfl

theorem underWay_of_ready {others : List Task} (hready : s.ready = t :: others) :
    s.crew.underWay = t ::ₘ (others ++ s.resting ++ s.asleep : List Task) := by
  rw [Multiset.cons_coe, crew, hready]
  rfl

/-! ### What a step can be -/

theorem step_of_ended (h : s.ended = true) : s.step setting = s :=
  if_pos h

theorem step_of_checking (hended : s.ended = false) (h : s.checking = true) :
    s.step setting = s.check := by
  rw [step, if_neg (by simp [hended]), if_pos h]

/-- With nobody whose turn it could be, the turn is over. -/
theorem step_of_left (hended : s.ended = false) (hchecking : s.checking = false)
    (h : s.ready = [] ∨ s.left = 0) : s.step setting = s.turn := by
  rw [step, if_neg (by simp [hended]), if_neg (by simp [hchecking])]
  cases hready : s.ready with
  | nil => rfl
  | cons t others =>
      have hleft : s.left = 0 := h.resolve_left (by simp [hready])
      exact if_pos hleft

theorem step_of_ready (hended : s.ended = false) (hchecking : s.checking = false)
    {others : List Task} (hready : s.ready = t :: others) (hleft : s.left ≠ 0) :
    s.step setting = (place { s with world := (t.step setting s.world).1 } others
      (t.step setting s.world).2.1 (t.step setting s.world).2.2).wake := by
  rw [step, if_neg (by simp [hended]), if_neg (by simp [hchecking])]
  simp only [hready, if_neg hleft]

/-- A step does nothing, when all has ended, or it is the check, or a change of turns, or a step of the
task whose turn it is. -/
theorem step_cases (s : Schedule) :
    s.ended = true ∨ s.ended = false ∧ (s.checking = true ∨ s.checking = false ∧
      ((s.ready = [] ∨ s.left = 0) ∨ ∃ t others, s.ready = t :: others ∧ s.left ≠ 0)) := by
  cases s.ended with
  | true => exact Or.inl rfl
  | false =>
      refine Or.inr ⟨rfl, ?_⟩
      cases s.checking with
      | true => exact Or.inl rfl
      | false =>
          refine Or.inr ⟨rfl, ?_⟩
          cases s.ready with
          | nil => exact Or.inl (Or.inl rfl)
          | cons t others =>
              by_cases hleft : s.left = 0
              · exact Or.inl (Or.inr hleft)
              · exact Or.inr ⟨t, others, rfl, hleft⟩

theorem workers_place (s : Schedule) (others : List Task) (t : Task) (pace : Pace) :
    (s.place others t pace).workers = s.workers := by
  cases pace with
  | going => rfl
  | resting => rfl
  | asleep => rfl
  | closed =>
      rw [place]
      cases t.result? <;> rfl

theorem workers_step (setting : Setting) (s : Schedule) : (s.step setting).workers = s.workers := by
  rcases s.step_cases with
    hended | ⟨hended, hchecking | ⟨hchecking, hover | ⟨t, others, hready, hleft⟩⟩⟩
  · rw [step_of_ended hended]
  · rw [step_of_checking hended hchecking, check]
    split <;> rfl
  · rw [step_of_left hended hchecking hover, turn]
    split <;> rfl
  · rw [step_of_ready hended hchecking hready hleft]
    exact workers_place _ _ _ _

end Schedule

/-! ### Sequences of moves -/

namespace Moves

variable {setting : Setting} {workers : Nat} {turns turns' : List Turn} {s s' s'' : Crew}

theorem single {turn : Turn} (h : Move setting workers turn s s') :
    Moves setting workers [turn] s s' :=
  .cons h .nil

theorem trans (h : Moves setting workers turns s s') (h' : Moves setting workers turns' s' s'') :
    Moves setting workers (turns ++ turns') s s'' := by
  induction h with
  | nil => exact h'
  | cons hmove _ ih => exact .cons hmove (ih h')

/-- Several tasks are started one after the other while there is room for them. -/
theorem starts (setting : Setting) {rest : Multiset Task} (more : List Task) {s : Crew}
    (hgoing : s.stopped = false)
    (hmore : s.upcoming = (more : Multiset Task) + rest)
    (hroom : more.length ≤ workers - s.underWay.card) :
    ∃ turns, .fire ∉ turns ∧ Moves setting workers turns s
      { s with upcoming := rest, underWay := (more : Multiset Task) + s.underWay } := by
  induction more generalizing s with
  | nil =>
      rw [Multiset.coe_nil, zero_add] at hmore ⊢
      rw [← hmore]
      exact ⟨[], List.not_mem_nil, .nil⟩
  | cons t more ih =>
      rw [← Multiset.cons_coe, Multiset.cons_add] at hmore
      rw [List.length_cons] at hroom
      have hfirst : Move setting workers (.start t.index) s _ := .start hgoing hmore (by omega)
      have hroom' : more.length ≤ workers - (t ::ₘ s.underWay).card := by
        rw [Multiset.card_cons]
        omega
      obtain ⟨turns, hcalm, hturns⟩ :=
        ih (s := { s with upcoming := more + rest, underWay := t ::ₘ s.underWay }) hgoing rfl hroom'
      rw [← Multiset.cons_coe, Multiset.cons_add, ← Multiset.add_cons]
      exact ⟨.start t.index :: turns, List.not_mem_cons_of_ne_of_not_mem nofun hcalm,
        .cons hfirst hturns⟩

end Moves

/-! ### Steps as moves -/

namespace Schedule

variable {setting : Setting} {s last : Schedule} {t : Task}

/-- The check starts tasks, or it finds that the run is cancelled. -/
theorem check_moves (setting : Setting) (s : Schedule) :
    ∃ turns stopped, .fire ∉ turns ∧
      Moves setting s.workers turns s.crew { s.check.crew with stopped } ∧
        (s.check.ended = false → stopped = false) := by
  unfold check
  split
  next hcancelled =>
    have hstop : Move setting s.workers .stop s.crew _ := .stop rfl hcancelled
    exact ⟨[.stop], true, by simp, .single hstop, nofun⟩
  · obtain ⟨more, hmore, hlength, -, hcrew⟩ := s.crew_fill
    rw [underWay_eq_card] at hlength
    obtain ⟨turns, hcalm, hturns⟩ := Moves.starts setting more rfl hmore hlength
    refine ⟨turns, false, hcalm, ?_, fun _ => rfl⟩
    rw [show s.fill.begin.crew = s.fill.crew from rfl, hcrew]
    exact hturns

/-- A task that is taken up goes on, or its result is taken. -/
theorem place_moves {others : List Task} (hready : s.ready = t :: others) :
    ∃ turns, .fire ∉ turns ∧ Moves setting s.workers turns s.crew
      (place { s with world := (t.step setting s.world).1 } others (t.step setting s.world).2.1
        (t.step setting s.world).2.2).wake.crew := by
  have hunderWay := underWay_of_ready hready
  cases hr : t.result? with
  | some r =>
      have hdeliver : Move setting s.workers (.deliver t.index) s.crew _ := .deliver rfl hunderWay hr
      refine ⟨[.deliver t.index], by simp, ?_⟩
      rw [crew_wake, Task.step_of_result hr]
      simp only [place, hr, crew_takeResult]
      exact .single hdeliver
  | none =>
      -- a load gives way as often as the loader does
      have hadvance : Move setting s.workers (.advance t.index setting.site.loader.pauses) s.crew _ :=
        .advance rfl hunderWay hr
      refine ⟨[.advance t.index setting.site.loader.pauses], by simp, ?_⟩
      rw [crew_wake, crew_place _ (Task.step_pace setting s.world hr).1]
      exact .single hadvance

/-- **A step of the schedule is a sequence of moves**, and the last of them may be that the run stops.  None
of them cancels the run. -/
theorem step_moves (setting : Setting) (hended : s.ended = false) :
    ∃ turns stopped, .fire ∉ turns ∧
      Moves setting s.workers turns s.crew { (s.step setting).crew with stopped } ∧
        ((s.step setting).ended = false → stopped = false) := by
  rcases s.step_cases with hend | ⟨-, hchecking | ⟨hchecking, hover | ⟨t, others, hready, hleft⟩⟩⟩
  · exact absurd (hended.symm.trans hend) Bool.false_ne_true
  · rw [step_of_checking hended hchecking]
    exact check_moves setting s
  · -- a change of turns moves no task
    rw [step_of_left hended hchecking hover, crew_turn]
    exact ⟨[], false, List.not_mem_nil, .nil, fun _ => rfl⟩
  · rw [step_of_ready hended hchecking hready hleft]
    obtain ⟨turns, hcalm, hturns⟩ := place_moves hready
    exact ⟨turns, false, hcalm, hturns, fun _ => rfl⟩

/-! ### The end of a schedule -/

/-- A schedule that goes on step by step comes to an end. -/
inductive Ends (setting : Setting) : Schedule → Schedule → Prop
  | ended {s : Schedule} (h : s.ended = true) : Ends setting s s
  | step {s last : Schedule} (h : s.ended = false) (hs : Ends setting (s.step setting) last) :
      Ends setting s last

/-- One round of the loop. -/
theorem finish_eq (setting : Setting) (s : Schedule) :
    s.finish setting = if s.ended then s else (s.step setting).finish setting := by
  unfold finish
  rw [repeatM_eq_of_monadTail]
  by_cases hended : s.ended <;> simp [repeatM.body, hended]

theorem Ends.finish_eq {last : Schedule} (h : Ends setting s last) : s.finish setting = last := by
  induction h with
  | ended h => rw [Schedule.finish_eq, if_pos h]
  | step h _ ih => rw [Schedule.finish_eq, if_neg (by simp [h]), ih]

/-- A schedule that has ended after some number of steps comes to an end. -/
theorem Ends.of_iterate (n : Nat) {s : Schedule}
    (h : ((Schedule.step setting)^[n] s).ended = true) :
    s.Ends setting ((Schedule.step setting)^[n] s) := by
  induction n generalizing s with
  | zero => exact .ended h
  | succ n ih =>
      rw [Function.iterate_succ_apply] at h ⊢
      by_cases hended : s.ended = true
      · rw [step_of_ended hended] at h ⊢
        exact ih h
      · exact .step (by simpa using hended) (ih h)

/-- All that a schedule does up to its end is a sequence of moves. -/
theorem Ends.moves (h : Ends setting s last) :
    ∃ turns stopped, .fire ∉ turns ∧
      Moves setting s.workers turns s.crew { last.crew with stopped } := by
  induction h with
  | ended => exact ⟨[], false, List.not_mem_nil, .nil⟩
  | @step s last hended hs ih =>
      obtain ⟨turns, stopped, hcalm, hturns, hgoing⟩ := step_moves setting hended
      by_cases hlast : (s.step setting).ended = false
      · obtain ⟨turns', stopped', hcalm', hturns'⟩ := ih
        rw [hgoing hlast] at hturns
        rw [workers_step] at hturns'
        have hnone : Turn.fire ∉ turns ++ turns' := by
          rw [List.mem_append, not_or]
          exact ⟨hcalm, hcalm'⟩
        exact ⟨_, stopped', hnone, hturns.trans hturns'⟩
      · -- the last move may have been to stop, and nothing comes after it
        cases hs with
        | ended => exact ⟨turns, stopped, hcalm, hturns⟩
        | step hgoes => exact absurd hgoes hlast

end Schedule

/-! ### Whole runs -/

/-- The schedule of a run before its first step. -/
def RunInput.start (input : RunInput) (world : World) (roots : LoadOutcome) : Schedule where
  world := fillPackages input world roots
  workers := input.strategy.workers
  upcoming := discover input.options roots.packages

/-- A run whose schedule comes to an end reports on where it ended. -/
theorem Schedule.Ends.generateUnits_eq {input : RunInput} {world : World} {roots : LoadOutcome}
    {last : Schedule} (h : (input.start world roots).Ends input.setting last) :
    generateUnits input world roots =
      (last.world, reportOn input roots last.cancelled last.finished last.world) := by
  have hrun : Schedule.run input.setting (fillPackages input world roots) input.strategy.workers
      (discover input.options roots.packages) = last := h.finish_eq
  rw [generateUnits, hrun]

/-- The schedule of a run before its first step, when the loader has answered for the roots. -/
def RunInput.launch (input : RunInput) (world : World) : Schedule :=
  input.start (world.call input.loader input.rootRequest).1
    (world.call input.loader input.rootRequest).2

/-- A run whose schedule comes to an end reports on where it ended. -/
theorem Schedule.Ends.generate_eq {input : RunInput} {world : World} {last : Schedule}
    (hlive : world.cancelled = false) (h : (input.launch world).Ends input.setting last) :
    generate input world =
      (last.world, reportOn input (world.call input.loader input.rootRequest).2 last.cancelled
        last.finished last.world) := by
  rw [generate, if_neg (by simp [hlive])]
  exact h.generateUnits_eq

/-- **Where a schedule ends is one of the states that the run can reach**, except that it may have been
given up there. -/
theorem RunInput.reaches_of_ends {input : RunInput} {world : World} {last : Schedule}
    (hlive : world.cancelled = false) (h : (input.launch world).Ends input.setting last) :
    ∃ course stopped, input.Reaches course world
      (world.call input.loader input.rootRequest).2 { last.crew with stopped } := by
  have hfire : ∀ world : World, world.fire false = world := by
    intro world
    rw [World.fire, Bool.or_false]
  have hroots : (world.fire false).call input.loader input.rootRequest =
      world.call input.loader input.rootRequest := by
    rw [hfire]
  obtain ⟨turns, stopped, -, hturns⟩ := h.moves
  refine ⟨{ turns }, stopped, .intro hlive hroots ?_⟩
  rw [hfire]
  exact hturns

end Wiring
