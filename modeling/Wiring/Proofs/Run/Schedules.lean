/-
**The schedule of a run that nobody cancels comes to its end.**

Between two moves of a schedule there are at most three changes of turns, because a turn begins with as
many steps to spare as there are tasks under way.  So with every few steps there is less to do, and when
the schedule of a run that nobody cancels has come to its end the run is over.

Main definitions:

* `Wiring.Schedule.Orderly` — the sleepers are those that wait for a marker, and the schedule does not
  end early;
* `Wiring.Schedule.phase` — how many changes of turns may come before the next move;
* `Wiring.Schedule.toDo` — what is left to do.

Main results:

* `Wiring.Schedule.step_steady` — a step keeps what holds throughout a run, and it leaves less work or
  the same work and a lower phase;
* `Wiring.Schedule.exists_ends` — **the schedule comes to the end of the run**.
-/

import Wiring.Proofs.Run.Crews
import Wiring.Proofs.Run.Orders

set_option autoImplicit false

namespace Wiring

/-! ### Filling slots -/

theorem PackageCache.Fills.trans {c : Collection} {a b d : PackageCache} (h : a.Fills c b)
    (h' : b.Fills c d) : a.Fills c d := by
  refine ⟨fun path hpath => h'.held path (h.held path hpath), ?_⟩
  intro path marker hpending
  rcases h.marked path marker hpending with hpending | hholds
  · exact h'.marked path marker hpending
  · exact Or.inr (h'.held path hholds)

namespace Task

variable {setting : Setting} {c : Collection} {roots : List Package} {world world' : World} {t : Task}

theorem fills_of_transGen {x y : World × Task} (h : Relation.TransGen (Goes setting c) x y) :
    x.1.packages.Fills c y.1.packages := by
  induction h with
  | single h => exact Goes.fills h
  | tail _ h ih => exact ih.trans (Goes.fills h)

/-- A step only fills slots. -/
theorem step_fills (hs : c.ServedAt setting.site) (hw : world.Stocked c roots)
    (ht : t.Apt c roots world) (hopen : t.result? = none) :
    world.packages.Fills c (t.step setting world).1.packages := by
  rcases step_goes hs hw ht hopen with ⟨-, heq, -⟩ | hgoes
  · rw [heq]
    exact .refl _
  · exact fills_of_transGen hgoes

/-- A task that waits for nothing goes on waiting for nothing. -/
theorem Apt.not_isBlocked_of_fills (ht : t.Apt c roots world)
    (hfills : world.packages.Fills c world'.packages) (h : t.isBlocked world = false) :
    t.isBlocked world' = false := by
  unfold isBlocked at h ⊢
  split
  next errand marker hstage =>
    simp only [hstage] at h
    have hlookup := ht.lookup errand _ hstage
    exact PackageCache.not_isPending_of_holds
      (hfills.held _ (hlookup.resolve_left (by simp [h])))
  · rfl

end Task

/-! ### Turns -/

namespace Schedule

/-- What holds of the turns.  The tasks that sleep are those that wait for a marker, while a turn goes on
as many tasks as may be are under way, and the end comes when there is nobody whose turn it could be. -/
structure Orderly (s : Schedule) : Prop where
  fresh : ∀ t ∈ s.upcoming, ¬ t.Sleeps
  awake : ∀ t ∈ s.ready ++ s.resting, t.isBlocked s.world = false
  asleep : ∀ t ∈ s.asleep, t.isBlocked s.world = true
  full : s.checking = false → s.upcoming = [] ∨ s.workers ≤ s.underWay
  ended : s.ended = true → s.checking = false ∧ s.ready = [] ∧ s.resting = []

theorem orderly_start (world : World) (workers : Nat) {tasks : List Task}
    (h : ∀ t ∈ tasks, ¬ t.Sleeps) : ({ world, workers, upcoming := tasks } : Schedule).Orderly := by
  refine ⟨h, ?_, ?_, nofun, nofun⟩
  · exact fun t ht => absurd ht List.not_mem_nil
  · exact fun t ht => absurd ht List.not_mem_nil

/-- How many changes of turns may come before the next move. -/
def phase (s : Schedule) : Nat :=
  if s.checking then if s.ready = [] then 3 else 1
  else if s.ready = [] ∨ s.left = 0 then 2 else 0

variable {setting : Setting} {c : Collection} {roots : List Package} {tasks : List Task}
  {s : Schedule} {t : Task}

theorem fill_underWay (s : Schedule) :
    s.fill.upcoming = [] ∨ s.workers ≤ s.fill.underWay := by
  simp only [fill, underWay, List.length_append, List.length_take, List.drop_eq_nil_iff]
  omega

end Schedule

/-- Any number of tasks are started. -/
theorem Crew.Steady.starts {setting : Setting} {c : Collection} {roots : List Package}
    {tasks : List Task} {rest : Multiset Task} (more : List Task) {s : Crew}
    (h : s.Steady setting c roots tasks) (hmore : s.upcoming = (more : Multiset Task) + rest) :
    ({ s with upcoming := rest, underWay := (more : Multiset Task) + s.underWay } : Crew).Steady
        setting c roots tasks ∧
      (more = [] ∨ ({ s with
        upcoming := rest
        underWay := (more : Multiset Task) + s.underWay } : Crew).work c < s.work c) := by
  induction more generalizing s with
  | nil =>
      rw [Multiset.coe_nil, zero_add] at hmore ⊢
      rw [← hmore]
      exact ⟨h, Or.inl rfl⟩
  | cons t more ih =>
      rw [← Multiset.cons_coe, Multiset.cons_add] at hmore
      have hlt := Crew.work_start (c := c) hmore
      obtain ⟨hsteady, hless⟩ := ih (h.start hmore) rfl
      rw [← Multiset.cons_coe, Multiset.cons_add, ← Multiset.add_cons]
      refine ⟨hsteady, Or.inr ?_⟩
      rcases hless with rfl | hless
      · simpa only [Multiset.coe_nil, zero_add] using hlt
      · exact hless.trans hlt

namespace Schedule

variable {setting : Setting} {c : Collection} {roots : List Package} {tasks : List Task}
  {s : Schedule} {t : Task}

/-! ### Steps -/

/-- What is left to do: first the work itself, then the changes of turns. -/
def toDo (c : Collection) (s : Schedule) : (ℕ ×ₗ ℕ ×ₗ ℕ) ×ₗ ℕ :=
  toLex (s.crew.work c, s.phase)

theorem toDo_lt_of_work_lt {s' : Schedule} (h : s'.crew.work c < s.crew.work c) :
    s'.toDo c < s.toDo c :=
  Prod.Lex.toLex_lt_toLex.2 (Or.inl h)

theorem toDo_lt_of_phase_lt {s' : Schedule} (h : s'.crew = s.crew) (hphase : s'.phase < s.phase) :
    s'.toDo c < s.toDo c :=
  Prod.Lex.toLex_lt_toLex.2 (Or.inr ⟨by rw [h], hphase⟩)

/-- The check for cancellation finds nothing, and tasks are started. -/
theorem check_steady (h : s.crew.Steady setting c roots tasks) (ho : s.Orderly)
    (hended : s.ended = false) (hchecking : s.checking = true) :
    s.check.crew.Steady setting c roots tasks ∧ s.check.Orderly ∧ s.check.toDo c < s.toDo c := by
  have hcheck : s.check = s.fill.begin := by
    rw [check, show s.world.cancelled = false from h.world.live]
    rfl
  obtain ⟨more, hmore, -, hready, hcrew⟩ := s.crew_fill
  obtain ⟨hsteady, hless⟩ := h.starts more hmore
  have hupcoming : ∀ t, t ∈ more ∨ t ∈ s.fill.upcoming → ¬ t.Sleeps := by
    intro t ht
    refine ho.fresh t ?_
    rw [← Multiset.mem_coe, show (s.upcoming : Multiset Task) = s.crew.upcoming from rfl, hmore,
      Multiset.mem_add, Multiset.mem_coe, Multiset.mem_coe]
    exact ht
  rw [hcheck]
  refine ⟨hcrew ▸ hsteady, ⟨?_, ?_, ho.asleep, fun _ => s.fill_underWay, ?_⟩, ?_⟩
  · exact fun t ht => hupcoming t (Or.inr ht)
  · intro t ht
    have hmem : t ∈ (s.ready ++ more) ++ s.resting := hready ▸ ht
    rcases List.mem_append.1 hmem with ht | ht
    · rcases List.mem_append.1 ht with ht | ht
      · exact ho.awake t (List.mem_append_left _ ht)
      · exact Task.not_isBlocked_of_not_sleeps (hupcoming t (Or.inl ht))
    · exact ho.awake t (List.mem_append_right _ ht)
  · intro he
    exact absurd (hended.symm.trans he) Bool.false_ne_true
  · rcases hless with rfl | hless
    · -- nothing has been started, so it is the phase that has changed
      rw [List.append_nil] at hready
      rw [Multiset.coe_nil, zero_add] at hmore
      refine toDo_lt_of_phase_lt ?_ ?_
      · rw [show s.fill.begin.crew = s.fill.crew from rfl, hcrew, ← hmore, Multiset.coe_nil, zero_add]
      · have hbefore : s.phase = if s.ready = [] then 3 else 1 := if_pos hchecking
        have hafter : s.fill.begin.phase = if s.ready = [] ∨ s.fill.underWay = 0 then 2 else 0 := by
          rw [← hready]
          rfl
        rw [hbefore, hafter]
        by_cases hnobody : s.ready = []
        · simp [hnobody]
        · have hsome : 0 < s.ready.length := List.length_pos_of_ne_nil hnobody
          have hleft : s.fill.underWay ≠ 0 := by
            rw [underWay, hready]
            omega
          simp [hnobody, hleft]
    · exact toDo_lt_of_work_lt (hcrew ▸ hless)

/-- The turn is over. -/
theorem turn_steady (h : s.crew.Steady setting c roots tasks) (ho : s.Orderly)
    (hended : s.ended = false) (hchecking : s.checking = false) (hover : s.ready = [] ∨ s.left = 0) :
    s.turn.crew.Steady setting c roots tasks ∧ s.turn.Orderly ∧
      (s.turn.ended = true ∨ s.turn.toDo c < s.toDo c) := by
  have hcrew := s.crew_turn
  refine ⟨hcrew ▸ h, ?_⟩
  unfold turn
  split
  next hnobody =>
    rw [Bool.and_eq_true, List.isEmpty_iff, List.isEmpty_iff] at hnobody
    exact ⟨⟨ho.fresh, ho.awake, ho.asleep, ho.full, fun _ => ⟨hchecking, hnobody⟩⟩, Or.inl rfl⟩
  next hsomebody =>
    refine ⟨⟨ho.fresh, ?_, ho.asleep, nofun, fun he => ?_⟩, Or.inr ?_⟩
    · intro t ht
      refine ho.awake t ?_
      simpa only [List.append_nil, List.mem_append, List.mem_reverse] using ht
    · exact absurd (hended.symm.trans he) Bool.false_ne_true
    · refine toDo_lt_of_phase_lt ?_ ?_
      · rwa [turn, if_neg hsomebody] at hcrew
      · have hbefore : s.phase = 2 := by
          rw [phase, hchecking]
          exact if_pos hover
        have hsome : s.ready ++ s.resting.reverse ≠ [] := by
          intro hnil
          rw [List.append_eq_nil_iff, List.reverse_eq_nil_iff] at hnil
          exact hsomebody (by simp [hnil])
        rw [hbefore]
        simp [phase, hsome]

/-- Whatever is awake and blocked after a change of the world is put right by waking. -/
theorem wake_orderly (hfresh : ∀ t ∈ s.upcoming, ¬ t.Sleeps)
    (hawake : ∀ t ∈ s.ready ++ s.resting, t.isBlocked s.world = false)
    (hfull : s.checking = false → s.upcoming = [] ∨ s.workers ≤ s.underWay) (hended : s.ended = false) :
    s.wake.Orderly := by
  refine ⟨hfresh, ?_, ?_, ?_, fun he => absurd (hended.symm.trans he) Bool.false_ne_true⟩
  · intro t ht
    simp only [wake, List.mem_append, List.mem_filter, Bool.not_eq_true'] at ht
    rcases ht with (ht | ht) | ht
    · exact hawake t (List.mem_append_left _ ht)
    · exact ht.2
    · exact hawake t (List.mem_append_right _ ht)
  · intro t ht
    exact (List.mem_filter.1 ht).2
  · intro hchecking
    have hcount : s.wake.underWay = s.underWay := by
      rw [underWay_eq_card, underWay_eq_card, crew_wake]
    rw [hcount]
    exact hfull hchecking

/-! ### What a step keeps -/

/-- The result of the task whose turn it is is taken. -/
theorem takeResult_steady (h : s.crew.Steady setting c roots tasks) (ho : s.Orderly)
    (hended : s.ended = false) {others : List Task} (hready : s.ready = t :: others) {r : TaskResult}
    (hr : t.result? = some r) {s' : Schedule}
    (hs' : s' = (takeResult { s with ready := others } t.index r).wake) :
    s'.crew.Steady setting c roots tasks ∧ s'.Orderly ∧ s'.toDo c < s.toDo c := by
  have hunderWay := underWay_of_ready hready
  have hcrew : s'.crew = { s.crew with
      underWay := (others ++ s.resting ++ s.asleep : List Task)
      finished := ⟨t.index, counted r⟩ ::ₘ s.crew.finished
      cancelled := s.crew.cancelled || isCancelled r } := by
    rw [hs', crew_wake, crew_takeResult]
    rfl
  refine ⟨?_, ?_, ?_⟩
  · rw [hcrew]
    exact h.deliver hunderWay hr
  · rw [hs']
    refine wake_orderly ho.fresh ?_ nofun hended
    intro u hu
    refine ho.awake u ?_
    rw [hready]
    exact List.mem_cons_of_mem _ hu
  · refine toDo_lt_of_work_lt ?_
    rw [hcrew]
    exact Crew.work_deliver hunderWay _ _

theorem mem_place {others : List Task} {pace : Pace} {u : Task} (hpace : pace ≠ .closed)
    (hu : u ∈ (s.place others t pace).ready ++ (s.place others t pace).resting) :
    u = t ∧ pace ≠ .asleep ∨ u ∈ others ++ s.resting := by
  cases pace with
  | going =>
      simp only [place, List.cons_append, List.mem_cons] at hu
      exact hu.imp_left fun heq => ⟨heq, by decide⟩
  | resting =>
      simp only [place, ← List.append_assoc] at hu
      rcases List.mem_append.1 hu with hu | hu
      · exact Or.inr hu
      · exact Or.inl ⟨List.mem_singleton.1 hu, by decide⟩
  | asleep => exact Or.inr hu
  | closed => exact absurd rfl hpace

/-- The turns are in order when a task has been put back among others that wait for nothing. -/
theorem place_orderly (ho : s.Orderly) (hended : s.ended = false) (hchecking : s.checking = false)
    {u : Task} {others : List Task} (hready : s.ready = u :: others) {world : World} {pace : Pace}
    (hopen : pace ≠ .closed) (hpace : pace ≠ .asleep → t.isBlocked world = false)
    (hothers : ∀ u ∈ others ++ s.resting, u.isBlocked world = false) :
    (place { s with world } others t pace).wake.Orderly := by
  have hsame : ∀ {s : Schedule}, (s.place others t pace).upcoming = s.upcoming ∧
      (s.place others t pace).workers = s.workers ∧ (s.place others t pace).checking = s.checking ∧
      (s.place others t pace).ended = s.ended ∧ (s.place others t pace).world = s.world := by
    intro s
    cases pace with
    | going => exact ⟨rfl, rfl, rfl, rfl, rfl⟩
    | resting => exact ⟨rfl, rfl, rfl, rfl, rfl⟩
    | asleep => exact ⟨rfl, rfl, rfl, rfl, rfl⟩
    | closed => exact absurd rfl hopen
  obtain ⟨hupcoming, hworkers, -, hend, hworld⟩ := hsame (s := { s with world })
  have hcount : (place { s with world } others t pace).underWay = s.underWay := by
    rw [underWay_eq_card, crew_place _ hopen, underWay_eq_card, underWay_of_ready hready,
      Multiset.card_cons, Multiset.card_cons]
  refine wake_orderly ?_ ?_ ?_ (hend.trans hended)
  · rw [hupcoming]
    exact ho.fresh
  · intro v hv
    rw [hworld]
    rcases mem_place hopen hv with ⟨rfl, hawake⟩ | hv
    · exact hpace hawake
    · exact hothers v hv
  · intro _
    rw [hupcoming, hworkers, hcount]
    exact ho.full hchecking

/-- The task whose turn it is goes on. -/
theorem place_steady (hs : c.ServedAt setting.site) (hc : c.ImportsComplete)
    (h : s.crew.Steady setting c roots tasks) (ho : s.Orderly) (hended : s.ended = false)
    (hchecking : s.checking = false) {others : List Task} (hready : s.ready = t :: others)
    (hr : t.result? = none) {s' : Schedule}
    (hs' : s' = (place { s with world := (t.step setting s.world).1 } others
      (t.step setting s.world).2.1 (t.step setting s.world).2.2).wake) :
    s'.crew.Steady setting c roots tasks ∧ s'.Orderly ∧ s'.toDo c < s.toDo c := by
  have hunderWay := underWay_of_ready hready
  have hblocked : t.isBlocked s.world = false := by
    refine ho.awake t ?_
    rw [hready]
    exact List.mem_cons_self
  obtain ⟨hopen, hpace⟩ := Task.step_pace setting s.world hr
  have hapt : ∀ u ∈ t :: (others ++ s.resting ++ s.asleep), u.Apt c roots s.world := by
    intro u hu
    refine h.apt u (Multiset.mem_add.2 (Or.inr ?_))
    rw [hunderWay]
    exact hu
  have hcrew : s'.crew = { s.crew with
      world := (t.step setting s.world).1
      underWay := (t.step setting s.world).2.1 ::ₘ (others ++ s.resting ++ s.asleep : List Task) } := by
    rw [hs', crew_wake, crew_place _ hopen]
    rfl
  -- a task whose turn it is does not sleep, so its step takes the run forward
  obtain ⟨hsteady, hlt⟩ := (h.advance hs hc hunderWay hr hcrew).resolve_left
    fun hsleeps => Bool.false_ne_true (hblocked.symm.trans hsleeps.1)
  refine ⟨hsteady, ?_, toDo_lt_of_work_lt hlt⟩
  have hfills := Task.step_fills hs h.world (hapt t List.mem_cons_self) hr
  rw [hs']
  refine place_orderly ho hended hchecking hready hopen ?_ ?_
  · exact fun hawake => Task.not_isBlocked_of_not_sleeps (hpace hawake)
  · intro u hu
    refine (hapt u (List.mem_cons_of_mem _ (List.mem_append_left _ hu))).not_isBlocked_of_fills hfills
      (ho.awake u ?_)
    rw [hready]
    exact List.mem_cons_of_mem _ hu

/-- **A step keeps what holds throughout a run.**  It ends the schedule or leaves less to do. -/
theorem step_steady (hs : c.ServedAt setting.site) (hc : c.ImportsComplete)
    (h : s.crew.Steady setting c roots tasks) (ho : s.Orderly) (hended : s.ended = false) :
    (s.step setting).crew.Steady setting c roots tasks ∧ (s.step setting).Orderly ∧
      ((s.step setting).ended = true ∨ (s.step setting).toDo c < s.toDo c) := by
  have hless : ∀ {s' : Schedule}, s'.crew.Steady setting c roots tasks ∧ s'.Orderly ∧
      s'.toDo c < s.toDo c → s'.crew.Steady setting c roots tasks ∧ s'.Orderly ∧
        (s'.ended = true ∨ s'.toDo c < s.toDo c) := fun h => ⟨h.1, h.2.1, Or.inr h.2.2⟩
  rcases s.step_cases with hend | ⟨-, hchecking | ⟨hchecking, hover | ⟨t, others, hready, hleft⟩⟩⟩
  · exact absurd (hended.symm.trans hend) Bool.false_ne_true
  · rw [step_of_checking hended hchecking]
    exact hless (check_steady h ho hended hchecking)
  · rw [step_of_left hended hchecking hover]
    exact turn_steady h ho hended hchecking hover
  · rw [step_of_ready hended hchecking hready hleft]
    cases hr : t.result? with
    | some r =>
        refine hless (takeResult_steady h ho hended hready hr ?_)
        rw [Task.step_of_result hr]
        simp only [place, hr]
    | none => exact hless (place_steady hs hc h ho hended hchecking hready hr rfl)

/-- When the schedule has ended the run is over. -/
theorem over_of_ended (h : s.crew.Steady setting c roots tasks) (ho : s.Orderly)
    (hworkers : 0 < s.workers) (hended : s.ended = true) : s.crew.Over := by
  obtain ⟨hchecking, hready, hresting⟩ := ho.ended hended
  have hasleep : s.asleep = [] := by
    rw [List.eq_nil_iff_forall_not_mem]
    intro t ht
    -- a sleeper would wait for a task that is loading, but there are only sleepers
    obtain ⟨path, marker, hpending⟩ := Task.pending_of_isBlocked (ho.asleep t ht)
    obtain ⟨owner, howner, hloads⟩ := h.owned path marker hpending
    have hmem : owner ∈ s.asleep := by
      simpa [crew, hready, hresting] using howner
    exact Bool.false_ne_true (hloads.not_isBlocked.symm.trans (ho.asleep owner hmem))
  have hupcoming : s.upcoming = [] := by
    refine (ho.full hchecking).resolve_right ?_
    simp only [underWay, hready, hresting, hasleep, List.length_nil]
    omega
  right
  refine ⟨?_, ?_, h.world.live⟩
  · rw [crew, hupcoming]
    rfl
  · rw [crew, hready, hresting, hasleep]
    rfl

/-- **The schedule comes to the end of the run**, and what holds throughout holds there. -/
theorem exists_ends (hs : c.ServedAt setting.site) (hc : c.ImportsComplete)
    (h : s.crew.Steady setting c roots tasks) (ho : s.Orderly) (hworkers : 0 < s.workers) :
    ∃ last, s.Ends setting last ∧ last.crew.Steady setting c roots tasks ∧ last.crew.Over := by
  induction htoDo : s.toDo c using WellFoundedLT.induction generalizing s with
  | _ w ih =>
      have hend : ∀ {s : Schedule}, s.crew.Steady setting c roots tasks → s.Orderly → 0 < s.workers →
          s.ended = true → ∃ last, s.Ends setting last ∧ last.crew.Steady setting c roots tasks ∧
            last.crew.Over := fun {s} h ho hworkers hended =>
        ⟨s, .ended hended, h, over_of_ended h ho hworkers hended⟩
      by_cases hended : s.ended = true
      · exact hend h ho hworkers hended
      · rw [Bool.not_eq_true] at hended
        obtain ⟨hsteady, horderly, hless⟩ := step_steady hs hc h ho hended
        have hsame : 0 < (s.step setting).workers := by rwa [workers_step]
        obtain ⟨last, hends, hlast⟩ : ∃ last, (s.step setting).Ends setting last ∧
            last.crew.Steady setting c roots tasks ∧ last.crew.Over := by
          rcases hless with hended' | hlt
          · exact hend hsteady horderly hsame hended'
          · exact ih _ (htoDo ▸ hlt) hsteady horderly hsame rfl
        exact ⟨last, .step hended hends, hlast⟩

end Schedule

end Wiring
