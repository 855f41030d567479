/-
**A run that nobody cancels comes to its end, in whatever order its tasks go on.**

Throughout such a run every task fits the world, every injector has a task or a result, and every result
is the one that the collection settles.  Each move brings the run closer to its end, and as long as it
is not over some move can be made: a task sleeps only over the marker of another one, and that one is
loading.

Main definitions:

* `Wiring.Crew.Steady` — what holds throughout;
* `Wiring.Crew.work` — how far a run is from its end.

Main results:

* `Wiring.Crew.Steady.move` — a move keeps all this and lessens the work;
* `Wiring.Crew.Steady.exists_advances` — no run is stuck before it is over;
* `Wiring.Crew.Steady.inevitably` — **every order of moves leads to the end**.
-/

import Mathlib.Algebra.BigOperators.Group.Multiset.Basic
import Mathlib.Algebra.GroupWithZero.Nat
import Mathlib.Algebra.Order.Group.Nat
import Mathlib.Algebra.Order.Monoid.Prod
import Wiring.Proofs.Run.Interleaving
import Wiring.Proofs.Run.Tasks

set_option autoImplicit false

namespace Wiring

/-! ### The work that is left -/

namespace Crew

/-- What is left to do for a task that still has so many times to be moved. -/
def workOf (c : Collection) (moves : Nat) (t : Task) : ℕ ×ₗ ℕ ×ₗ ℕ :=
  t.effort c + toLex (0, toLex (0, moves))

/-- How far a run is from its end.  A task that has not been started has to be started and to give up
its result, one under way only the latter. -/
def work (c : Collection) (s : Crew) : ℕ ×ₗ ℕ ×ₗ ℕ :=
  (s.upcoming.map (workOf c 2)).sum + (s.underWay.map (workOf c 1)).sum

/-- The tasks whose results have not been taken. -/
def remaining (s : Crew) : Multiset Task :=
  s.upcoming + s.underWay

variable {setting : Setting} {c : Collection} {roots : List Package} {tasks : List Task}
  {workers : Nat} {s s' : Crew} {t t' : Task} {rest : Multiset Task} {world : World} {turn : Turn}

theorem remaining_of_underWay (h : s.underWay = t ::ₘ rest) :
    s.remaining = t ::ₘ (s.upcoming + rest) := by
  rw [remaining, h, Multiset.add_cons]

/-- A task under way remains. -/
theorem mem_remaining (h : s.underWay = t ::ₘ rest) : t ∈ s.remaining := by
  rw [remaining_of_underWay h]
  exact Multiset.mem_cons_self _ _

theorem workOf_lt_of_effort_lt {n : Nat} (h : t'.effort c < t.effort c) :
    workOf c n t' < workOf c n t :=
  add_lt_add_left h _

theorem workOf_one_lt_two (t : Task) : workOf c 1 t < workOf c 2 t :=
  add_lt_add_right (Task.lt_of_rest_lt (Task.pair_lt (Or.inr ⟨rfl, Nat.one_lt_two⟩))) _

theorem workOf_one_pos (t : Task) : 0 < workOf c 1 t := by
  have hpos : ∀ x : ℕ ×ₗ ℕ ×ₗ ℕ, 0 < x + toLex (0, toLex (0, 1)) := by
    rintro ⟨n, a, b⟩
    refine Task.end_lt (n := n) (Task.pair_lt ?_)
    rcases Nat.eq_zero_or_pos a with rfl | ha
    · exact Or.inr ⟨rfl, Nat.succ_pos b⟩
    · exact Or.inl ha
  exact hpos _

/-- A task that is started leaves less to do. -/
theorem work_start (h : s.upcoming = t ::ₘ rest) :
    ({ s with upcoming := rest, underWay := t ::ₘ s.underWay } : Crew).work c < s.work c := by
  simp only [work, h, Multiset.map_cons, Multiset.sum_cons]
  rw [add_left_comm, add_assoc]
  exact add_lt_add_left (workOf_one_lt_two t) _

/-- So does a task under way that comes closer to its end. -/
theorem work_advance (h : s.underWay = t ::ₘ rest) (heffort : t'.effort c < t.effort c) :
    ({ s with world, underWay := t' ::ₘ rest } : Crew).work c < s.work c := by
  simp only [work, h, Multiset.map_cons, Multiset.sum_cons]
  exact add_lt_add_right (add_lt_add_left (workOf_lt_of_effort_lt heffort) _) _

/-- So does a result that is taken. -/
theorem work_deliver (h : s.underWay = t ::ₘ rest) (finished : Multiset TaskReport)
    (cancelled : Bool) :
    ({ s with underWay := rest, finished, cancelled } : Crew).work c < s.work c := by
  simp only [work, h, Multiset.map_cons, Multiset.sum_cons]
  exact add_lt_add_right (lt_add_of_pos_left _ (workOf_one_pos t)) _

/-! ### What holds throughout -/

end Crew

theorem Schedule.isCancelled_counted (r : TaskResult) :
    Schedule.isCancelled (Schedule.counted r) = Schedule.isCancelled r := by
  unfold Schedule.counted
  split
  next h => rw [h]; rfl
  · rfl

/-- A task is on its way to the result of another one. -/
structure Task.Heads (setting : Setting) (c : Collection) (t t₀ : Task) : Prop where
  index : t.index = t₀.index
  ends : ∀ r, t.Ends setting c r → t₀.Ends setting c r

namespace Crew

/-- What holds throughout a run of some tasks that nobody cancels. -/
structure Steady (setting : Setting) (c : Collection) (roots : List Package) (tasks : List Task)
    (s : Crew) : Prop where
  going : s.stopped = false
  world : s.world.Stocked c roots
  apt : ∀ t ∈ s.remaining, t.Apt c roots s.world
  heads : ∀ t ∈ s.remaining, ∃ t₀ ∈ tasks, t.Heads setting c t₀
  results : ∀ report ∈ s.finished, ∃ t₀ ∈ tasks, ∃ r, t₀.Ends setting c r ∧
    report = ⟨t₀.index, Schedule.counted r⟩
  covered : ∀ t₀ ∈ tasks, (∃ t ∈ s.remaining, t.index = t₀.index) ∨
    ∃ report ∈ s.finished, report.index = t₀.index
  owned : ∀ path marker, s.world.packages.isPending path marker →
    ∃ t ∈ s.underWay, t.Loads path marker
  cancelled : s.cancelled = true ↔ ∃ report ∈ s.finished, Schedule.isCancelled report.result = true

variable {setting : Setting} {c : Collection} {roots : List Package} {tasks : List Task}
  {workers : Nat} {s s' : Crew} {t t' : Task} {rest : Multiset Task} {world : World} {turn : Turn}

namespace Steady

theorem start (h : s.Steady setting c roots tasks) (ht : s.upcoming = t ::ₘ rest) :
    ({ s with upcoming := rest, underWay := t ::ₘ s.underWay } : Crew).Steady setting c roots
      tasks := by
  -- the same tasks remain as before
  have hremaining : ({ s with upcoming := rest, underWay := t ::ₘ s.underWay } : Crew).remaining =
      s.remaining := by
    simp only [remaining, ht, Multiset.add_cons, Multiset.cons_add]
  refine ⟨h.going, h.world, ?_, ?_, h.results, ?_, ?_, h.cancelled⟩
  · intro u hu
    rw [hremaining] at hu
    exact h.apt u hu
  · intro u hu
    rw [hremaining] at hu
    exact h.heads u hu
  · intro t₀ ht₀
    rcases h.covered t₀ ht₀ with ⟨u, hu, hindex⟩ | hreport
    · exact Or.inl ⟨u, by rwa [hremaining], hindex⟩
    · exact Or.inr hreport
  · intro path marker hpending
    obtain ⟨u, hu, hloads⟩ := h.owned path marker hpending
    exact ⟨u, Multiset.mem_cons_of_mem hu, hloads⟩

/-- A small step of one task. -/
theorem goes (h : s.Steady setting c roots tasks) (hc : c.ImportsComplete)
    (ht : s.underWay = t ::ₘ rest) (hgoes : Task.Goes setting c (s.world, t) (world, t')) :
    ({ s with world, underWay := t' ::ₘ rest } : Crew).Steady setting c roots tasks := by
  have hremaining : ∀ u, u ∈ s.upcoming + t' ::ₘ rest → u = t' ∨ u ∈ s.remaining := by
    intro u hu
    rw [Multiset.add_cons, Multiset.mem_cons] at hu
    rcases hu with rfl | hu
    · exact Or.inl rfl
    · rw [remaining_of_underWay ht]
      exact Or.inr (Multiset.mem_cons_of_mem hu)
  have hmem : t ∈ s.remaining := mem_remaining ht
  refine ⟨h.going, hgoes.stocked h.world, ?_, ?_, h.results, ?_, ?_, h.cancelled⟩
  · intro u hu
    rcases hremaining u hu with rfl | hu
    · exact hgoes.apt hc (h.apt t hmem)
    · exact (h.apt u hu).of_fills hgoes.fills
  · intro u hu
    rcases hremaining u hu with rfl | hu
    · obtain ⟨t₀, ht₀, hheads⟩ := h.heads t hmem
      exact ⟨t₀, ht₀, hgoes.index.trans hheads.index, fun r hr => hheads.ends r (hgoes.ends hr)⟩
    · exact h.heads u hu
  · intro t₀ ht₀
    rcases h.covered t₀ ht₀ with ⟨u, hu, hindex⟩ | hreport
    · rw [remaining_of_underWay ht, Multiset.mem_cons] at hu
      rcases hu with rfl | hu
      · exact Or.inl ⟨t', mem_remaining rfl, hgoes.index.trans hindex⟩
      · refine Or.inl ⟨u, ?_, hindex⟩
        rw [remaining, Multiset.add_cons]
        exact Multiset.mem_cons_of_mem hu
    · exact Or.inr hreport
  · intro path marker hpending
    rcases hgoes.owner hpending with hloads | ⟨hbefore, hother⟩
    · exact ⟨t', Multiset.mem_cons_self t' rest, hloads⟩
    · -- the marker belongs to a task that has not moved
      obtain ⟨u, hu, hloads⟩ := h.owned path marker hbefore
      rw [ht, Multiset.mem_cons] at hu
      rcases hu with rfl | hu
      · exact absurd hloads hother
      · exact ⟨u, Multiset.mem_cons_of_mem hu, hloads⟩

/-- Any number of small steps of one task. -/
theorem goes_transGen (h : s.Steady setting c roots tasks) (hc : c.ImportsComplete)
    (ht : s.underWay = t ::ₘ rest)
    (hgoes : Relation.TransGen (Task.Goes setting c) (s.world, t) (world, t')) :
    ({ s with world, underWay := t' ::ₘ rest } : Crew).Steady setting c roots tasks ∧
      t'.effort c < t.effort c := by
  have happly : ∀ x, Relation.TransGen (Task.Goes setting c) (s.world, t) x →
      ({ s with world := x.1, underWay := x.2 ::ₘ rest } : Crew).Steady setting c roots tasks ∧
        x.2.effort c < t.effort c := by
    intro x hx
    induction hx with
    | single hstep => exact ⟨h.goes hc ht hstep, hstep.effort_lt (h.apt t (mem_remaining ht))⟩
    | @tail b x _ hstep ih =>
        obtain ⟨hsteady, hlt⟩ := ih
        have hapt : b.2.Apt c roots b.1 := hsteady.apt b.2 (mem_remaining rfl)
        exact ⟨hsteady.goes hc rfl hstep, (Task.Goes.effort_lt hstep hapt).trans hlt⟩
  exact happly (world, t') hgoes

/-- A result is taken. -/
theorem deliver (h : s.Steady setting c roots tasks) (ht : s.underWay = t ::ₘ rest)
    {r : TaskResult} (hr : t.result? = some r) :
    ({ s with
      underWay := rest
      finished := ⟨t.index, Schedule.counted r⟩ ::ₘ s.finished
      cancelled := s.cancelled || Schedule.isCancelled r } : Crew).Steady setting c roots tasks := by
  have hremaining := remaining_of_underWay ht
  have hmem : ∀ u ∈ s.upcoming + rest, u ∈ s.remaining := fun u hu =>
    hremaining ▸ Multiset.mem_cons_of_mem hu
  refine ⟨h.going, h.world, fun u hu => h.apt u (hmem u hu), fun u hu => h.heads u (hmem u hu),
    ?_, ?_, ?_, ?_⟩
  · intro report hreport
    rcases Multiset.mem_cons.1 hreport with rfl | hreport
    · obtain ⟨t₀, ht₀, hheads⟩ := h.heads t (hremaining ▸ Multiset.mem_cons_self t _)
      exact ⟨t₀, ht₀, r, hheads.ends r (.closed hr), by rw [hheads.index]⟩
    · exact h.results report hreport
  · intro t₀ ht₀
    rcases h.covered t₀ ht₀ with ⟨u, hu, hindex⟩ | ⟨report, hreport, hindex⟩
    · rw [hremaining, Multiset.mem_cons] at hu
      rcases hu with rfl | hu
      · exact Or.inr ⟨_, Multiset.mem_cons_self _ _, hindex⟩
      · exact Or.inl ⟨u, hu, hindex⟩
    · exact Or.inr ⟨report, Multiset.mem_cons_of_mem hreport, hindex⟩
  · intro path marker hpending
    obtain ⟨u, hu, hloads⟩ := h.owned path marker hpending
    rw [ht, Multiset.mem_cons] at hu
    rcases hu with rfl | hu
    · exact absurd hr (by simp [hloads.isOpen])
    · exact ⟨u, hu, hloads⟩
  · rw [Bool.or_eq_true, h.cancelled]
    constructor
    · rintro (⟨report, hreport, hc⟩ | hc)
      · exact ⟨report, Multiset.mem_cons_of_mem hreport, hc⟩
      · exact ⟨_, Multiset.mem_cons_self _ _, (Schedule.isCancelled_counted r).trans hc⟩
    · rintro ⟨report, hreport, hc⟩
      rcases Multiset.mem_cons.1 hreport with rfl | hreport
      · exact Or.inr ((Schedule.isCancelled_counted r).symm.trans hc)
      · exact Or.inl ⟨report, hreport, hc⟩

/-! ### Moves -/

/-- A task under way sleeps on, or takes the run forward. -/
theorem advance (h : s.Steady setting c roots tasks) (hs : c.ServedAt setting.site)
    (hc : c.ImportsComplete) (ht : s.underWay = t ::ₘ rest) (hopen : t.result? = none)
    (hs' : s' = { s with
      world := (t.step setting s.world).1
      underWay := (t.step setting s.world).2.1 ::ₘ rest }) :
    t.isBlocked s.world ∧ s' = s ∨ s'.Steady setting c roots tasks ∧ s'.work c < s.work c := by
  have hapt : t.Apt c roots s.world := h.apt t (mem_remaining ht)
  rcases Task.step_goes hs h.world hapt hopen with ⟨hblocked, hworld, htask⟩ | hgoes
  · left
    rw [hs', hworld, htask, ← ht]
    exact ⟨hblocked, rfl⟩
  · right
    obtain ⟨hsteady, hlt⟩ := h.goes_transGen hc ht hgoes
    rw [hs']
    exact ⟨hsteady, work_advance ht hlt⟩

/-- Only the policy of a setting and what its loader answers matter. -/
theorem congr {other : Setting} (h : s.Steady setting c roots tasks)
    (hpolicy : setting.policy = other.policy) : s.Steady other c roots tasks := by
  refine ⟨h.going, h.world, h.apt, ?_, ?_, h.covered, h.owned, h.cancelled⟩
  · intro t ht
    obtain ⟨t₀, ht₀, hheads⟩ := h.heads t ht
    exact ⟨t₀, ht₀, hheads.index, fun r hr => (hheads.ends r (hr.congr hpolicy.symm)).congr hpolicy⟩
  · intro report hreport
    obtain ⟨t₀, ht₀, r, hr, heq⟩ := h.results report hreport
    exact ⟨t₀, ht₀, r, hr.congr hpolicy, heq⟩

/-- **A move keeps what holds throughout and lessens the work**, or nothing happens. -/
theorem move (h : s.Steady setting c roots tasks) (hs : c.ServedAt setting.site)
    (hc : c.ImportsComplete) (hmove : Move setting workers turn s s') (hturn : turn ≠ .fire) :
    s' = s ∨ s'.Steady setting c roots tasks ∧ s'.work c < s.work c := by
  cases hmove with
  | start _ ht _ => exact Or.inr ⟨h.start ht, work_start ht⟩
  | @advance _ t rest delay _ ht hopen =>
      have hdelayed : c.ServedAt (setting.delayed delay).site := hs.congr rfl rfl rfl
      have hpolicy : setting.policy = (setting.delayed delay).policy := rfl
      rcases (h.congr hpolicy).advance hdelayed hc ht hopen rfl with ⟨-, heq⟩ | ⟨hsteady, hlt⟩
      · exact Or.inl heq
      · exact Or.inr ⟨hsteady.congr hpolicy.symm, hlt⟩
  | deliver _ ht hr => exact Or.inr ⟨h.deliver ht hr, work_deliver ht _ _⟩
  | fire => exact absurd rfl hturn
  | stop _ hcancelled =>
      rw [h.world.live] at hcancelled
      cases hcancelled

/-- **No run is stuck before it is over.**  A task that sleeps does so over the marker of another one,
which is loading and can go on. -/
theorem exists_advances (h : s.Steady setting c roots tasks) (hs : c.ServedAt setting.site)
    (hc : c.ImportsComplete) (hworkers : 0 < workers) (hover : ¬ s.Over) :
    ∃ s', Advances setting workers s s' := by
  -- a move that lessens the work changes something
  have hadvances : ∀ {turn s'}, Move setting workers turn s s' → turn ≠ .fire →
      s'.work c < s.work c → ∃ s', Advances setting workers s s' := by
    intro turn s' hmove hturn hlt
    exact ⟨s', fun heq => absurd (heq ▸ hlt) (lt_irrefl _), turn, hturn, hmove⟩
  have hawake : ∀ t ∈ s.underWay, t.isBlocked s.world = false →
      ∃ s', Advances setting workers s s' := by
    intro t ht hblocked
    obtain ⟨rest, hrest⟩ := Multiset.exists_cons_of_mem ht
    cases hr : t.result? with
    | some r => exact hadvances (.deliver h.going hrest hr) (by simp) (work_deliver hrest _ _)
    | none =>
        have hmove : Move setting workers (.advance t.index setting.site.loader.pauses) s _ :=
          .advance h.going hrest hr
        rcases h.advance hs hc hrest hr rfl with ⟨hsleeps, -⟩ | ⟨-, hlt⟩
        · rw [hblocked] at hsleeps
          cases hsleeps
        · exact hadvances hmove (by simp) hlt
  by_cases hnone : s.underWay = 0
  · -- nothing is under way, so something can be started
    have hupcoming : s.upcoming ≠ 0 := fun hzero =>
      hover (Or.inr ⟨hzero, hnone, h.world.live⟩)
    obtain ⟨t, ht⟩ := Multiset.exists_mem_of_ne_zero hupcoming
    obtain ⟨rest, hrest⟩ := Multiset.exists_cons_of_mem ht
    refine hadvances (.start h.going hrest ?_) (by simp) (work_start hrest)
    rwa [hnone, Multiset.card_zero]
  · obtain ⟨t, ht⟩ := Multiset.exists_mem_of_ne_zero hnone
    cases hblocked : t.isBlocked s.world with
    | false => exact hawake t ht hblocked
    | true =>
        obtain ⟨path, marker, hpending⟩ := Task.pending_of_isBlocked hblocked
        obtain ⟨owner, howner, hloads⟩ := h.owned path marker hpending
        exact hawake owner howner hloads.not_isBlocked

/-- **Every order of moves leads to the end**, and what holds throughout holds there. -/
theorem inevitably (h : s.Steady setting c roots tasks) (hs : c.ServedAt setting.site)
    (hc : c.ImportsComplete) (hworkers : 0 < workers) :
    Inevitably (Advances setting workers)
      (fun s' => s'.Steady setting c roots tasks ∧ s'.Over) s := by
  induction hwork : s.work c using WellFoundedLT.induction generalizing s with
  | _ w ih =>
      by_cases hover : s.Over
      · exact .here ⟨h, hover⟩
      · refine .later (h.exists_advances hs hc hworkers hover) ?_
        rintro s' ⟨hne, turn, hturn, hmove⟩
        rcases h.move hs hc hmove hturn with heq | ⟨hsteady, hlt⟩
        · exact absurd heq hne
        · exact ih _ (hwork ▸ hlt) hsteady rfl

end Steady

end Crew

end Wiring
