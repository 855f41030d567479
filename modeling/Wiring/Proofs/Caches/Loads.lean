/-
**One load at a time, and no end of waiting.**

Whoever finds the slot of a package empty loads it, and whoever finds the marker of a load waits for that
one.  A load may be dropped at any moment while the loader is at work; then the next caller loads anew.  A
load that is not dropped settles the slot, unless the run was cancelled, and after that no further load is
begun.  So of all loads of one package at most one is not dropped.

A marker in a slot is always that of a load which has yet to take it away, and whoever sleeps has been
alerted or waits for a load that has yet to raise its alert.  So as long as some call is not over, some call
can go on.

Main definitions:

* `Wiring.PackageCache.Call.Runs` — a call is loading, and has not yet alerted those who wait for it;
* `Wiring.PackageCache.Traffic.HasLoaded` — a call has called the loader and was not dropped;
* `Wiring.PackageCache.Traffic.loadsOf` — how often the loader was called for a path;
* `Wiring.PackageCache.Traffic.Spent` — a load that is over has left nothing for another one to do.

Main results:

* `Wiring.PackageCache.Traffic.claimed_after`, `Wiring.PackageCache.Traffic.attended_after` — markers and
  sleepers are looked after;
* `Wiring.PackageCache.Traffic.frugal_after` — of all loads of a package at most one is not dropped;
* `Wiring.PackageCache.Traffic.loadsOf_append` — what is settled is never loaded again;
* `Wiring.PackageCache.Traffic.one_load_at_a_time` — **a package is loaded once, and nobody waits for
  nothing**.
-/

import Wiring.Proofs.Caches.Settled

set_option autoImplicit false

namespace Wiring

namespace PackageCache

namespace Call

/-- A call is loading a package and has not yet alerted those who wait for it; its marker may be gone. -/
inductive Runs : Call → String → Marker → Prop
  | holds {call : Call} {path : String} {marker : Marker} (h : call.Holds path marker) :
      Runs call path marker
  | leaving {path : String} {marker : Marker} {result? : Option Result} :
      Runs (.get path (.leaving marker result?)) path marker

/-- The loader has not been called yet. -/
def isEarly : Call → Bool
  | .get _ .asking => true
  | .get _ (.told _) => true
  | .get _ (.listening _ _) => true
  | .get _ (.asleep _ _) => true
  | .get _ (.granted _) => true
  | .get _ (.admitted _) => true
  | .get _ _ => false
  | .seed _ _ => true

variable {offer : Offer} {cancelled : Bool} {cache : PackageCache} {effect : Effect} {call : Call}
  {path : String} {marker : Marker} {alert : Option Marker}

theorem Runs.hear (h : call.Runs path marker) (alert : Option Marker) :
    (call.hear alert).Runs path marker := by
  cases h with
  | holds h => exact .holds (h.hear alert)
  | leaving => exact .leaving

theorem Runs.leave (h : call.Runs path marker) : call.leave.Runs path marker := by
  cases h with
  | holds h => exact .holds h.leave
  | leaving => exact .leaving

@[simp] theorem wants_hear (call : Call) (alert : Option Marker) (path : String) :
    (call.hear alert).wants path = call.wants path := by
  unfold Call.hear
  split <;> rfl

@[simp] theorem wants_leave (call : Call) (path : String) : call.leave.wants path = call.wants path := by
  unfold Call.leave
  split <;> rfl

@[simp] theorem isEarly_hear (call : Call) (alert : Option Marker) :
    (call.hear alert).isEarly = call.isEarly := by
  unfold Call.hear
  split <;> rfl

theorem isEarly_of_leave (h : call.leave.isEarly = true) : call.isEarly = true :=
  Call.of_leave (P := (isEarly · = true)) h nofun nofun

@[simp] theorem isGivenUp_hear (call : Call) (alert : Option Marker) :
    (call.hear alert).isGivenUp = call.isGivenUp := by
  unfold Call.hear
  split <;> rfl

theorem isGivenUp_of_leave (h : call.leave.isGivenUp = false) : call.isGivenUp = false :=
  Call.of_leave (P := (isGivenUp · = false)) h nofun nofun

theorem asleep_of_hear {alerted : Bool} (h : call.hear alert = .get path (.asleep marker alerted)) :
    ∃ before, call = .get path (.asleep marker before) ∧
      alerted = (before || alert = some marker) := by
  unfold Call.hear at h
  split at h
  · cases h
  · cases h
    exact ⟨_, rfl, rfl⟩
  · rename_i hother
    exact absurd h (hother _ _ _)

/-- The package that a call wants remains the same. -/
theorem Works.wants_eq (hworks : call.Works offer cancelled cache effect) (path : String) :
    effect.call.wants path = call.wants path := by
  cases hworks <;> rfl

theorem Works.isGivenUp (hworks : call.Works offer cancelled cache effect)
    (h : effect.call.isGivenUp = false) : call.isGivenUp = false := by
  cases hworks with
  | @release path marker result? =>
      cases result? with
      | none => cases h
      | some result => rfl
  | @alert path marker result? =>
      cases result? with
      | none => cases h
      | some result => rfl
  | _ => rfl

/-- A piece of work counts a load exactly where it calls the loader. -/
theorem Works.loads (hworks : call.Works offer cancelled cache effect) :
    (effect.cache.loads = cache.loads ∧ (effect.call.isEarly = true → call.isEarly = true)) ∨
      ∃ path marker, call = .get path (.admitted marker) ∧
        effect.call = .get path (.loading marker) ∧ effect.cache.loads = cache.loads + 1 := by
  cases hworks with
  | begin => exact .inr ⟨_, _, rfl, rfl, rfl⟩
  | release =>
      refine .inl ⟨?_, fun hearly => by cases hearly⟩
      simp only [PackageCache.release]
      split <;> rfl
  | find | lack | judge | cutShort | settle | alert | refuse | answer =>
      exact .inl ⟨rfl, fun hearly => by cases hearly⟩
  | _ => exact .inl ⟨rfl, fun _ => rfl⟩

/-- Nobody is admitted to the loader once the run is cancelled. -/
theorem Works.admitted (hworks : call.Works offer cancelled cache effect)
    (h : effect.call = .get path (.admitted marker)) : cancelled = false := by
  cases hworks with
  | allow hlive => exact hlive
  | _ => cases h

/-- Only in a cancelled run does a load come back with nothing about the package. -/
theorem Works.refused (hworks : call.Works offer cancelled cache effect) {result : Result}
    (h : effect.call = .get path (.releasing marker (some result))) : cancelled = true := by
  cases hworks with
  | refuse hcancelled => exact hcancelled
  | cutShort hverdict => exact cancelled_of_verdict hverdict
  | _ => cases h

/-- Whoever holds a slot goes on doing so as long as its marker is there. -/
theorem Works.holds_on (hworks : call.Works offer cancelled cache effect)
    (hholds : call.Holds path marker)
    (h : effect.cache.slots.get? path = some (.pending marker)) : effect.call.Holds path marker := by
  cases hholds with
  | granted =>
      cases hworks with
      | allow => exact .admitted
      | refuse => exact .releasing
  | admitted => cases hworks with | begin => exact .loading
  | loading => cases hworks with | answer => exact .loaded
  | loaded =>
      cases hworks with
      | judge => exact .settling
      | cutShort => exact .releasing
  | settling =>
      cases hworks
      rw [PackageCache.settle, Table.get?_put, if_pos rfl] at h
      exact absurd (Option.some.inj h) (PackageSlot.holding_ne_pending _ _)
  | releasing =>
      cases hworks
      rcases get?_release_self with hnone | ⟨hsame, hgone⟩
      · cases h.symm.trans hnone
      · rw [isPending_iff.2 (hsame.symm.trans h)] at hgone
        cases hgone

/-- Whoever loads goes on loading, or alerts those who wait for it. -/
theorem Works.runs_on (hworks : call.Works offer cancelled cache effect) (h : call.Runs path marker) :
    effect.call.Runs path marker ∨ effect.alert = some marker := by
  cases h with
  | holds h =>
      cases h with
      | granted =>
          cases hworks with
          | allow => exact .inl (.holds .admitted)
          | refuse => exact .inl (.holds .releasing)
      | admitted => cases hworks with | begin => exact .inl (.holds .loading)
      | loading => cases hworks with | answer => exact .inl (.holds .loaded)
      | loaded =>
          cases hworks with
          | judge => exact .inl (.holds .settling)
          | cutShort => exact .inl (.holds .releasing)
      | settling => cases hworks with | settle => exact .inl .leaving
      | releasing => cases hworks with | release => exact .inl .leaving
  | leaving => cases hworks with | alert => exact .inr rfl

/-- Nobody sleeps who has not just found the marker in the slot. -/
theorem Works.sleeps (hworks : call.Works offer cancelled cache effect) {alerted : Bool}
    (h : effect.call = .get path (.asleep marker alerted)) :
    cache.slots.get? path = some (.pending marker) ∧ effect.alert = none := by
  cases hworks with
  | sleep hslot =>
      cases h
      exact ⟨hslot, rfl⟩
  | _ => cases h

/-- A load never has to wait for another call. -/
theorem Runs.exists_step (h : call.Runs path marker) (offer : Offer) (cancelled : Bool)
    (cache : PackageCache) : ∃ effect, call.step offer cancelled cache = some effect := by
  cases h with
  | holds h =>
      cases h with
      | granted => cases cancelled <;> exact ⟨_, rfl⟩
      | admitted => exact ⟨_, rfl⟩
      | loading => exact ⟨_, rfl⟩
      | @loaded path marker outcome =>
          cases hverdict : verdict path outcome cancelled <;> simp [step, stepGet, hverdict]
      | settling => exact ⟨_, rfl⟩
      | releasing => exact ⟨_, rfl⟩
  | leaving => exact ⟨_, rfl⟩

/-- Whoever is not over and does not sleep can go on. -/
theorem exists_step (hover : ¬ call.IsOver)
    (hasleep : ∀ path marker, call ≠ .get path (.asleep marker false)) (offer : Offer)
    (cancelled : Bool) (cache : PackageCache) :
    ∃ effect, call.step offer cancelled cache = some effect := by
  cases call with
  | seed packages errors =>
      cases packages with
      | cons pkg packages => exact ⟨_, rfl⟩
      | nil =>
          cases errors with
          | cons e errors => exact ⟨_, rfl⟩
          | nil => exact absurd trivial hover
  | get path stage =>
      cases stage with
      | asking =>
          simp only [step, stepGet]
          split
          · exact ⟨_, rfl⟩
          · exact ⟨_, rfl⟩
          · exact ⟨_, rfl⟩
          · split <;> exact ⟨_, rfl⟩
      | told marker => exact ⟨_, rfl⟩
      | listening marker alerted =>
          simp only [step, stepGet]
          split <;> exact ⟨_, rfl⟩
      | asleep marker alerted =>
          cases alerted with
          | false => exact absurd rfl (hasleep path marker)
          | true =>
              simp only [step, stepGet]
              split <;> exact ⟨_, rfl⟩
      | granted marker => exact (Runs.holds .granted).exists_step offer cancelled cache
      | admitted marker => exact (Runs.holds .admitted).exists_step offer cancelled cache
      | loading marker => exact (Runs.holds .loading).exists_step offer cancelled cache
      | loaded marker outcome => exact (Runs.holds .loaded).exists_step offer cancelled cache
      | settling marker result => exact (Runs.holds .settling).exists_step offer cancelled cache
      | releasing marker result? => exact (Runs.holds .releasing).exists_step offer cancelled cache
      | leaving marker result? => exact Runs.leaving.exists_step offer cancelled cache
      | ended result? => exact absurd trivial hover

end Call

namespace Traffic

/-- A call is loading a package, and has not yet alerted those who wait for it. -/
def Runs (t : Traffic) (i : Nat) (path : String) (marker : Marker) : Prop :=
  ∃ v, t.visits[i]? = some v ∧ v.call.Runs path marker

/-- The loader is at work for a call. -/
def InFlight (t : Traffic) (i : Nat) (path : String) : Prop :=
  ∃ v marker, t.visits[i]? = some v ∧ v.call = .get path (.loading marker)

/-- A call is about to call the loader. -/
def Admitted (t : Traffic) (i : Nat) (path : String) (marker : Marker) : Prop :=
  ∃ v, t.visits[i]? = some v ∧ v.call = .get path (.admitted marker)

/-- A caller waits for a marker in its sleep. -/
def Sleeps (t : Traffic) (i : Nat) (path : String) (marker : Marker) (alerted : Bool) : Prop :=
  ∃ v, t.visits[i]? = some v ∧ v.call = .get path (.asleep marker alerted)

/-- A call has called the loader for a path, and its caller has not given it up. -/
def HasLoaded (t : Traffic) (i : Nat) (path : String) : Prop :=
  ∃ v, t.visits[i]? = some v ∧ v.call.wants path = true ∧ v.loads ≠ 0 ∧ v.call.isGivenUp = false

/-- How often the loader has been called for a path. -/
def loadsOf (t : Traffic) (path : String) : Nat :=
  (t.visits.map fun v => if v.call.wants path then v.loads else 0).sum

/-- A slot is settled. -/
def Settled (t : Traffic) (path : String) : Prop :=
  ∃ result, t.cache.slots.get? path = some (.holding result)

/-- Every marker in a slot is that of a load which has yet to take it away. -/
def Claimed (t : Traffic) : Prop :=
  ∀ path marker, t.cache.slots.get? path = some (.pending marker) → ∃ i, t.Holds i path marker

/-- Everybody who sleeps has been alerted, or waits for a load that has yet to raise its alert. -/
def Attended (t : Traffic) : Prop :=
  ∀ i path marker alerted, t.Sleeps i path marker alerted → alerted = true ∨ ∃ j, t.Runs j path marker

variable {t : Traffic} {i j : Nat} {path : String} {marker : Marker} {isLazy : Bool} {w : Visit}
  {offer : Offer} {effect : Effect}

/-! ### Markers in slots -/

theorem Holds.next (h : t.Holds i path marker) {e : Event}
    (hslot : (t.next e).cache.slots.get? path = some (.pending marker)) :
    (t.next e).Holds i path marker := by
  obtain ⟨v, hv, hholds⟩ := h
  cases e with
  | come request => exact ⟨v, visit_enter hv request, hholds⟩
  | cancel => exact ⟨v, hv, hholds⟩
  | leave j =>
      rcases visit_leave hv j with h | h
      · exact ⟨v, h, hholds⟩
      · exact ⟨v.leave, h, hholds.leave⟩
  | work j offer =>
      rcases t.work_cases j offer with heq | ⟨w, effect, hw, hworks, heq⟩
      · exact ⟨v, by rw [Traffic.next, heq]; exact hv, hholds⟩
      · rw [Traffic.next, heq] at hslot ⊢
        by_cases hji : j = i
        · subst hji
          cases hw.symm.trans hv
          exact ⟨_, visit_advance_self hw effect, (hworks.holds_on hholds hslot).hear _⟩
        · exact ⟨_, visit_advance_other hv hji w effect, hholds.hear _⟩

theorem claimed_opening : (opening isLazy).Claimed := by
  rintro path marker ⟨⟩

theorem Claimed.next (h : t.Claimed) (e : Event) : (t.next e).Claimed := by
  intro path marker hslot
  -- either the marker was there before, or the call that went on has just put it down
  have hsince : t.cache.slots.get? path = some (.pending marker) ∨
      ∃ i, (t.next e).Holds i path marker := by
    cases e with
    | come request => exact .inl hslot
    | cancel => exact .inl hslot
    | leave j =>
        rw [Traffic.next, cache_leave] at hslot
        exact .inl hslot
    | work j offer =>
        rcases t.work_cases j offer with heq | ⟨w, effect, hw, hworks, heq⟩
        · rw [Traffic.next, heq] at hslot
          exact .inl hslot
        · rw [Traffic.next, heq] at hslot ⊢
          cases hworks.turns path with
          | keeps hkeeps => exact .inl (hkeeps.symm.trans hslot)
          | reserves _ hnew hgranted =>
              cases Option.some.inj (hslot.symm.trans hnew)
              have hholds : effect.call.Holds path t.cache.nextMarker := hgranted ▸ .granted
              exact .inr ⟨j, _, visit_advance_self hw effect, hholds.hear _⟩
          | fills result _ hnew =>
              have hpending := Option.some.inj (hnew.symm.trans hslot)
              exact absurd hpending (PackageSlot.holding_ne_pending _ _)
          | settles other result _ hnew =>
              have hpending := Option.some.inj (hnew.symm.trans hslot)
              exact absurd hpending (PackageSlot.holding_ne_pending _ _)
          | releases other result? _ _ hnew => cases hslot.symm.trans hnew
  rcases hsince with hold | hnew
  · obtain ⟨i, hi⟩ := h path marker hold
    exact ⟨i, hi.next hslot⟩
  · exact hnew

/-- Every marker in a slot is that of a load, whatever has happened. -/
theorem claimed_after (events : List Event) : (after isLazy events).Claimed :=
  after_induction claimed_opening (fun _ e h => h.next e) events

/-! ### Callers that sleep -/

theorem Runs.enter (h : t.Runs i path marker) (request : Request) :
    (t.enter request).Runs i path marker :=
  exists_enter h request

theorem Runs.leave (h : t.Runs i path marker) (j : Nat) : (t.leave j).Runs i path marker :=
  exists_leave Call.Runs.leave h j

/-- A piece of work leaves a load running, or it is its last one and raises the alert. -/
theorem Runs.advance (h : t.Runs i path marker) (hw : t.visits[j]? = some w)
    (hworks : w.call.Works offer t.cancelled t.cache effect) :
    (t.advance j w effect).Runs i path marker ∨ effect.alert = some marker := by
  obtain ⟨v, hv, hruns⟩ := h
  by_cases hji : j = i
  · subst hji
    cases hw.symm.trans hv
    rcases hworks.runs_on hruns with hon | halert
    · exact .inl ⟨_, visit_advance_self hw effect, hon.hear _⟩
    · exact .inr halert
  · exact .inl ⟨_, visit_advance_other hv hji w effect, hruns.hear _⟩

theorem Sleeps.of_enter {request : Request} {alerted : Bool}
    (h : (t.enter request).Sleeps i path marker alerted) : t.Sleeps i path marker alerted :=
  exists_of_enter (fun hcall => by cases request <;> cases hcall) h

theorem Sleeps.of_leave {alerted : Bool} (h : (t.leave j).Sleeps i path marker alerted) :
    t.Sleeps i path marker alerted :=
  exists_of_leave (fun hcall => Call.eq_of_leave hcall rfl) h

/-- Whoever sleeps after a piece of work has just found the marker in the slot, or it slept before and may
have heard an alert. -/
theorem Sleeps.of_advance {alerted : Bool} (hw : t.visits[j]? = some w)
    (hworks : w.call.Works offer t.cancelled t.cache effect)
    (h : (t.advance j w effect).Sleeps i path marker alerted) :
    (t.cache.slots.get? path = some (.pending marker) ∧ effect.alert = none) ∨
      ∃ before, t.Sleeps i path marker before ∧ alerted = (before || effect.alert = some marker) := by
  obtain ⟨v, hv, hcall⟩ := h
  rcases visit_of_advance hw hv with ⟨rfl, rfl⟩ | ⟨-, u, hu, rfl⟩
  · obtain ⟨before, hbefore, -⟩ := Call.asleep_of_hear hcall
    exact .inl (hworks.sleeps hbefore)
  · obtain ⟨before, hbefore, halerted⟩ := Call.asleep_of_hear hcall
    exact .inr ⟨before, ⟨u, hu, hbefore⟩, halerted⟩

theorem attended_opening : (opening isLazy).Attended := by
  rintro i path marker alerted ⟨v, hv, -⟩
  cases hv

theorem Attended.work (h : t.Attended) (hclaimed : t.Claimed) (j : Nat) (offer : Offer) :
    (t.work j offer).Attended := by
  rcases t.work_cases j offer with heq | ⟨w, effect, hw, hworks, heq⟩
  · rwa [heq]
  · rw [heq]
    intro i path marker alerted hsleeps
    rcases hsleeps.of_advance hw hworks with ⟨hslot, halert⟩ | ⟨before, hbefore, rfl⟩
    · obtain ⟨k, v, hv, hholds⟩ := hclaimed path marker hslot
      have hruns : t.Runs k path marker := ⟨v, hv, .holds hholds⟩
      rcases hruns.advance hw hworks with hon | hover
      · exact .inr ⟨k, hon⟩
      · cases halert.symm.trans hover
    · rcases h i path marker before hbefore with rfl | ⟨k, hruns⟩
      · exact .inl rfl
      · rcases hruns.advance hw hworks with hon | hover
        · exact .inr ⟨k, hon⟩
        · exact .inl (by simp [hover])

theorem Attended.next (h : t.Attended) (hclaimed : t.Claimed) (e : Event) : (t.next e).Attended := by
  cases e with
  | come request =>
      intro i path marker alerted hsleeps
      exact (h i path marker alerted hsleeps.of_enter).imp_right fun ⟨j, hruns⟩ =>
        ⟨j, hruns.enter request⟩
  | work j offer => exact h.work hclaimed j offer
  | leave k =>
      intro i path marker alerted hsleeps
      exact (h i path marker alerted hsleeps.of_leave).imp_right fun ⟨j, hruns⟩ => ⟨j, hruns.leave k⟩
  | cancel => exact h

/-- Whoever sleeps has been alerted or waits for a load that still runs, whatever has happened. -/
theorem attended_after (events : List Event) : (after isLazy events).Attended :=
  (@after_induction isLazy (fun t => t.Claimed ∧ t.Attended) ⟨claimed_opening, attended_opening⟩
    (fun _ e h => ⟨h.1.next e, h.2.next h.1 e⟩) events).2

/-! ### Counting loads -/

/-- Every call has counted at most one load, and none before it has called the loader. -/
def Counted (t : Traffic) : Prop :=
  ∀ v ∈ t.visits, v.loads ≤ 1 ∧ (v.call.isEarly = true → v.loads = 0)

/-- What a call has counted after it went on. -/
theorem loads_advance (hworks : w.call.Works offer t.cancelled t.cache effect) :
    ((w.advance t.cache effect).loads = w.loads ∧
        (effect.call.isEarly = true → w.call.isEarly = true)) ∨
      ∃ path marker, w.call = .get path (.admitted marker) ∧
        effect.call = .get path (.loading marker) ∧
        (w.advance t.cache effect).loads = w.loads + 1 := by
  rcases hworks.loads with ⟨hloads, hearly⟩ | ⟨path, marker, hcall, hnext, hloads⟩
  · exact .inl ⟨by rw [Visit.advance, hloads, Nat.sub_self, Nat.add_zero], hearly⟩
  · refine .inr ⟨path, marker, hcall, hnext, ?_⟩
    rw [Visit.advance, hloads, Nat.add_sub_cancel_left]

theorem counted_opening : (opening isLazy).Counted := by
  intro v hv
  cases hv

theorem Counted.next (h : t.Counted) (e : Event) : (t.next e).Counted := by
  intro v hmem
  obtain ⟨i, hv⟩ := List.mem_iff_getElem?.1 hmem
  have hold : ∀ {u : Visit} {k : Nat}, t.visits[k]? = some u →
      u.loads ≤ 1 ∧ (u.call.isEarly = true → u.loads = 0) :=
    fun hu => h _ (List.mem_of_getElem? hu)
  cases e with
  | come request =>
      rcases visit_of_enter hv with hv | rfl
      · exact hold hv
      · exact ⟨Nat.zero_le 1, fun _ => rfl⟩
  | cancel => exact hold hv
  | leave j =>
      obtain ⟨u, hu, rfl | rfl⟩ := visit_of_leave hv
      · exact hold hu
      · exact ⟨(hold hu).1, fun hearly => (hold hu).2 (Call.isEarly_of_leave hearly)⟩
  | work j offer =>
      rcases t.work_cases j offer with heq | ⟨w, effect, hw, hworks, heq⟩
      · rw [Traffic.next, heq] at hv
        exact hold hv
      · rw [Traffic.next, heq] at hv
        rcases visit_of_advance hw hv with ⟨rfl, rfl⟩ | ⟨-, u, hu, rfl⟩
        · simp only [Visit.hear, Call.isEarly_hear, Visit.advance]
          rcases loads_advance hworks with ⟨hloads, hearly⟩ | ⟨path, marker, hcall, hnext, hloads⟩
          · simp only [Visit.advance] at hloads
            rw [hloads]
            exact ⟨(hold hw).1, fun hnow => (hold hw).2 (hearly hnow)⟩
          · have hnone := (hold hw).2 (by rw [hcall]; rfl)
            simp only [Visit.advance] at hloads
            rw [hloads, hnone, hnext]
            exact ⟨Nat.le_refl 1, fun hearly => by cases hearly⟩
        · simp only [Visit.hear, Call.isEarly_hear]
          exact hold hu

theorem counted_after (events : List Event) : (after isLazy events).Counted :=
  after_induction counted_opening (fun _ e h => h.next e) events

/-- A call that has loaded after an event has done so before, or it was about to. -/
theorem HasLoaded.of_next {e : Event} (h : (t.next e).HasLoaded i path) :
    t.HasLoaded i path ∨ ∃ marker, t.Admitted i path marker := by
  obtain ⟨v, hv, hwants, hloads, hstays⟩ := h
  cases e with
  | come request =>
      rcases visit_of_enter hv with hv | rfl
      · exact .inl ⟨v, hv, hwants, hloads, hstays⟩
      · exact absurd rfl hloads
  | cancel => exact .inl ⟨v, hv, hwants, hloads, hstays⟩
  | leave j =>
      obtain ⟨u, hu, rfl | rfl⟩ := visit_of_leave hv
      · exact .inl ⟨v, hu, hwants, hloads, hstays⟩
      · exact .inl ⟨u, hu, by simpa [Visit.leave] using hwants, hloads, Call.isGivenUp_of_leave hstays⟩
  | work j offer =>
      rcases t.work_cases j offer with heq | ⟨w, effect, hw, hworks, heq⟩
      · rw [Traffic.next, heq] at hv
        exact .inl ⟨v, hv, hwants, hloads, hstays⟩
      · rw [Traffic.next, heq] at hv
        rcases visit_of_advance hw hv with ⟨rfl, rfl⟩ | ⟨-, u, hu, rfl⟩
        · simp only [Visit.hear, Call.wants_hear, Visit.advance, hworks.wants_eq] at hwants
          simp only [Visit.hear, Call.isGivenUp_hear, Visit.advance] at hstays
          rcases loads_advance hworks with ⟨hsame, -⟩ | ⟨other, marker, hcall, -, -⟩
          · refine .inl ⟨w, hw, hwants, ?_, hworks.isGivenUp hstays⟩
            rw [← hsame]
            exact hloads
          · rw [hcall] at hwants
            have hpath : other = path := of_decide_eq_true hwants
            exact .inr ⟨marker, w, hw, hpath ▸ hcall⟩
        · exact .inl ⟨u, hu, by simpa [Visit.hear] using hwants, hloads,
            by simpa [Visit.hear] using hstays⟩

/-- Whoever is about to call the loader was so before, or the run is not cancelled. -/
theorem Admitted.of_next {e : Event} (h : (t.next e).Admitted i path marker) :
    t.Admitted i path marker ∨ t.cancelled = false := by
  obtain ⟨v, hv, hcall⟩ := h
  cases e with
  | come request =>
      rcases visit_of_enter hv with hv | rfl
      · exact .inl ⟨v, hv, hcall⟩
      · cases request <;> cases hcall
  | cancel => exact .inl ⟨v, hv, hcall⟩
  | leave j =>
      obtain ⟨u, hu, rfl | rfl⟩ := visit_of_leave hv
      · exact .inl ⟨v, hu, hcall⟩
      · exact .inl ⟨u, hu, Call.eq_of_leave hcall rfl⟩
  | work j offer =>
      rcases t.work_cases j offer with heq | ⟨w, effect, hw, hworks, heq⟩
      · rw [Traffic.next, heq] at hv
        exact .inl ⟨v, hv, hcall⟩
      · rw [Traffic.next, heq] at hv
        rcases visit_of_advance hw hv with ⟨rfl, rfl⟩ | ⟨-, u, hu, rfl⟩
        · exact .inr (hworks.admitted (Call.eq_of_hear hcall rfl))
        · exact .inl ⟨u, hu, Call.eq_of_hear hcall rfl⟩

theorem Admitted.holds (h : t.Admitted i path marker) : t.Holds i path marker := by
  obtain ⟨v, hv, hcall⟩ := h
  exact ⟨v, hv, hcall ▸ .admitted⟩

/-! ### No load for nothing -/

/-- Only a cancelled run keeps a caller from its package. -/
def Refused (t : Traffic) : Prop :=
  ∀ v ∈ t.visits, ∀ path marker result,
    v.call = .get path (.releasing marker (some result)) → t.cancelled = true

/-- A load that was not dropped still holds the slot, or the slot is settled, or the run is cancelled and
nobody is about to load the package. -/
def Spent (t : Traffic) : Prop :=
  ∀ i path, t.HasLoaded i path → (∃ marker, t.Holds i path marker) ∨ t.Settled path ∨
    t.cancelled = true ∧ ∀ k marker, ¬ t.Admitted k path marker

/-- Of all loads of a package at most one was not dropped. -/
def Frugal (t : Traffic) : Prop :=
  ∀ i j path, t.HasLoaded i path → t.HasLoaded j path → i = j

theorem cancelled_next (h : t.cancelled = true) (e : Event) : (t.next e).cancelled = true := by
  cases e with
  | come request => exact h
  | cancel => rfl
  | leave j => rwa [Traffic.next, cancelled_leave]
  | work j offer =>
      rcases t.work_cases j offer with heq | ⟨w, effect, hw, hworks, heq⟩
      · rwa [Traffic.next, heq]
      · rw [Traffic.next, heq]
        exact h

theorem refused_opening : (opening isLazy).Refused := by
  rintro v ⟨⟩

theorem Refused.next (h : t.Refused) (e : Event) : (t.next e).Refused := by
  intro v hmem path marker result hcall
  obtain ⟨i, hv⟩ := List.mem_iff_getElem?.1 hmem
  cases e with
  | come request =>
      rcases visit_of_enter hv with hv | rfl
      · exact h _ (List.mem_of_getElem? hv) path marker result hcall
      · cases request <;> cases hcall
  | cancel => rfl
  | leave j =>
      rw [Traffic.next, cancelled_leave]
      obtain ⟨u, hu, rfl | rfl⟩ := visit_of_leave hv
      · exact h _ (List.mem_of_getElem? hu) path marker result hcall
      · exact h _ (List.mem_of_getElem? hu) path marker result (Call.eq_of_leave hcall rfl)
  | work j offer =>
      rcases t.work_cases j offer with heq | ⟨w, effect, hw, hworks, heq⟩
      · rw [Traffic.next, heq] at hv ⊢
        exact h _ (List.mem_of_getElem? hv) path marker result hcall
      · rw [Traffic.next, heq] at hv ⊢
        rcases visit_of_advance hw hv with ⟨rfl, rfl⟩ | ⟨-, u, hu, rfl⟩
        · exact hworks.refused (Call.eq_of_hear hcall rfl)
        · exact h _ (List.mem_of_getElem? hu) path marker result (Call.eq_of_hear hcall rfl)

/-- A load loses its marker only when it settles the slot or takes the marker out itself. -/
theorem Owned.loses (h : t.Owned) (hi : t.Holds i path marker) {e : Event}
    (hslot : (t.next e).cache.slots.get? path ≠ some (.pending marker)) :
    (t.next e).Settled path ∨
      ∃ v result?, t.visits[i]? = some v ∧ v.call = .get path (.releasing marker result?) := by
  have hmarked := h.marked hi
  cases e with
  | come request => exact absurd hmarked hslot
  | cancel => exact absurd hmarked hslot
  | leave j =>
      rw [Traffic.next, cache_leave] at hslot
      exact absurd hmarked hslot
  | work j offer =>
      rcases t.work_cases j offer with heq | ⟨w, effect, hw, hworks, heq⟩
      · rw [Traffic.next, heq] at hslot
        exact absurd hmarked hslot
      · rw [Traffic.next, heq] at hslot ⊢
        by_cases hji : j = i
        · subst hji
          cases hworks.turns path with
          | keeps hkeeps => exact absurd (hkeeps.trans hmarked) hslot
          | reserves hfree => cases hmarked.symm.trans hfree
          | fills result hfree => cases hmarked.symm.trans hfree
          | settles other result _ hnew => exact .inl ⟨result, hnew⟩
          | releases other result? hcall hother =>
              cases Option.some.inj (hmarked.symm.trans hother)
              exact .inr ⟨w, result?, hw, hcall⟩
        · exact absurd (h.marker_stays hw hworks hi hji) hslot

theorem spent_opening : (opening isLazy).Spent := by
  rintro i path ⟨v, hv, -⟩
  cases hv

theorem Spent.next (h : t.Spent) (howned : t.Owned) (hrefused : t.Refused) (e : Event) :
    (t.next e).Spent := by
  intro i path hloaded
  -- what becomes of a load that held the slot before the event
  have hheld : ∀ marker, t.Holds i path marker →
      (∀ v, t.visits[i]? = some v → v.call.isGivenUp = false) →
      (∃ marker, (t.next e).Holds i path marker) ∨ (t.next e).Settled path ∨
        (t.next e).cancelled = true ∧ ∀ k marker, ¬ (t.next e).Admitted k path marker := by
    intro marker hi hstays
    by_cases hslot : (t.next e).cache.slots.get? path = some (.pending marker)
    · exact .inl ⟨marker, hi.next hslot⟩
    · rcases howned.loses hi hslot with hsettled | ⟨v, result?, hv, hcall⟩
      · exact .inr (.inl hsettled)
      · cases result? with
        | none =>
            have hgone := hstays v hv
            rw [hcall] at hgone
            cases hgone
        | some result =>
            have hcancelled := hrefused v (List.mem_of_getElem? hv) path marker result hcall
            refine .inr (.inr ⟨cancelled_next hcancelled e, fun k other hk => ?_⟩)
            rcases hk.of_next with hbefore | hlive
            · have hsame := (howned.marked hi).symm.trans (howned.marked hbefore.holds)
              cases Option.some.inj hsame
              cases howned.eq_of_holds hi hbefore.holds
              obtain ⟨u, hu, hadmitted⟩ := hbefore
              cases hv.symm.trans hu
              cases hcall.symm.trans hadmitted
            · cases hlive.symm.trans hcancelled
  rcases hloaded.of_next with hbefore | ⟨marker, hadmitted⟩
  · rcases h i path hbefore with ⟨marker, hi⟩ | ⟨result, hslot⟩ | ⟨hcancelled, hnobody⟩
    · refine hheld marker hi fun v hv => ?_
      obtain ⟨u, hu, -, -, hstays⟩ := hbefore
      cases hu.symm.trans hv
      exact hstays
    · exact .inr (.inl ⟨result, howned.settled_next hslot e⟩)
    · refine .inr (.inr ⟨cancelled_next hcancelled e, fun k marker hk => ?_⟩)
      rcases hk.of_next with hbefore | hlive
      · exact hnobody k marker hbefore
      · cases hlive.symm.trans hcancelled
  · refine hheld marker hadmitted.holds fun v hv => ?_
    obtain ⟨u, hu, hcall⟩ := hadmitted
    cases hu.symm.trans hv
    rw [hcall]
    rfl

theorem frugal_opening : (opening isLazy).Frugal := by
  rintro i j path ⟨v, hv, -⟩
  cases hv

/-- Nobody is about to load a package that has been loaded by a call that was not dropped. -/
theorem Spent.eq_of_admitted (h : t.Spent) (howned : t.Owned) (hi : t.Admitted i path marker)
    (hj : t.HasLoaded j path) : i = j := by
  have hmarked := howned.marked hi.holds
  rcases h j path hj with ⟨other, hother⟩ | ⟨result, hslot⟩ | ⟨-, hnobody⟩
  · cases Option.some.inj (hmarked.symm.trans (howned.marked hother))
    exact howned.eq_of_holds hi.holds hother
  · have hpending := Option.some.inj (hslot.symm.trans hmarked)
    exact absurd hpending (PackageSlot.holding_ne_pending _ _)
  · exact absurd hi (hnobody i marker)

theorem Frugal.next (h : t.Frugal) (howned : t.Owned) (hspent : t.Spent) (e : Event) :
    (t.next e).Frugal := by
  intro i j path hi hj
  rcases hi.of_next with hi | ⟨marker, hi⟩
  · rcases hj.of_next with hj | ⟨other, hj⟩
    · exact h i j path hi hj
    · exact (hspent.eq_of_admitted howned hj hi).symm
  · rcases hj.of_next with hj | ⟨other, hj⟩
    · exact hspent.eq_of_admitted howned hi hj
    · have hsame := (howned.marked hi.holds).symm.trans (howned.marked hj.holds)
      cases Option.some.inj hsame
      exact howned.eq_of_holds hi.holds hj.holds

/-- **Of all loads of a package at most one was not dropped**, whatever has happened. -/
theorem frugal_after (events : List Event) : (after isLazy events).Frugal :=
  (@after_induction isLazy (fun t => (t.Owned ∧ t.Refused) ∧ t.Spent ∧ t.Frugal)
    ⟨⟨owned_opening, refused_opening⟩, spent_opening, frugal_opening⟩
    (fun _ e h => ⟨⟨h.1.1.next e, h.1.2.next e⟩, h.2.1.next h.1.1 h.1.2 e,
      h.2.2.next h.1.1 h.2.1 e⟩) events).2.2

/-- The loader is called for a path only by a call that was about to. -/
theorem loadsOf_next (t : Traffic) (path : String) (e : Event) :
    (t.next e).loadsOf path = t.loadsOf path ∨ ∃ i marker, t.Admitted i path marker := by
  cases e with
  | come request => exact .inl (by simp [Traffic.next, loadsOf, enter])
  | cancel => exact .inl rfl
  | leave j =>
      rw [Traffic.next]
      unfold leave
      split
      · exact .inl rfl
      · rename_i w hw
        have hsum := sum_map_set (fun v : Visit => if v.call.wants path then v.loads else 0) hw w.leave
        simp only [Visit.leave, Call.wants_leave] at hsum
        exact .inl (Nat.add_right_cancel hsum)
  | work j offer =>
      rcases t.work_cases j offer with heq | ⟨w, effect, hw, hworks, heq⟩
      · exact .inl (by rw [Traffic.next, heq])
      · rw [Traffic.next, heq]
        have hsum := sum_map_set (fun v : Visit => if v.call.wants path then v.loads else 0) hw
          (w.advance t.cache effect)
        have hhear : ((fun v : Visit => if v.call.wants path then v.loads else 0) ∘
            fun v : Visit => v.hear effect.alert) =
            fun v : Visit => if v.call.wants path then v.loads else 0 := by
          funext v
          simp [Visit.hear]
        simp only [loadsOf, advance, List.map_map, hhear]
        rcases loads_advance hworks with ⟨hloads, -⟩ | ⟨other, marker, hcall, hnext, -⟩
        · rw [hloads, show (w.advance t.cache effect).call = effect.call from rfl,
            hworks.wants_eq] at hsum
          exact .inl (Nat.add_right_cancel hsum)
        · by_cases hpath : other = path
          · exact .inr ⟨j, marker, w, hw, hpath ▸ hcall⟩
          · have hno : w.call.wants path = false := by rw [hcall]; exact decide_eq_false hpath
            have hno' : (w.advance t.cache effect).call.wants path = false := by
              rw [show (w.advance t.cache effect).call = effect.call from rfl, hworks.wants_eq, hno]
            simp only [hno, hno', Bool.false_eq_true, if_false, Nat.add_zero] at hsum
            exact .inl hsum

/-- Nobody is about to load a package whose slot is settled. -/
theorem Owned.not_admitted (h : t.Owned) (hsettled : t.Settled path) :
    ¬ t.Admitted i path marker := by
  intro hadmitted
  obtain ⟨result, hslot⟩ := hsettled
  have hpending := Option.some.inj (hslot.symm.trans (h.marked hadmitted.holds))
  exact PackageSlot.holding_ne_pending _ _ hpending

/-- **What is settled is never loaded again.** -/
theorem loadsOf_append {past : List Event} (hsettled : (after isLazy past).Settled path)
    (rest : List Event) :
    (after isLazy (past ++ rest)).loadsOf path = (after isLazy past).loadsOf path := by
  induction rest using List.reverseRecOn with
  | nil => rw [List.append_nil]
  | append_singleton rest e ih =>
      obtain ⟨result, hslot⟩ := hsettled
      have hstill : (after isLazy (past ++ rest)).Settled path := ⟨result, settled_append hslot rest⟩
      rw [← List.append_assoc, after_concat, ← ih]
      rcases loadsOf_next (after isLazy (past ++ rest)) path e with hsame | ⟨i, marker, hadmitted⟩
      · exact hsame
      · exact absurd hadmitted ((owned_after _).not_admitted hstill)

/-- A package is loaded once if no caller gives up while the loader is at work for it. -/
theorem loadsOf_le_one {events : List Event}
    (hstays : ∀ v ∈ (after isLazy events).visits, v.call.wants path = true → v.loads ≠ 0 →
      v.call.isGivenUp = false) : (after isLazy events).loadsOf path ≤ 1 := by
  refine sum_map_le_one _ ?_ ?_
  · intro v hv
    split
    · exact (counted_after events v hv).1
    · exact Nat.zero_le 1
  · intro i j v w hv hw hcount hcount'
    have hloaded : ∀ {k : Nat} {u : Visit}, (after isLazy events).visits[k]? = some u →
        (if u.call.wants path then u.loads else 0) ≠ 0 → (after isLazy events).HasLoaded k path := by
      intro k u hu hne
      split at hne
      · rename_i hwants
        exact ⟨u, hu, hwants, hne, hstays u (List.mem_of_getElem? hu) hwants hne⟩
      · exact absurd rfl hne
    exact frugal_after events i j path (hloaded hv hcount) (hloaded hw hcount')

/-- As long as some call is not over, some call can go on, and needs no more time for it. -/
theorem exists_step {events : List Event} (h : ∃ v ∈ (after isLazy events).visits, ¬ v.call.IsOver) :
    ∃ v ∈ (after isLazy events).visits, ∀ offer, ∃ effect,
      v.call.step offer (after isLazy events).cancelled (after isLazy events).cache = some effect := by
  obtain ⟨v, hmem, hover⟩ := h
  by_cases hasleep : ∀ path marker, v.call ≠ .get path (.asleep marker false)
  · exact ⟨v, hmem, fun offer => v.call.exists_step hover hasleep offer _ _⟩
  · -- the load that it waits for can go on
    simp only [not_forall, not_not] at hasleep
    obtain ⟨path, marker, hcall⟩ := hasleep
    obtain ⟨i, hv⟩ := List.mem_iff_getElem?.1 hmem
    rcases attended_after events i path marker false ⟨v, hv, hcall⟩ with halerted | ⟨j, w, hw, hruns⟩
    · cases halerted
    · exact ⟨w, List.mem_of_getElem? hw, fun offer => hruns.exists_step offer _ _⟩

/-- **A package is loaded once, and nobody waits for nothing.**  After any course of events, in which
callers may give up and the run may be cancelled: the loader is at work for a path on behalf of one call at
most; any two calls that have called the loader for a path, and were not given up, are the same, so that the
path is loaded once at most if nobody gives up meanwhile; what is settled is never loaded again; every
marker in a slot is that of a load which has yet to take it away; whoever sleeps has been alerted or waits
for a load that has yet to raise its alert.  So when all calls are over there is no marker in any slot and
nobody sleeps; and before that some call can always go on. -/
theorem one_load_at_a_time (isLazy : Bool) (events : List Event) :
    (∀ path i j, (after isLazy events).InFlight i path → (after isLazy events).InFlight j path →
        i = j) ∧
      (∀ path i j, (after isLazy events).HasLoaded i path → (after isLazy events).HasLoaded j path →
        i = j) ∧
      (∀ path, (∀ v ∈ (after isLazy events).visits, v.call.wants path = true → v.loads ≠ 0 →
        v.call.isGivenUp = false) → (after isLazy events).loadsOf path ≤ 1) ∧
      (∀ path, (after isLazy events).Settled path → ∀ rest,
        (after isLazy (events ++ rest)).loadsOf path = (after isLazy events).loadsOf path) ∧
      (∀ path marker, (after isLazy events).cache.slots.get? path = some (.pending marker) →
        ∃ i, (after isLazy events).Holds i path marker) ∧
      (∀ i path marker alerted, (after isLazy events).Sleeps i path marker alerted →
        alerted = true ∨ ∃ j, (after isLazy events).Runs j path marker) ∧
      ((∀ v ∈ (after isLazy events).visits, v.call.IsOver) →
        (∀ path marker, (after isLazy events).cache.slots.get? path ≠ some (.pending marker)) ∧
          ∀ i path marker alerted, ¬ (after isLazy events).Sleeps i path marker alerted) ∧
      ((∃ v ∈ (after isLazy events).visits, ¬ v.call.IsOver) →
        ∃ v ∈ (after isLazy events).visits, ∀ offer, ∃ effect,
          v.call.step offer (after isLazy events).cancelled (after isLazy events).cache =
            some effect) := by
  have howned := @owned_after isLazy events
  refine ⟨?_, fun path i j => frugal_after events i j path, fun path => loadsOf_le_one,
    fun path hsettled rest => loadsOf_append hsettled rest, claimed_after events, attended_after events,
    ?_, exists_step⟩
  · rintro path i j ⟨v, marker, hv, hcall⟩ ⟨w, other, hw, hcall'⟩
    have hi : (after isLazy events).Holds i path marker := ⟨v, hv, hcall ▸ .loading⟩
    have hj : (after isLazy events).Holds j path other := ⟨w, hw, hcall' ▸ .loading⟩
    cases Option.some.inj ((howned.marked hi).symm.trans (howned.marked hj))
    exact howned.eq_of_holds hi hj
  · intro hover
    refine ⟨?_, ?_⟩
    · intro path marker hslot
      obtain ⟨i, v, hv, hholds⟩ := claimed_after events path marker hslot
      have hdone := hover v (List.mem_of_getElem? hv)
      cases hcall : v.call with
      | seed packages errors =>
          rw [hcall] at hholds
          cases hholds
      | get other stage =>
          rw [hcall] at hholds hdone
          cases hholds <;> exact hdone
    · rintro i path marker alerted ⟨v, hv, hcall⟩
      have hdone := hover v (List.mem_of_getElem? hv)
      rw [hcall] at hdone
      exact hdone

/-- A caller begins to load a package and gives up, while another one waits for it. -/
def relief : List Event :=
  let give : Offer := { outcome := { packages := [{ path := "app" }] } }
  [.come (.get "app"), .come (.get "app"), .work 0 give, .work 0 give, .work 0 give, .work 1 give,
    .work 1 give, .work 1 give, .leave 0, .work 0 give, .work 0 give, .work 1 give, .work 1 give,
    .work 1 give, .work 1 give, .work 1 give, .work 1 give, .work 1 give, .work 1 give]

/-- The other one has loaded it then, and both calls are over. -/
example : (after true relief).loadsOf "app" = 2 ∧ (after true relief).cache.loadedPaths = ["app"] ∧
    (after true relief).visits.map Visit.loads = [1, 1] := by
  decide +kernel

end Traffic

end PackageCache

end Wiring
