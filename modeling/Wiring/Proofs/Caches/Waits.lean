/-
**Nobody waits for nothing.**

A caller that sleeps at a cache of sets waits for the marker that it has found.  Whatever happens to the
slot meanwhile — a set may be kept over the marker, and another extraction may put its own marker there —
the call that has put the marker down alerts those who wait for it when its own extraction is over.

So a marker in a slot is always that of an extraction that still runs, and whoever sleeps has been alerted
or waits for an extraction that still runs.  An extraction waits for nobody: four more pieces of work bring
it to its end.

Main definitions:

* `Wiring.SetCache.Call.Runs` — a call is extracting a set, and has not yet alerted those who wait for it;
* `Wiring.SetCache.Traffic.Claimed` — every marker in a slot is that of an extraction;
* `Wiring.SetCache.Traffic.Attended` — everybody who sleeps is alerted, or will be.

Main results:

* `Wiring.SetCache.Traffic.claimed_after`, `Wiring.SetCache.Traffic.attended_after` — both hold after any
  course of events;
* `Wiring.SetCache.Traffic.ended_of_pieces` — an extraction that goes on four times is over;
* `Wiring.SetCache.Traffic.no_caller_forgotten` — **no caller is left asleep forever**.
-/

import Wiring.Proofs.Caches.Flights

set_option autoImplicit false

namespace Wiring

namespace SetCache

namespace Call

/-- A call is extracting a set and has not yet alerted those who wait for it; the slot may be settled. -/
inductive Runs : Call → SetId → Marker → Prop
  | fills {call : Call} {key : SetId} {marker : Marker} (h : call.Fills key marker) :
      Runs call key marker
  | leaving {key : SetId} {fp : Fingerprint} {marker : Marker} {result : Result} :
      Runs (.fetch key fp (.leaving marker result)) key marker

/-- The pieces of work that an extraction still has to do. -/
def toGo : Call → Nat
  | .fetch _ _ (.granted _) => 4
  | .fetch _ _ (.extracting _) => 3
  | .fetch _ _ (.holding _ _) => 2
  | .fetch _ _ (.leaving _ _) => 1
  | _ => 0

variable {call : Call} {offer : Offer} {cache : SetCache} {effect : Effect} {key : SetId}
  {marker : Marker} {alert : Option Marker}

theorem Fills.hear (h : call.Fills key marker) (alert : Option Marker) :
    (call.hear alert).Fills key marker := by
  cases h with
  | granted => exact .granted
  | extracting => exact .extracting
  | holding => exact .holding

theorem Fills.leave (h : call.Fills key marker) : call.leave.Fills key marker := by
  cases h with
  | granted => exact .granted
  | extracting => exact .extracting
  | holding => exact .holding

theorem not_runs_come (request : Request) : ¬ request.call.Runs key marker := by
  intro h
  cases request <;> rcases h with ⟨⟨⟩⟩

theorem Runs.hear (h : call.Runs key marker) (alert : Option Marker) :
    (call.hear alert).Runs key marker := by
  cases h with
  | fills h => exact .fills (h.hear alert)
  | leaving => exact .leaving

theorem Runs.leave (h : call.Runs key marker) : call.leave.Runs key marker := by
  cases h with
  | fills h => exact .fills h.leave
  | leaving => exact .leaving

theorem Runs.of_hear (h : (call.hear alert).Runs key marker) : call.Runs key marker :=
  Call.of_hear (P := (Runs · key marker)) h (by rintro _ _ _ _ ⟨⟨⟩⟩) (by rintro _ _ _ _ ⟨⟨⟩⟩)

theorem Runs.of_leave (h : call.leave.Runs key marker) : call.Runs key marker :=
  Call.of_leave (P := (Runs · key marker)) h (by rintro _ _ ⟨⟨⟩⟩)

theorem toGo_hear (call : Call) (alert : Option Marker) : (call.hear alert).toGo = call.toGo := by
  unfold Call.hear
  split <;> rfl

theorem toGo_leave (call : Call) : call.leave.toGo = call.toGo := by
  unfold Call.leave
  split <;> rfl

theorem Runs.toGo_pos (h : call.Runs key marker) : 0 < call.toGo := by
  rcases h with ⟨_ | _ | _⟩ | _ <;> exact Nat.succ_pos _

theorem toGo_le (call : Call) : call.toGo ≤ 4 := by
  unfold toGo
  split <;> omega

/-- An extraction never has to wait. -/
theorem Runs.exists_step (h : call.Runs key marker) (offer : Offer) (cache : SetCache) :
    ∃ effect, call.step offer cache = some effect := by
  rcases h with ⟨_ | _ | _⟩ | _ <;> exact ⟨_, rfl⟩

/-- Every piece of work brings an extraction nearer to its end. -/
theorem Works.toGo_succ (hworks : call.Works offer cache effect) (h : call.Runs key marker) :
    effect.call.toGo + 1 = call.toGo := by
  rcases h with ⟨_ | _ | _⟩ | _ <;> cases hworks <;> rfl

/-- Whoever extracts goes on extracting, or alerts those who wait for it. -/
theorem Works.runs_on (hworks : call.Works offer cache effect) (h : call.Runs key marker) :
    effect.call.Runs key marker ∨ effect.alert = some marker := by
  rcases h with ⟨_ | _ | _⟩ | _
  · cases hworks with | count => exact .inl (.fills .extracting)
  · cases hworks with | extract => exact .inl (.fills .holding)
  · cases hworks with | settle => exact .inl .leaving
  · cases hworks with | alert => exact .inr rfl

/-- Whoever extracts has done so before, or has just put a new marker down. -/
theorem Works.runs (hworks : call.Works offer cache effect) (h : effect.call.Runs key marker) :
    call.Runs key marker ∨ marker = cache.nextMarker ∧ effect.cache = cache.reserve key := by
  cases hworks with
  | grant =>
      rcases h with ⟨⟨⟩⟩
      exact .inr ⟨rfl, rfl⟩
  | count =>
      rcases h with ⟨⟨⟩⟩
      exact .inl (.fills .granted)
  | extract =>
      rcases h with ⟨⟨⟩⟩
      exact .inl (.fills .extracting)
  | settle =>
      cases h with
      | fills h => cases h
      | leaving => exact .inl (.fills .holding)
  | _ => rcases h with ⟨⟨⟩⟩

/-- Nobody sleeps who has not slept before, or has just found the marker in the slot. -/
theorem Works.sleeps (hworks : call.Works offer cache effect) {fp : Fingerprint} {alerted : Bool}
    (h : effect.call = .fetch key fp (.asleep marker alerted)) :
    cache.slots.get? key = some (.pending marker) ∧ effect.alert = none := by
  cases hworks with
  | sleep hslot =>
      cases h
      exact ⟨hslot, rfl⟩
  | _ => cases h

theorem asleep_of_hear {fp : Fingerprint} {alerted : Bool}
    (h : call.hear alert = .fetch key fp (.asleep marker alerted)) :
    ∃ before, call = .fetch key fp (.asleep marker before) ∧
      alerted = (before || alert = some marker) := by
  unfold Call.hear at h
  split at h
  · cases h
  · cases h
    exact ⟨_, rfl, rfl⟩
  · rename_i hother
    exact absurd h (hother _ _ _ _)

theorem Works.distinct (hworks : call.Works offer cache effect) (h : cache.slots.Distinct) :
    effect.cache.slots.Distinct := by
  cases hworks with
  | grant => exact h.put _ _
  | @settle key' fp marker' result =>
      cases result with
      | ok set => exact h.put _ _
      | error e =>
          simp only [SetCache.settle, abandon]
          split
          · exact h.erase _
          · exact h
  | overwrite => exact h.put _ _
  | keep => exact h.put _ _
  | sweep => exact h.filter _
  | _ => exact h

/-- A marker in a slot has been there before, or has just been put down. -/
theorem Works.marker_since (hworks : call.Works offer cache effect) (hdistinct : cache.slots.Distinct)
    (h : effect.cache.slots.get? key = some (.pending marker)) :
    cache.slots.get? key = some (.pending marker) ∨ effect.call.Fills key marker := by
  cases hworks with
  | @grant key' fp hfree =>
      simp only [reserve, Table.get?_put] at h
      split at h
      · rename_i hkey
        cases h
        exact .inr (hkey ▸ .granted)
      · exact .inl h
  | @settle key' fp marker' result =>
      cases result with
      | ok set =>
          simp only [SetCache.settle, store, Table.get?_put] at h
          split at h
          · cases h
          · exact .inl h
      | error e =>
          simp only [SetCache.settle, abandon] at h
          split at h
          · simp only [Table.get?_erase] at h
            split at h
            · cases h
            · exact .inl h
          · exact .inl h
  | overwrite =>
      simp only [SetCache.put, store, Table.get?_put] at h
      split at h
      · cases h
      · exact .inl h
  | keep =>
      simp only [SetCache.put, store, Table.get?_put] at h
      split at h
      · cases h
      · exact .inl h
  | sweep => exact .inl (hdistinct.of_get?_filter h).1
  | _ => exact .inl h

/-- Whoever extracts goes on doing so as long as its marker is in the slot. -/
theorem Works.fills_on (hworks : call.Works offer cache effect) (hfills : call.Fills key marker)
    (h : effect.cache.slots.get? key = some (.pending marker)) : effect.call.Fills key marker := by
  cases hfills with
  | granted => cases hworks with | count => exact .extracting
  | extracting => cases hworks with | extract => exact .holding
  | @holding _ fp _ result =>
      -- the slot has just been settled, so it holds another marker or none
      exfalso
      cases hworks
      cases result with
      | ok set => simp [SetCache.settle, store, Table.get?_put] at h
      | error e =>
          simp only [SetCache.settle, abandon] at h
          split at h
          · simp [Table.get?_erase] at h
          · rename_i hgone
            exact hgone (decide_eq_true h)

end Call

/-- How often an event lets a call go on. -/
def Event.worksOn (i : Nat) : Event → Nat
  | .work j _ => if j = i then 1 else 0
  | _ => 0

namespace Traffic

/-- A call is extracting the set of a key, and has not yet alerted those who wait for it. -/
def Runs (t : Traffic) (i : Nat) (key : SetId) (marker : Marker) : Prop :=
  ∃ v, t.visits[i]? = some v ∧ v.call.Runs key marker

/-- A caller waits for a marker in its sleep. -/
def Sleeps (t : Traffic) (i : Nat) (key : SetId) (marker : Marker) (alerted : Bool) : Prop :=
  ∃ v fp, t.visits[i]? = some v ∧ v.call = .fetch key fp (.asleep marker alerted)

/-- Every marker in a slot is that of an extraction. -/
structure Claimed (t : Traffic) : Prop where
  distinct : t.cache.slots.Distinct
  filled : ∀ {key marker}, t.cache.slots.get? key = some (.pending marker) → ∃ i, t.Fills i key marker

/-- Everybody who sleeps has been alerted, or waits for an extraction that still runs. -/
def Attended (t : Traffic) : Prop :=
  ∀ i key marker alerted, t.Sleeps i key marker alerted → alerted = true ∨ ∃ j, t.Runs j key marker

/-- No two extractions run under the same marker, and the next marker is a new one. -/
structure Enumerated (t : Traffic) : Prop where
  below : ∀ {i key marker}, t.Runs i key marker → marker < t.cache.nextMarker
  eq_of_runs : ∀ {i j key key' marker}, t.Runs i key marker → t.Runs j key' marker → i = j

variable {t : Traffic} {key : SetId} {i j : Nat} {marker : Marker} {w : Visit} {effect : Effect}

/-! ### One event -/

theorem Fills.next (h : t.Fills i key marker) {e : Event}
    (hslot : (t.next e).cache.slots.get? key = some (.pending marker)) :
    (t.next e).Fills i key marker := by
  obtain ⟨v, hv, hfills⟩ := h
  cases e with
  | come request => exact ⟨v, visit_enter hv request, hfills⟩
  | leave j =>
      rcases visit_leave hv j with h | h
      · exact ⟨v, h, hfills⟩
      · exact ⟨v.leave, h, hfills.leave⟩
  | work j offer =>
      rcases t.work_cases j offer with heq | ⟨w, effect, hw, hworks, heq⟩
      · exact ⟨v, by rw [Traffic.next, heq]; exact hv, hfills⟩
      · rw [Traffic.next, heq] at hslot ⊢
        by_cases hji : j = i
        · subst hji
          cases hw.symm.trans hv
          exact ⟨_, visit_advance_self hw effect, (hworks.fills_on hfills hslot).hear _⟩
        · exact ⟨_, visit_advance_other hv hji w effect, hfills.hear _⟩

/-- A piece of work leaves an extraction running, or it is its last one and raises the alert. -/
theorem Runs.advance {offer : Offer} (h : t.Runs i key marker) (hw : t.visits[j]? = some w)
    (hworks : w.call.Works offer t.cache effect) :
    (t.advance j w effect).Runs i key marker ∨ effect.alert = some marker := by
  obtain ⟨v, hv, hruns⟩ := h
  by_cases hji : j = i
  · subst hji
    cases hw.symm.trans hv
    rcases hworks.runs_on hruns with hon | halert
    · exact .inl ⟨_, visit_advance_self hw effect, hon.hear _⟩
    · exact .inr halert
  · exact .inl ⟨_, visit_advance_other hv hji w effect, hruns.hear _⟩

theorem Runs.enter (h : t.Runs i key marker) (request : Request) :
    (t.enter request).Runs i key marker :=
  exists_enter h request

theorem Runs.leave (h : t.Runs i key marker) (j : Nat) : (t.leave j).Runs i key marker :=
  exists_leave Call.Runs.leave h j

/-- Whoever extracts has done so before, or it has just put a new marker down. -/
theorem Runs.of_next {e : Event} (h : (t.next e).Runs i key marker) :
    t.Runs i key marker ∨
      marker = t.cache.nextMarker ∧ (t.next e).cache.nextMarker = marker + 1 ∧
        ∃ offer, e = .work i offer := by
  obtain ⟨v, hv, hruns⟩ := h
  cases e with
  | come request =>
      rcases visit_of_enter hv with hv | rfl
      · exact .inl ⟨v, hv, hruns⟩
      · exact absurd hruns (Call.not_runs_come request)
  | leave j =>
      obtain ⟨u, hu, rfl | rfl⟩ := visit_of_leave hv
      · exact .inl ⟨v, hu, hruns⟩
      · exact .inl ⟨u, hu, hruns.of_leave⟩
  | work j offer =>
      rcases t.work_cases j offer with heq | ⟨w, effect, hw, hworks, heq⟩
      · exact .inl ⟨v, by rwa [Traffic.next, heq] at hv, hruns⟩
      · rw [Traffic.next, heq] at hv ⊢
        rcases visit_of_advance hw hv with ⟨rfl, rfl⟩ | ⟨-, u, hu, rfl⟩
        · rcases hworks.runs hruns.of_hear with hold | ⟨rfl, hcache⟩
          · exact .inl ⟨w, hw, hold⟩
          · exact .inr ⟨rfl, by simp only [Traffic.advance, hcache, reserve], offer, rfl⟩
        · exact .inl ⟨u, hu, hruns.of_hear⟩

theorem nextMarker_le_next (t : Traffic) (e : Event) :
    t.cache.nextMarker ≤ (t.next e).cache.nextMarker := by
  cases e with
  | come request => exact Nat.le_refl _
  | leave j => exact Nat.le_of_eq (by rw [Traffic.next, cache_leave])
  | work j offer =>
      rcases t.work_cases j offer with heq | ⟨w, effect, hw, hworks, heq⟩
      · exact Nat.le_of_eq (by rw [Traffic.next, heq])
      · rw [Traffic.next, heq]
        exact hworks.nextMarker_le

theorem nextMarker_le_append (past rest : List Event) :
    (after past).cache.nextMarker ≤ (after (past ++ rest)).cache.nextMarker := by
  induction rest using List.reverseRecOn with
  | nil => exact Nat.le_of_eq (by rw [List.append_nil])
  | append_singleton rest e ih =>
      rw [← List.append_assoc, after_concat]
      exact Nat.le_trans ih (nextMarker_le_next _ e)

/-! ### Markers in slots -/

theorem claimed_new : Claimed {} where
  distinct := Table.distinct_empty
  filled := by
    rintro key marker ⟨⟩

theorem Claimed.next (h : t.Claimed) (e : Event) : (t.next e).Claimed where
  distinct := by
    cases e with
    | come request => exact h.distinct
    | leave j =>
        rw [Traffic.next, cache_leave]
        exact h.distinct
    | work j offer =>
        rcases t.work_cases j offer with heq | ⟨w, effect, hw, hworks, heq⟩
        · rw [Traffic.next, heq]
          exact h.distinct
        · rw [Traffic.next, heq]
          exact hworks.distinct h.distinct
  filled := by
    intro key marker hslot
    -- either the marker was there before, or the call that went on has just put it down
    have hsince : t.cache.slots.get? key = some (.pending marker) ∨
        ∃ i, (t.next e).Fills i key marker := by
      cases e with
      | come request => exact .inl hslot
      | leave j =>
          rw [Traffic.next, cache_leave] at hslot
          exact .inl hslot
      | work j offer =>
          rcases t.work_cases j offer with heq | ⟨w, effect, hw, hworks, heq⟩
          · rw [Traffic.next, heq] at hslot
            exact .inl hslot
          · rw [Traffic.next, heq] at hslot ⊢
            rcases hworks.marker_since h.distinct hslot with hold | hnew
            · exact .inl hold
            · exact .inr ⟨j, _, visit_advance_self hw effect, hnew.hear _⟩
    rcases hsince with hold | hnew
    · obtain ⟨i, hi⟩ := h.filled hold
      exact ⟨i, hi.next hslot⟩
    · exact hnew

/-- Every marker in a slot is that of an extraction, whatever has happened. -/
theorem claimed_after (events : List Event) : (after events).Claimed :=
  after_induction claimed_new (fun _ e h => h.next e) events

/-! ### Callers that sleep -/

theorem Sleeps.of_enter {request : Request} {alerted : Bool}
    (h : (t.enter request).Sleeps i key marker alerted) : t.Sleeps i key marker alerted := by
  obtain ⟨v, fp, hv, hcall⟩ := h
  rcases visit_of_enter hv with hv | rfl
  · exact ⟨v, fp, hv, hcall⟩
  · cases request <;> cases hcall

theorem Sleeps.of_leave {alerted : Bool} (h : (t.leave j).Sleeps i key marker alerted) :
    t.Sleeps i key marker alerted := by
  obtain ⟨v, fp, hv, hcall⟩ := h
  obtain ⟨u, hu, rfl | rfl⟩ := visit_of_leave hv
  · exact ⟨v, fp, hu, hcall⟩
  · simp only [Visit.leave, Call.leave] at hcall
    split at hcall
    · cases hcall
    · exact ⟨u, fp, hu, hcall⟩

/-- Whoever sleeps after a piece of work has just found the marker in the slot, or it slept before and may
have heard an alert. -/
theorem Sleeps.of_advance {offer : Offer} {alerted : Bool} (hw : t.visits[j]? = some w)
    (hworks : w.call.Works offer t.cache effect)
    (h : (t.advance j w effect).Sleeps i key marker alerted) :
    (t.cache.slots.get? key = some (.pending marker) ∧ effect.alert = none) ∨
      ∃ before, t.Sleeps i key marker before ∧ alerted = (before || effect.alert = some marker) := by
  obtain ⟨v, fp, hv, hcall⟩ := h
  rcases visit_of_advance hw hv with ⟨rfl, rfl⟩ | ⟨-, u, hu, rfl⟩
  · obtain ⟨before, hbefore, -⟩ := Call.asleep_of_hear hcall
    exact .inl (hworks.sleeps hbefore)
  · obtain ⟨before, hbefore, halerted⟩ := Call.asleep_of_hear hcall
    exact .inr ⟨before, ⟨u, fp, hu, hbefore⟩, halerted⟩

theorem attended_new : Attended {} := by
  rintro i key marker alerted ⟨v, fp, hv, -⟩
  cases hv

theorem Attended.work (h : t.Attended) (hclaimed : t.Claimed) (j : Nat) (offer : Offer) :
    (t.work j offer).Attended := by
  rcases t.work_cases j offer with heq | ⟨w, effect, hw, hworks, heq⟩
  · rwa [heq]
  · rw [heq]
    intro i key marker alerted hsleeps
    rcases hsleeps.of_advance hw hworks with ⟨hslot, halert⟩ | ⟨before, hbefore, rfl⟩
    · obtain ⟨k, v, hv, hfills⟩ := hclaimed.filled hslot
      have hruns : t.Runs k key marker := ⟨v, hv, .fills hfills⟩
      rcases hruns.advance hw hworks with hon | hover
      · exact .inr ⟨k, hon⟩
      · rw [halert] at hover
        cases hover
    · rcases h i key marker before hbefore with rfl | ⟨k, hruns⟩
      · exact .inl rfl
      · rcases hruns.advance hw hworks with hon | hover
        · exact .inr ⟨k, hon⟩
        · exact .inl (by simp [hover])

theorem Attended.next (h : t.Attended) (hclaimed : t.Claimed) (e : Event) : (t.next e).Attended := by
  cases e with
  | come request =>
      intro i key marker alerted hsleeps
      exact (h i key marker alerted hsleeps.of_enter).imp_right fun ⟨j, hruns⟩ => ⟨j, hruns.enter request⟩
  | work j offer => exact h.work hclaimed j offer
  | leave k =>
      intro i key marker alerted hsleeps
      exact (h i key marker alerted hsleeps.of_leave).imp_right fun ⟨j, hruns⟩ => ⟨j, hruns.leave k⟩

/-- Whoever sleeps has been alerted or waits for an extraction that still runs, whatever has happened. -/
theorem attended_after (events : List Event) : (after events).Attended :=
  (@after_induction (fun t => t.Claimed ∧ t.Attended) ⟨claimed_new, attended_new⟩
    (fun _ e h => ⟨h.1.next e, h.2.next h.1 e⟩) events).2

/-! ### Extractions come to their end -/

theorem enumerated_new : Enumerated {} where
  below := by
    rintro i key marker ⟨v, hv, -⟩
    cases hv
  eq_of_runs := by
    rintro i j key key' marker ⟨v, hv, -⟩
    cases hv

theorem Enumerated.next (h : t.Enumerated) (e : Event) : (t.next e).Enumerated where
  below := by
    intro i key marker hi
    rcases hi.of_next with hold | ⟨-, hnext, -⟩
    · exact Nat.lt_of_lt_of_le (h.below hold) (nextMarker_le_next t e)
    · rw [hnext]
      exact Nat.lt_succ_self _
  eq_of_runs := by
    intro i j key key' marker hi hj
    -- a marker that has just been put down is not an old one
    rcases hi.of_next with hold | ⟨rfl, -, offer, rfl⟩
    · rcases hj.of_next with hold' | ⟨rfl, -, -⟩
      · exact h.eq_of_runs hold hold'
      · exact absurd (h.below hold) (Nat.lt_irrefl _)
    · rcases hj.of_next with hold' | ⟨-, -, offer', heq⟩
      · exact absurd (h.below hold') (Nat.lt_irrefl _)
      · cases heq
        rfl

theorem enumerated_after (events : List Event) : (after events).Enumerated :=
  after_induction enumerated_new (fun _ e h => h.next e) events

/-- How often a course of events lets a call go on. -/
def pieces (i : Nat) (events : List Event) : Nat :=
  (events.map (Event.worksOn i)).sum

/-- An extraction comes nearer to its end whenever it goes on. -/
theorem toGo_next {v : Visit} (hv : t.visits[i]? = some v) (hruns : v.call.Runs key marker) (e : Event) :
    ∃ v', (t.next e).visits[i]? = some v' ∧ v'.call.toGo + e.worksOn i = v.call.toGo := by
  cases e with
  | come request => exact ⟨v, visit_enter hv request, rfl⟩
  | leave j =>
      rcases visit_leave hv j with h | h
      · exact ⟨v, h, rfl⟩
      · exact ⟨v.leave, h, Call.toGo_leave v.call⟩
  | work j offer =>
      by_cases hji : j = i
      · subst hji
        obtain ⟨effect, hstep⟩ := hruns.exists_step offer t.cache
        have hgo := (Call.works_of_step hstep).toGo_succ hruns
        have hwork : t.work j offer = t.advance j v effect := by simp [work, hv, hstep]
        refine ⟨_, by rw [Traffic.next, hwork]; exact visit_advance_self hv effect, ?_⟩
        simp only [Visit.hear, Visit.advance, Call.toGo_hear, Event.worksOn, if_true]
        exact hgo
      · simp only [Event.worksOn, if_neg hji, Nat.add_zero]
        rcases t.work_cases j offer with heq | ⟨w, effect, hw, -, heq⟩
        · exact ⟨v, by rw [Traffic.next, heq]; exact hv, rfl⟩
        · refine ⟨_, by rw [Traffic.next, heq]; exact visit_advance_other hv hji w effect, ?_⟩
          exact Call.toGo_hear v.call effect.alert

/-- An extraction that runs under an old marker has run all the time, and every piece of its work
counts. -/
theorem Runs.since {past : List Event} (hold : marker < (after past).cache.nextMarker) (rest : List Event)
    (h : (after (past ++ rest)).Runs i key marker) :
    (after past).Runs i key marker ∧
      ∃ v, (after (past ++ rest)).visits[i]? = some v ∧ v.call.toGo + pieces i rest ≤ 4 := by
  induction rest using List.reverseRecOn with
  | nil =>
      rw [List.append_nil] at h ⊢
      obtain ⟨v, hv, hruns⟩ := h
      exact ⟨⟨v, hv, hruns⟩, v, hv, Call.toGo_le v.call⟩
  | append_singleton rest e ih =>
      rw [← List.append_assoc, after_concat] at h ⊢
      rcases h.of_next with hbefore | ⟨rfl, -, -⟩
      · obtain ⟨hpast, v, hv, hgo⟩ := ih hbefore
        obtain ⟨u, hu, hruns⟩ := hbefore
        cases hu.symm.trans hv
        obtain ⟨v', hv', hgo'⟩ := toGo_next hv hruns e
        refine ⟨hpast, v', hv', ?_⟩
        simp only [pieces, List.map_append, List.sum_append, List.map_cons, List.map_nil,
          List.sum_cons, List.sum_nil] at hgo ⊢
        omega
      · exact absurd hold (Nat.not_lt.2 (nextMarker_le_append past rest))

/-- An extraction that goes on four times is over, whatever else happens meanwhile. -/
theorem ended_of_pieces {past : List Event} (h : (after past).Runs i key marker) {rest : List Event}
    (hpieces : 4 ≤ pieces i rest) (j : Nat) : ¬ (after (past ++ rest)).Runs j key marker := by
  intro hruns
  obtain ⟨hpast, v, hv, hgo⟩ := hruns.since ((enumerated_after past).below h) rest
  have hsame : j = i := (enumerated_after past).eq_of_runs hpast h
  subst hsame
  obtain ⟨u, hu, hlast⟩ := hruns
  cases hu.symm.trans hv
  have := hlast.toGo_pos
  omega

/-! ### Nobody is forgotten -/

/-- **No caller is left asleep forever.**  After any course of events, every marker in a slot is that of an
extraction that has not settled it yet, and whoever sleeps has been alerted or waits for an extraction that
still runs.  So when no extraction runs, there is no marker in any slot and nobody sleeps without having
been alerted.  And an extraction waits for nobody: once it has gone on four times, whatever else has
happened, everybody who has waited for it is alerted. -/
theorem no_caller_forgotten (events : List Event) :
    (∀ key marker, (after events).cache.slots.get? key = some (.pending marker) →
        ∃ i, (after events).Fills i key marker) ∧
      (∀ i key marker alerted, (after events).Sleeps i key marker alerted →
        alerted = true ∨ ∃ j, (after events).Runs j key marker) ∧
      ((∀ j key marker, ¬ (after events).Runs j key marker) →
        (∀ key marker, (after events).cache.slots.get? key ≠ some (.pending marker)) ∧
          ∀ i key marker, ¬ (after events).Sleeps i key marker false) ∧
      ∀ i key marker, (after events).Runs i key marker → ∀ rest, 4 ≤ pieces i rest →
        ∀ j, ¬ (after (events ++ rest)).Sleeps j key marker false := by
  refine ⟨fun key marker => (claimed_after events).filled, attended_after events, ?_, ?_⟩
  · intro hidle
    refine ⟨?_, ?_⟩
    · intro key marker hslot
      obtain ⟨i, v, hv, hfills⟩ := (claimed_after events).filled hslot
      exact hidle i key marker ⟨v, hv, .fills hfills⟩
    · intro i key marker hsleeps
      rcases attended_after events i key marker false hsleeps with halerted | ⟨j, hruns⟩
      · cases halerted
      · exact hidle j key marker hruns
  · intro i key marker hruns rest hpieces j hsleeps
    rcases attended_after _ j key marker false hsleeps with halerted | ⟨k, hon⟩
    · cases halerted
    · exact ended_of_pieces hruns hpieces k hon

/-- A caller sleeps while the first extraction goes on.  Meanwhile a set of its own is kept by a third,
and a fourth begins to extract the set anew. -/
def overtaken : List Event :=
  let offer : Offer := { result := .error .cancelled }
  [.come (.fetch baseSet ⟨"old", []⟩), .work 0 offer, .come (.fetch baseSet ⟨"old", []⟩),
    .work 1 offer, .work 1 offer, .work 1 offer, .come (.put baseSet ⟨baseSet, []⟩ []),
    .work 2 offer, .work 2 offer, .come (.fetch baseSet ⟨"new", []⟩), .work 3 offer]

/-- The slot holds another marker than the one that is waited for. -/
example : (after overtaken).Sleeps 1 baseSet 0 false ∧
    (after overtaken).cache.slots.get? baseSet = some (.pending 1) :=
  ⟨⟨_, _, rfl, rfl⟩, by decide⟩

end Traffic

end SetCache

end Wiring
