/-
**One extraction at a time.**

A call that extracts a set has put its marker down first, and while the marker is there everybody else
who wants the set waits.  Nothing takes the marker away before the extraction is over, but for one thing:
a call that keeps a set of its own writes over it.  Whoever asks next for another content finds a set
that does not serve, and begins a second extraction beside the first one.

So as long as no set is kept for the key from outside, there is one extraction of it at a time.

Main definitions:

* `Wiring.SetCache.Traffic.Fills` — a call is extracting the set of a key;
* `Wiring.SetCache.Traffic.landed` — how many sets have been kept for a key from outside;
* `Wiring.SetCache.Traffic.Numbered` — no two calls have the same marker;
* `Wiring.SetCache.Traffic.Marked` — the slot of a key holds the marker of whoever extracts.

Main results:

* `Wiring.SetCache.Traffic.numbered_after` — markers are told apart after any events;
* `Wiring.SetCache.Traffic.single_flight` — **there is one extraction at a time while nothing is kept
  from outside**;
* `Wiring.SetCache.Traffic.two_flights` — **there may be two when something is**.
-/

import Wiring.Proofs.Caches.Traffic

set_option autoImplicit false

namespace Wiring

namespace SetCache

namespace Call

/-- A call is extracting a set, and has not settled the slot yet. -/
inductive Fills : Call → SetId → Marker → Prop
  | granted {key : SetId} {fp : Fingerprint} {marker : Marker} :
      Fills (.fetch key fp (.granted marker)) key marker
  | extracting {key : SetId} {fp : Fingerprint} {marker : Marker} :
      Fills (.fetch key fp (.extracting marker)) key marker
  | holding {key : SetId} {fp : Fingerprint} {marker : Marker} {result : Result} :
      Fills (.fetch key fp (.holding marker result)) key marker

/-- How many sets a call has kept for a key. -/
def landings (key : SetId) : Call → Nat
  | .put other _ _ (.alerting _ _) => if other = key then 1 else 0
  | .put other _ _ (.done _) => if other = key then 1 else 0
  | _ => 0

variable {call : Call} {offer : Offer} {cache : SetCache} {effect : Effect} {key : SetId}
  {marker : Marker} {alert : Option Marker}

theorem not_fills_come (request : Request) : ¬ request.call.Fills key marker := by
  intro h
  cases request <;> cases h

theorem Fills.of_hear (h : (call.hear alert).Fills key marker) : call.Fills key marker :=
  Call.of_hear (P := (Fills · key marker)) h nofun nofun

theorem Fills.of_leave (h : call.leave.Fills key marker) : call.Fills key marker :=
  Call.of_leave (P := (Fills · key marker)) h nofun

theorem landings_come (request : Request) : request.call.landings key = 0 := by
  cases request <;> rfl

theorem landings_hear : (call.hear alert).landings key = call.landings key := by
  unfold Call.hear
  split <;> rfl

theorem landings_leave : call.leave.landings key = call.landings key := by
  unfold Call.leave
  split <;> rfl

/-- What is kept stays kept. -/
theorem Works.landings_le (hworks : call.Works offer cache effect) (key : SetId) :
    call.landings key ≤ effect.call.landings key := by
  cases hworks <;> simp [landings]

theorem Works.nextMarker_le (hworks : call.Works offer cache effect) :
    cache.nextMarker ≤ effect.cache.nextMarker := by
  cases hworks with
  | grant => exact Nat.le_succ _
  | @settle key' fp' marker' result =>
      cases result with
      | ok set => exact Nat.le_refl _
      | error e =>
          simp only [SetCache.settle, abandon]
          split <;> exact Nat.le_refl _
  | _ => exact Nat.le_refl _

/-- Whoever extracts has done so before and leaves the slots as they are, or has just found the slot
without a marker and put a new one down. -/
theorem Works.fills (hworks : call.Works offer cache effect) (h : effect.call.Fills key marker) :
    (call.Fills key marker ∧ effect.cache.slots = cache.slots) ∨
      ((∀ other, cache.slots.get? key ≠ some (.pending other)) ∧ marker = cache.nextMarker ∧
        effect.cache = cache.reserve key) := by
  cases hworks with
  | grant hfree =>
      cases h
      exact .inr ⟨hfree, rfl, rfl⟩
  | count =>
      cases h
      exact .inl ⟨.granted, rfl⟩
  | extract =>
      cases h
      exact .inl ⟨.extracting, rfl⟩
  | _ => cases h

/-- A marker stays, unless a set is kept in its place or an extraction of that key is over. -/
theorem Works.marker_stays (hworks : call.Works offer cache effect)
    (hslot : cache.slots.get? key = some (.pending marker))
    (hput : effect.call.landings key = call.landings key) :
    effect.cache.slots.get? key = some (.pending marker) ∨
      ∃ other, call.Fills key other := by
  cases hworks with
  | @grant key' fp hfree =>
      have hne : key ≠ key' := by
        rintro rfl
        exact hfree marker hslot
      left
      simp only [reserve, Table.get?_put, if_neg hne]
      exact hslot
  | @settle key' fp marker' result =>
      by_cases hkey : key = key'
      · subst hkey
        exact .inr ⟨marker', .holding⟩
      · left
        cases result with
        | ok set =>
            simp only [SetCache.settle, store, Table.get?_put, if_neg hkey]
            exact hslot
        | error e =>
            simp only [SetCache.settle, abandon]
            split
            · simp only [Table.get?_erase, if_neg hkey]
              exact hslot
            · exact hslot
  | @overwrite key' set files disk marker' =>
      have hne : key ≠ key' := by
        rintro rfl
        simp [landings] at hput
      left
      simp only [SetCache.put, store, Table.get?_put, if_neg hne]
      exact hslot
  | @keep key' set files disk =>
      have hne : key ≠ key' := by
        rintro rfl
        simp [landings] at hput
      left
      simp only [SetCache.put, store, Table.get?_put, if_neg hne]
      exact hslot
  | sweep => exact .inl (Table.get?_filter hslot rfl)
  | _ => exact .inl hslot

end Call

namespace Traffic

/-- A call is extracting the set of a key. -/
def Fills (t : Traffic) (i : Nat) (key : SetId) (marker : Marker) : Prop :=
  ∃ v, t.visits[i]? = some v ∧ v.call.Fills key marker

/-- How many sets have been kept for a key from outside. -/
def landed (t : Traffic) (key : SetId) : Nat :=
  (t.visits.map fun v => v.call.landings key).sum

/-- No two calls extract under the same marker, and the next marker is a new one. -/
structure Numbered (t : Traffic) : Prop where
  below : ∀ {i key marker}, t.Fills i key marker → marker < t.cache.nextMarker
  eq_of_fills : ∀ {i j key key' marker}, t.Fills i key marker → t.Fills j key' marker → i = j

/-- Whoever extracts the set of a key has its marker in the slot. -/
def Marked (t : Traffic) (key : SetId) : Prop :=
  ∀ i marker, t.Fills i key marker → t.cache.slots.get? key = some (.pending marker)

variable {t : Traffic} {key : SetId} {i : Nat} {marker : Marker}

/-! ### One event -/

theorem Fills.of_enter {request : Request} (h : (t.enter request).Fills i key marker) :
    t.Fills i key marker :=
  exists_of_enter (Call.not_fills_come request) h

theorem Fills.of_leave {j : Nat} (h : (t.leave j).Fills i key marker) : t.Fills i key marker :=
  exists_of_leave Call.Fills.of_leave h

/-- Whoever extracts after a piece of work did so before, and has left the slots alone if it was the
one to go on; or it has just put its marker down. -/
theorem Fills.of_advance {j : Nat} {w : Visit} {offer : Offer} {effect : Effect}
    (hw : t.visits[j]? = some w) (hworks : w.call.Works offer t.cache effect)
    (h : (t.advance j w effect).Fills i key marker) :
    (t.Fills i key marker ∧ (j = i → effect.cache.slots = t.cache.slots)) ∨
      (j = i ∧ (∀ other, t.cache.slots.get? key ≠ some (.pending other)) ∧
        marker = t.cache.nextMarker ∧ effect.cache = t.cache.reserve key) := by
  obtain ⟨v, hv, hfills⟩ := h
  rcases visit_of_advance hw hv with ⟨rfl, rfl⟩ | ⟨hne, u, hu, rfl⟩
  · rcases hworks.fills hfills.of_hear with ⟨hbefore, hslots⟩ | ⟨hfree, hmarker, hcache⟩
    · exact .inl ⟨⟨w, hw, hbefore⟩, fun _ => hslots⟩
    · exact .inr ⟨rfl, hfree, hmarker, hcache⟩
  · exact .inl ⟨⟨u, hu, hfills.of_hear⟩, fun heq => absurd heq hne⟩

/-! ### Markers -/

theorem numbered_new : Numbered {} where
  below := by
    rintro i key marker ⟨v, hv, -⟩
    cases hv
  eq_of_fills := by
    rintro i j key key' marker ⟨v, hv, -⟩
    cases hv

theorem Numbered.work (h : t.Numbered) (j : Nat) (offer : Offer) : (t.work j offer).Numbered := by
  rcases t.work_cases j offer with heq | ⟨w, effect, hw, hworks, heq⟩
  · rwa [heq]
  · rw [heq]
    refine ⟨?_, ?_⟩
    · intro i key marker hi
      rcases hi.of_advance hw hworks with ⟨hold, -⟩ | ⟨-, -, rfl, hcache⟩
      · exact Nat.lt_of_lt_of_le (h.below hold) hworks.nextMarker_le
      · simp only [advance, hcache]
        exact Nat.lt_succ_self _
    · intro i i' key key' marker hi hi'
      -- a marker that has just been put down is not an old one
      rcases hi.of_advance hw hworks with ⟨hold, -⟩ | ⟨rfl, -, rfl, -⟩
      · rcases hi'.of_advance hw hworks with ⟨hold', -⟩ | ⟨-, -, rfl, -⟩
        · exact h.eq_of_fills hold hold'
        · exact absurd (h.below hold) (Nat.lt_irrefl _)
      · rcases hi'.of_advance hw hworks with ⟨hold', -⟩ | ⟨rfl, -, -, -⟩
        · exact absurd (h.below hold') (Nat.lt_irrefl _)
        · rfl

theorem Numbered.next (h : t.Numbered) (e : Event) : (t.next e).Numbered := by
  cases e with
  | come request =>
      exact ⟨fun hi => h.below hi.of_enter, fun hi hj => h.eq_of_fills hi.of_enter hj.of_enter⟩
  | work j offer => exact h.work j offer
  | leave j =>
      refine ⟨fun hi => ?_, fun hi hj => h.eq_of_fills hi.of_leave hj.of_leave⟩
      rw [Traffic.next, cache_leave]
      exact h.below hi.of_leave

theorem numbered_after (events : List Event) : (after events).Numbered :=
  after_induction numbered_new (fun _ e h => h.next e) events

/-! ### Sets that are kept from outside -/

theorem landed_enter (request : Request) : (t.enter request).landed key = t.landed key := by
  simp [landed, enter, Call.landings_come]

theorem landed_leave (j : Nat) : (t.leave j).landed key = t.landed key := by
  unfold leave
  split
  · rfl
  · rename_i w hw
    have hsum := sum_map_set (fun v => v.call.landings key) hw w.leave
    have hsame : w.leave.call.landings key = w.call.landings key := Call.landings_leave
    simp only [landed] at hsum ⊢
    omega

theorem landed_advance {j : Nat} {w : Visit} (hw : t.visits[j]? = some w) (effect : Effect)
    (key : SetId) :
    (t.advance j w effect).landed key + w.call.landings key =
      t.landed key + effect.call.landings key := by
  have hsum := sum_map_set (fun v => v.call.landings key) hw (w.advance t.cache effect)
  have hhear : ((fun v : Visit => v.call.landings key) ∘ fun v : Visit => v.hear effect.alert) =
      fun v : Visit => v.call.landings key := funext fun v => Call.landings_hear
  simp only [landed, advance, List.map_map, hhear]
  exact hsum

theorem landed_le_next (t : Traffic) (key : SetId) (e : Event) : t.landed key ≤ (t.next e).landed key := by
  cases e with
  | come request => exact landed_enter request ▸ Nat.le_refl _
  | leave j => exact landed_leave j ▸ Nat.le_refl _
  | work j offer =>
      rcases t.work_cases j offer with heq | ⟨w, effect, hw, hworks, heq⟩
      · exact Nat.le_of_eq (by rw [Traffic.next, heq])
      · have hle := hworks.landings_le key
        have hsum := landed_advance hw effect key
        rw [Traffic.next, heq]
        omega

theorem landed_le_append (past rest : List Event) :
    (after past).landed key ≤ (after (past ++ rest)).landed key := by
  induction rest using List.reverseRecOn with
  | nil => exact Nat.le_of_eq (by rw [List.append_nil])
  | append_singleton rest e ih =>
      rw [← List.append_assoc, after_concat]
      exact Nat.le_trans ih (landed_le_next _ key e)

/-! ### One extraction at a time -/

/-- The marker of whoever extracts stays where it is, unless a set is kept from outside. -/
theorem Marked.work (h : t.Marked key) (hnum : t.Numbered) {j : Nat} {offer : Offer}
    (hput : (t.work j offer).landed key = t.landed key) : (t.work j offer).Marked key := by
  rcases t.work_cases j offer with heq | ⟨w, effect, hw, hworks, heq⟩
  · rwa [heq]
  · rw [heq] at hput ⊢
    have hlandings : effect.call.landings key = w.call.landings key := by
      have hsum := landed_advance hw effect key
      omega
    intro i marker hi
    rcases hi.of_advance hw hworks with ⟨hold, hslots⟩ | ⟨rfl, -, rfl, hcache⟩
    · have hslot := h i marker hold
      by_cases hji : j = i
      · simp only [advance, hslots hji]
        exact hslot
      · rcases hworks.marker_stays hslot hlandings with hstays | ⟨other, hother⟩
        · exact hstays
        · -- the call that goes on would be extracting the same set under the same marker
          have hj : t.Fills j key other := ⟨w, hw, hother⟩
          have hsame : other = marker := by
            have := (h j other hj).symm.trans hslot
            simpa using this
          subst hsame
          exact absurd (hnum.eq_of_fills hj hold) hji
    · simp only [advance, hcache, reserve, Table.get?_put, if_true]

theorem Marked.next (h : t.Marked key) (hnum : t.Numbered) {e : Event}
    (hput : (t.next e).landed key = t.landed key) : (t.next e).Marked key := by
  cases e with
  | come request => exact fun i marker hi => h i marker hi.of_enter
  | work j offer => exact h.work hnum hput
  | leave j =>
      intro i marker hi
      rw [Traffic.next, cache_leave]
      exact h i marker hi.of_leave

/-- From a moment at which nobody extracts it, and as long as no set is kept from outside, the marker of
whoever extracts is in the slot. -/
theorem marked_after {past : List Event} (hquiet : ∀ i marker, ¬ (after past).Fills i key marker)
    (rest : List Event) (hput : (after (past ++ rest)).landed key = (after past).landed key) :
    (after (past ++ rest)).Marked key := by
  induction rest using List.reverseRecOn with
  | nil =>
      intro i marker hi
      rw [List.append_nil] at hi
      exact absurd hi (hquiet i marker)
  | append_singleton rest e ih =>
      rw [← List.append_assoc, after_concat] at hput ⊢
      have hle : (after past).landed key ≤ (after (past ++ rest)).landed key := landed_le_append past rest
      have hnext := landed_le_next (after (past ++ rest)) key e
      have hbefore : (after (past ++ rest)).landed key = (after past).landed key := by omega
      exact (ih hbefore).next (numbered_after _) (hput.trans hbefore.symm)

/-- **One extraction at a time.**  From a moment at which nobody extracts the set of a key, and as long
as none is kept for it from outside, at most one call extracts it; and while one does, everybody who asks
for it is told to wait for that one. -/
theorem single_flight {past : List Event} (hquiet : ∀ i marker, ¬ (after past).Fills i key marker)
    (rest : List Event) (hput : (after (past ++ rest)).landed key = (after past).landed key) :
    (∀ i j marker marker', (after (past ++ rest)).Fills i key marker →
        (after (past ++ rest)).Fills j key marker' → i = j) ∧
      ∀ i marker, (after (past ++ rest)).Fills i key marker → ∀ fp offer,
        (Call.fetch key fp .asking).step offer (after (past ++ rest)).cache =
          some
            { cache := (after (past ++ rest)).cache
              call := .fetch key fp (.told marker) } := by
  have hmarked := marked_after hquiet rest hput
  refine ⟨?_, ?_⟩
  · intro i j marker marker' hi hj
    have hslot := (hmarked i marker hi).symm.trans (hmarked j marker' hj)
    have hsame : marker = marker' := by simpa using hslot
    subst hsame
    exact (numbered_after _).eq_of_fills hi hj
  · intro i marker hi fp offer
    simp only [Call.step, Call.stepFetch, hmarked i marker hi]

/-- The set of connections of an application. -/
def baseSet : SetId := ⟨"app", "Base"⟩

/-- Two callers want the same set.  The first begins to extract it and the second finds its marker. -/
def rivalry : List Event :=
  let offer : Offer := { result := .error .cancelled }
  [.come (.fetch baseSet ⟨"old", []⟩), .come (.fetch baseSet ⟨"new", []⟩), .work 0 offer,
    .work 0 offer, .work 1 offer]

theorem single_flight_rivalry :
    (∃ i marker, (after rivalry).Fills i baseSet marker) ∧
      ∀ i j marker marker', (after rivalry).Fills i baseSet marker →
        (after rivalry).Fills j baseSet marker' → i = j := by
  refine ⟨⟨0, 0, ⟨_, rfl, .extracting⟩⟩, ?_⟩
  have hquiet : ∀ i marker, ¬ (after []).Fills i baseSet marker := by
    rintro i marker ⟨v, hv, -⟩
    cases hv
  exact (single_flight hquiet rivalry rfl).1

/-- Meanwhile a third caller keeps a set of its own. -/
def interference : List Event :=
  let offer : Offer := { result := .error .cancelled }
  [.come (.fetch baseSet ⟨"old", []⟩), .work 0 offer, .work 0 offer,
    .come (.put baseSet ⟨baseSet, []⟩ []), .work 1 offer, .work 1 offer,
    .come (.fetch baseSet ⟨"new", []⟩), .work 2 offer, .work 2 offer]

/-- **Two extractions of one set may run at once**, when a set has been kept from outside after the first
one began. -/
theorem two_flights :
    ¬ ∀ (events : List Event) (key : SetId) (i j : Nat) (v w : Visit) (fp fp' : Fingerprint)
        (marker marker' : Marker), (after events).visits[i]? = some v →
      (after events).visits[j]? = some w → v.call = .fetch key fp (.extracting marker) →
      w.call = .fetch key fp' (.extracting marker') → i = j := by
  intro hsingle
  have heq := hsingle interference baseSet 0 2 _ _ ⟨"old", []⟩ ⟨"new", []⟩ 0 1 rfl rfl rfl rfl
  exact absurd heq (by decide)

end Traffic

end SetCache

end Wiring
