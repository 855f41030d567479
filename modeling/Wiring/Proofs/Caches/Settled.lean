/-
**Settled for good.**

A call that loads a package puts its marker into the slot first and writes what has come of the load into
the slot in the end, whatever it holds by then.  That is safe because nobody else writes there meanwhile:
the marker of a load stays where it is until that load takes it away.  So a slot that is settled has never
been in the hands of a load that is still under way, and remains as it is.

Everybody who is given a package, or a load failure, is given what the slot holds.  All that a slot can ever
hold is the package of its own path or a load failure for it; that a run was cancelled is told to the caller
and forgotten.

Main definitions:

* `Wiring.PackageCache.Call.Holds` — a call is loading, and its marker is in the slot;
* `Wiring.PackageCache.Traffic.Owned` — every load has the slot for its own;
* `Wiring.PackageCache.Traffic.Truthful` — slots are settled properly, and calls answer what they hold.

Main results:

* `Wiring.PackageCache.Traffic.Owned.next`, `Wiring.PackageCache.Traffic.Truthful.next` — every event
  preserves both;
* `Wiring.PackageCache.Traffic.Owned.settled_next` — a settled slot stays as it is;
* `Wiring.PackageCache.Traffic.settled_for_good` — **what is settled is settled for good, and all callers
  agree about it**.
-/

import Wiring.Proofs.Caches.Callers

set_option autoImplicit false

namespace Wiring

namespace PackageCache

namespace Call

/-- A call is loading a package, and its marker is in the slot. -/
inductive Holds : Call → String → Marker → Prop
  | granted {path : String} {marker : Marker} : Holds (.get path (.granted marker)) path marker
  | admitted {path : String} {marker : Marker} : Holds (.get path (.admitted marker)) path marker
  | loading {path : String} {marker : Marker} : Holds (.get path (.loading marker)) path marker
  | loaded {path : String} {marker : Marker} {outcome : LoadOutcome} :
      Holds (.get path (.loaded marker outcome)) path marker
  | settling {path : String} {marker : Marker} {result : Result} :
      Holds (.get path (.settling marker result)) path marker
  | releasing {path : String} {marker : Marker} {result? : Option Result} :
      Holds (.get path (.releasing marker result?)) path marker

/-- A call has come to a result for its caller. -/
inductive Tells : Call → String → Result → Prop
  | releasing {path : String} {marker : Marker} {result : Result} :
      Tells (.get path (.releasing marker (some result))) path result
  | leaving {path : String} {marker : Marker} {result : Result} :
      Tells (.get path (.leaving marker (some result))) path result
  | ended {path : String} {result : Result} : Tells (.get path (.ended (some result))) path result

variable {offer : Offer} {cancelled : Bool} {cache : PackageCache} {effect : Effect} {call : Call}
  {path : String} {marker : Marker} {alert : Option Marker} {result : Result}

theorem not_holds_come (request : Request) : ¬ request.call.Holds path marker := by
  intro h
  cases request <;> cases h

theorem not_tells_come (request : Request) : ¬ request.call.Tells path result := by
  intro h
  cases request <;> cases h

theorem Holds.hear (h : call.Holds path marker) (alert : Option Marker) :
    (call.hear alert).Holds path marker := by
  cases h with
  | granted => exact .granted
  | admitted => exact .admitted
  | loading => exact .loading
  | loaded => exact .loaded
  | settling => exact .settling
  | releasing => exact .releasing

theorem Holds.of_hear (h : (call.hear alert).Holds path marker) : call.Holds path marker :=
  Call.of_hear (P := (Holds · path marker)) h nofun nofun

/-- Whoever gives up a load still has to take its marker out. -/
theorem Holds.leave (h : call.Holds path marker) : call.leave.Holds path marker := by
  cases h with
  | granted => exact .granted
  | admitted => exact .admitted
  | loading => exact .releasing
  | loaded => exact .loaded
  | settling => exact .settling
  | releasing => exact .releasing

theorem Holds.of_leave (h : call.leave.Holds path marker) : call.Holds path marker := by
  refine Call.of_leave (P := (Holds · path marker)) h nofun ?_
  rintro _ _ ⟨⟩
  exact .loading

theorem Tells.of_hear (h : (call.hear alert).Tells path result) : call.Tells path result :=
  Call.of_hear (P := (Tells · path result)) h nofun nofun

theorem Tells.of_leave (h : call.leave.Tells path result) : call.Tells path result :=
  Call.of_leave (P := (Tells · path result)) h nofun nofun

/-- Whoever holds a slot has held it before, or has just found it empty and put its marker down. -/
theorem Works.holds (hworks : call.Works offer cancelled cache effect)
    (h : effect.call.Holds path marker) :
    (call.Holds path marker ∧ effect.cache.slots = cache.slots) ∨
      cache.slots.get? path = none ∧ marker = cache.nextMarker ∧ effect.cache = cache.reserve path := by
  cases hworks with
  | grant hslot =>
      cases h
      exact .inr ⟨hslot, rfl, rfl⟩
  | allow =>
      cases h
      exact .inl ⟨.granted, rfl⟩
  | refuse =>
      cases h
      exact .inl ⟨.granted, rfl⟩
  | begin =>
      cases h
      exact .inl ⟨.admitted, rfl⟩
  | answer =>
      cases h
      exact .inl ⟨.loading, rfl⟩
  | judge =>
      cases h
      exact .inl ⟨.loaded, rfl⟩
  | cutShort =>
      cases h
      exact .inl ⟨.loaded, rfl⟩
  | _ => cases h

theorem Works.nextMarker_le (hworks : call.Works offer cancelled cache effect) :
    cache.nextMarker ≤ effect.cache.nextMarker := by
  cases hworks with
  | grant => exact Nat.le_succ _
  | release =>
      simp only [PackageCache.release]
      split <;> exact Nat.le_refl _
  | _ => exact Nat.le_refl _

theorem Works.distinct (hworks : call.Works offer cancelled cache effect)
    (h : cache.slots.Distinct) : effect.cache.slots.Distinct := by
  cases hworks with
  | grant => exact h.put _ _
  | settle => exact h.put _ _
  | release =>
      simp only [PackageCache.release]
      split
      · exact h.erase _
      · exact h
  | offerPackage => exact h.putNew _ _
  | offerError => exact h.putNew _ _
  | _ => exact h

/-- Whoever is about to settle a slot does so properly. -/
theorem Works.proper (hworks : call.Works offer cancelled cache effect)
    (h : effect.call = .get path (.settling marker result)) : Proper path result := by
  cases hworks with
  | judge hverdict =>
      cases h
      exact proper_of_verdict hverdict
  | _ => cases h

/-- What a call tells its caller it has told before, or has just found in the slot or put there; or it is
no property of the package. -/
theorem Works.tells (hworks : call.Works offer cancelled cache effect)
    (h : effect.call.Tells path result) :
    call.Tells path result ∨ effect.cache.slots.get? path = some (.holding result) ∨
      result = .error .cancelled ∨ result = .error (.packageNotFound path) := by
  cases hworks with
  | find hslot =>
      cases h
      exact .inr (.inl hslot)
  | lack =>
      cases h
      exact .inr (.inr (.inr rfl))
  | refuse =>
      cases h
      exact .inr (.inr (.inl rfl))
  | cutShort =>
      cases h
      exact .inr (.inr (.inl rfl))
  | settle =>
      cases h
      exact .inr (.inl (by rw [PackageCache.settle, Table.get?_put, if_pos rfl]))
  | release =>
      cases h
      exact .inl .releasing
  | alert =>
      cases h
      exact .inl .leaving
  | _ => cases h

end Call

namespace Traffic

/-- A call is loading the package of a path, and its marker is in the slot. -/
def Holds (t : Traffic) (i : Nat) (path : String) (marker : Marker) : Prop :=
  ∃ v, t.visits[i]? = some v ∧ v.call.Holds path marker

/-- A call has come to a result for its caller. -/
def Tells (t : Traffic) (i : Nat) (path : String) (result : Result) : Prop :=
  ∃ v, t.visits[i]? = some v ∧ v.call.Tells path result

/-- Every load has the slot for its own: its marker is there, no other load has the same one, and the next
marker is a new one. -/
structure Owned (t : Traffic) : Prop where
  distinct : t.cache.slots.Distinct
  below : ∀ {i path marker}, t.Holds i path marker → marker < t.cache.nextMarker
  eq_of_holds : ∀ {i j path path' marker}, t.Holds i path marker → t.Holds j path' marker → i = j
  marked : ∀ {i path marker}, t.Holds i path marker →
    t.cache.slots.get? path = some (.pending marker)

/-- Slots are settled properly, and what a call tells its caller is in the slot unless it is no property of
the package. -/
structure Truthful (t : Traffic) : Prop where
  slots : ∀ {path result}, t.cache.slots.get? path = some (.holding result) → Proper path result
  settling : ∀ {i : Nat} {path marker result} {v : Visit}, t.visits[i]? = some v →
    v.call = .get path (.settling marker result) → Proper path result
  told : ∀ {i path result}, t.Tells i path result →
    t.cache.slots.get? path = some (.holding result) ∨ result = .error .cancelled ∨
      result = .error (.packageNotFound path)

variable {t : Traffic} {i j : Nat} {path : String} {marker : Marker} {result : Result}
  {isLazy : Bool}

/-! ### Whose slot it is -/

theorem Holds.of_enter {request : Request} (h : (t.enter request).Holds i path marker) :
    t.Holds i path marker :=
  exists_of_enter (Call.not_holds_come request) h

theorem Holds.of_leave (h : (t.leave j).Holds i path marker) : t.Holds i path marker :=
  exists_of_leave Call.Holds.of_leave h

/-- Whoever holds a slot after a piece of work has held it before, and has left the slots alone if it was
the one to go on; or it has just put its marker down. -/
theorem Holds.of_advance {w : Visit} {offer : Offer} {effect : Effect} (hw : t.visits[j]? = some w)
    (hworks : w.call.Works offer t.cancelled t.cache effect)
    (h : (t.advance j w effect).Holds i path marker) :
    (t.Holds i path marker ∧ (j = i → effect.cache.slots = t.cache.slots)) ∨
      (j = i ∧ t.cache.slots.get? path = none ∧ marker = t.cache.nextMarker ∧
        effect.cache = t.cache.reserve path) := by
  obtain ⟨v, hv, hholds⟩ := h
  rcases visit_of_advance hw hv with ⟨rfl, rfl⟩ | ⟨hne, u, hu, rfl⟩
  · rcases hworks.holds hholds.of_hear with ⟨hbefore, hslots⟩ | ⟨hfree, hmarker, hcache⟩
    · exact .inl ⟨⟨w, hw, hbefore⟩, fun _ => hslots⟩
    · exact .inr ⟨rfl, hfree, hmarker, hcache⟩
  · exact .inl ⟨⟨u, hu, hholds.of_hear⟩, fun heq => absurd heq hne⟩

theorem owned_opening : (opening isLazy).Owned where
  distinct := Table.distinct_empty
  below := by
    rintro i path marker ⟨v, hv, -⟩
    cases hv
  eq_of_holds := by
    rintro i j path path' marker ⟨v, hv, -⟩
    cases hv
  marked := by
    rintro i path marker ⟨v, hv, -⟩
    cases hv

/-- The marker of a load that does not go on itself is left where it is. -/
theorem Owned.marker_stays (h : t.Owned) {w : Visit} {offer : Offer} {effect : Effect}
    (hw : t.visits[j]? = some w) (hworks : w.call.Works offer t.cancelled t.cache effect)
    (hi : t.Holds i path marker) (hji : j ≠ i) :
    effect.cache.slots.get? path = some (.pending marker) := by
  have hslot := h.marked hi
  -- the call that goes on would have to hold the same slot
  have hother : ∀ other, ¬ w.call.Holds path other := by
    intro other hholds
    have hj : t.Holds j path other := ⟨w, hw, hholds⟩
    have hsame : other = marker := by simpa [h.marked hj] using hslot
    subst hsame
    exact hji (h.eq_of_holds hj hi)
  cases hworks.turns path with
  | keeps hkeeps => exact hkeeps.trans hslot
  | reserves hfree => cases hslot.symm.trans hfree
  | fills result hfree => cases hslot.symm.trans hfree
  | settles other result hcall => exact absurd (hcall ▸ .settling) (hother other)
  | releases other result? hcall => exact absurd (hcall ▸ .releasing) (hother other)

theorem Owned.work (h : t.Owned) (j : Nat) (offer : Offer) : (t.work j offer).Owned := by
  rcases t.work_cases j offer with heq | ⟨w, effect, hw, hworks, heq⟩
  · rwa [heq]
  · rw [heq]
    refine ⟨hworks.distinct h.distinct, ?_, ?_, ?_⟩
    · intro i path marker hi
      rcases hi.of_advance hw hworks with ⟨hold, -⟩ | ⟨-, -, rfl, hcache⟩
      · exact Nat.lt_of_lt_of_le (h.below hold) hworks.nextMarker_le
      · simp only [advance, hcache]
        exact Nat.lt_succ_self _
    · intro i i' path path' marker hi hi'
      -- a marker that has just been put down is not an old one
      rcases hi.of_advance hw hworks with ⟨hold, -⟩ | ⟨rfl, -, rfl, -⟩
      · rcases hi'.of_advance hw hworks with ⟨hold', -⟩ | ⟨-, -, rfl, -⟩
        · exact h.eq_of_holds hold hold'
        · exact absurd (h.below hold) (Nat.lt_irrefl _)
      · rcases hi'.of_advance hw hworks with ⟨hold', -⟩ | ⟨rfl, -, -, -⟩
        · exact absurd (h.below hold') (Nat.lt_irrefl _)
        · rfl
    · intro i path marker hi
      rcases hi.of_advance hw hworks with ⟨hold, hslots⟩ | ⟨rfl, -, rfl, hcache⟩
      · by_cases hji : j = i
        · simp only [advance, hslots hji]
          exact h.marked hold
        · exact h.marker_stays hw hworks hold hji
      · simp only [advance, hcache, reserve, Table.get?_put, if_true]

/-- **Every load has its slot for its own**, whatever happens. -/
theorem Owned.next (h : t.Owned) (e : Event) : (t.next e).Owned := by
  cases e with
  | come request =>
      exact ⟨h.distinct, fun hi => h.below hi.of_enter,
        fun hi hj => h.eq_of_holds hi.of_enter hj.of_enter, fun hi => h.marked hi.of_enter⟩
  | work j offer => exact h.work j offer
  | leave j =>
      refine ⟨?_, fun hi => ?_, fun hi hj => h.eq_of_holds hi.of_leave hj.of_leave, fun hi => ?_⟩
      · rw [Traffic.next, cache_leave]
        exact h.distinct
      · rw [Traffic.next, cache_leave]
        exact h.below hi.of_leave
      · rw [Traffic.next, cache_leave]
        exact h.marked hi.of_leave
  | cancel => exact ⟨h.distinct, h.below, h.eq_of_holds, h.marked⟩

theorem owned_after (events : List Event) : (after isLazy events).Owned :=
  after_induction owned_opening (fun _ e h => h.next e) events

/-- **A settled slot stays as it is**, whatever happens. -/
theorem Owned.settled_next (h : t.Owned) (hslot : t.cache.slots.get? path = some (.holding result))
    (e : Event) : (t.next e).cache.slots.get? path = some (.holding result) := by
  cases e with
  | come request => exact hslot
  | cancel => exact hslot
  | leave j => rwa [Traffic.next, cache_leave]
  | work j offer =>
      rcases t.work_cases j offer with heq | ⟨w, effect, hw, hworks, heq⟩
      · rwa [Traffic.next, heq]
      · rw [Traffic.next, heq]
        -- no load holds a slot that is settled
        have hnone : ∀ marker, ¬ w.call.Holds path marker := by
          intro marker hholds
          have hpending := h.marked ⟨w, hw, hholds⟩
          exact PackageSlot.holding_ne_pending _ _ (Option.some.inj (hslot.symm.trans hpending))
        cases hworks.turns path with
        | keeps hkeeps => exact hkeeps.trans hslot
        | reserves hfree => cases hslot.symm.trans hfree
        | fills other hfree => cases hslot.symm.trans hfree
        | settles marker other hcall => exact absurd (hcall ▸ .settling) (hnone marker)
        | releases marker result? hcall => exact absurd (hcall ▸ .releasing) (hnone marker)

theorem settled_append {past : List Event}
    (hslot : (after isLazy past).cache.slots.get? path = some (.holding result))
    (rest : List Event) :
    (after isLazy (past ++ rest)).cache.slots.get? path = some (.holding result) :=
  @after_append_induction isLazy (fun t => t.cache.slots.get? path = some (.holding result)) past hslot
    (fun events e h => (owned_after events).settled_next h e) rest

/-! ### What calls tell -/

theorem Tells.of_enter {request : Request} (h : (t.enter request).Tells i path result) :
    t.Tells i path result :=
  exists_of_enter (Call.not_tells_come request) h

theorem Tells.of_leave (h : (t.leave j).Tells i path result) : t.Tells i path result :=
  exists_of_leave Call.Tells.of_leave h

theorem Tells.of_advance {w : Visit} {offer : Offer} {effect : Effect} (hw : t.visits[j]? = some w)
    (hworks : w.call.Works offer t.cancelled t.cache effect)
    (h : (t.advance j w effect).Tells i path result) :
    t.Tells i path result ∨ effect.cache.slots.get? path = some (.holding result) ∨
      result = .error .cancelled ∨ result = .error (.packageNotFound path) := by
  obtain ⟨v, hv, htells⟩ := h
  rcases visit_of_advance hw hv with ⟨rfl, rfl⟩ | ⟨-, u, hu, rfl⟩
  · exact (hworks.tells htells.of_hear).imp_left fun hbefore => ⟨w, hw, hbefore⟩
  · exact .inl ⟨u, hu, htells.of_hear⟩

theorem truthful_opening : (opening isLazy).Truthful where
  slots := by
    rintro path result ⟨⟩
  settling := by
    rintro i path marker result v ⟨⟩
  told := by
    rintro i path result ⟨v, hv, -⟩
    cases hv

theorem Truthful.work (h : t.Truthful) (howned : t.Owned) (j : Nat) (offer : Offer) :
    (t.work j offer).Truthful := by
  rcases t.work_cases j offer with heq | ⟨w, effect, hw, hworks, heq⟩
  · rwa [heq]
  · have hstays : ∀ {path result}, t.cache.slots.get? path = some (.holding result) →
        effect.cache.slots.get? path = some (.holding result) := by
      intro path result hslot
      have hnext := howned.settled_next hslot (.work j offer)
      rwa [Traffic.next, heq] at hnext
    rw [heq]
    refine ⟨?_, ?_, ?_⟩
    · intro path result hslot
      cases hworks.turns path with
      | keeps hkeeps => exact h.slots (hkeeps.symm.trans hslot)
      | reserves _ hnew =>
          have hpending := Option.some.inj (hslot.symm.trans hnew)
          exact absurd hpending (PackageSlot.holding_ne_pending _ _)
      | fills other _ hnew hproper =>
          have hsame := PackageSlot.holding_injective (Option.some.inj (hslot.symm.trans hnew))
          exact hsame ▸ hproper
      | settles marker other hcall hnew =>
          have hsame := PackageSlot.holding_injective (Option.some.inj (hslot.symm.trans hnew))
          exact hsame ▸ h.settling hw hcall
      | releases marker result? _ _ hnew => cases hslot.symm.trans hnew
    · intro i path marker result v hv hcall
      rcases visit_of_advance hw hv with ⟨rfl, rfl⟩ | ⟨-, u, hu, rfl⟩
      · exact hworks.proper (Call.eq_of_hear hcall rfl)
      · exact h.settling hu (Call.eq_of_hear hcall rfl)
    · intro i path result htells
      rcases htells.of_advance hw hworks with hbefore | hnow
      · exact (h.told hbefore).imp_left hstays
      · exact hnow

theorem Truthful.next (h : t.Truthful) (howned : t.Owned) (e : Event) : (t.next e).Truthful := by
  cases e with
  | come request =>
      refine ⟨h.slots, ?_, fun htells => h.told htells.of_enter⟩
      intro i path marker result v hv hcall
      rcases visit_of_enter hv with hv | rfl
      · exact h.settling hv hcall
      · cases request <;> cases hcall
  | work j offer => exact h.work howned j offer
  | leave j =>
      refine ⟨?_, ?_, ?_⟩
      · intro path result hslot
        rw [Traffic.next, cache_leave] at hslot
        exact h.slots hslot
      · intro i path marker result v hv hcall
        obtain ⟨w, hw, rfl | rfl⟩ := visit_of_leave hv
        · exact h.settling hw hcall
        · exact h.settling hw (Call.eq_of_leave hcall rfl)
      · intro i path result htells
        rw [Traffic.next, cache_leave]
        exact h.told htells.of_leave
  | cancel => exact ⟨h.slots, h.settling, h.told⟩

theorem truthful_after (events : List Event) : (after isLazy events).Truthful :=
  (@after_induction isLazy (fun t => t.Owned ∧ t.Truthful) ⟨owned_opening, truthful_opening⟩
    (fun _ e h => ⟨h.1.next e, h.2.next h.1 e⟩) events).2

end Traffic

/-! ### What callers are told -/

namespace Traffic

/-- A result that says something about the package. -/
def IsLasting : Result → Prop
  | .ok _ => True
  | .error (.loadFailure _ _) => True
  | .error _ => False

/-- A call has come back with a result. -/
def Returns (t : Traffic) (i : Nat) (path : String) (result : Result) : Prop :=
  ∃ v, t.visits[i]? = some v ∧ v.call = .get path (.ended (some result))

variable {isLazy : Bool} {t : Traffic} {i : Nat} {path : String} {result : Result}

/-- A lasting result is what the slot holds. -/
theorem Truthful.of_returns (h : t.Truthful) (hreturns : t.Returns i path result)
    (hlasting : IsLasting result) : t.cache.slots.get? path = some (.holding result) := by
  obtain ⟨v, hv, hcall⟩ := hreturns
  have htells : t.Tells i path result := ⟨v, hv, hcall ▸ Call.Tells.ended⟩
  rcases h.told htells with hslot | rfl | rfl
  · exact hslot
  · cases hlasting
  · cases hlasting

/-- **What is settled is settled for good, and all callers agree about it.**  After any course of events, in
which callers may give up and the run may be cancelled: a slot that holds a package or a failure holds it
ever after; a package is in the slot of its own path, and a failure is a load failure for that path, so that
no slot ever holds that a run was cancelled; any two calls that come back with a package or a load failure
for one path come back with the same; and the packages that loaded are listed in strictly ascending order,
each that a slot holds and no other. -/
theorem settled_for_good (isLazy : Bool) (events : List Event) :
    (∀ path result, (after isLazy events).cache.slots.get? path = some (.holding result) →
        ∀ rest, (after isLazy (events ++ rest)).cache.slots.get? path = some (.holding result)) ∧
      (∀ path pkg, (after isLazy events).cache.slots.get? path = some (.ready pkg) →
        pkg.path = path) ∧
      (∀ path failure, (after isLazy events).cache.slots.get? path = some (.failed failure) →
        ∃ reason, failure = .loadFailure path reason) ∧
      (∀ path i j result result', (after isLazy events).Returns i path result →
        (after isLazy events).Returns j path result' → IsLasting result → IsLasting result' →
        result = result') ∧
      (after isLazy events).cache.loadedPaths.Pairwise (· < ·) ∧
      ∀ path, path ∈ (after isLazy events).cache.loadedPaths ↔
        ∃ pkg, (after isLazy events).cache.slots.get? path = some (.ready pkg) := by
  have howned := @owned_after isLazy events
  have htruthful := @truthful_after isLazy events
  refine ⟨fun path result hslot rest => settled_append hslot rest, ?_, ?_, ?_,
    pairwise_loadedPaths howned.distinct, fun path => mem_loadedPaths howned.distinct⟩
  · intro path pkg hslot
    have hholding : (after isLazy events).cache.slots.get? path = some (.holding (.ok pkg)) := hslot
    exact htruthful.slots hholding
  · intro path failure hslot
    have hholding : (after isLazy events).cache.slots.get? path = some (.holding (.error failure)) :=
      hslot
    exact htruthful.slots hholding
  · intro path i j result result' hi hj hlasting hlasting'
    have hslot := htruthful.of_returns hi hlasting
    have hslot' := htruthful.of_returns hj hlasting'
    exact PackageSlot.holding_injective (Option.some.inj (hslot.symm.trans hslot'))

end Traffic

end PackageCache

end Wiring
